import NilStore.Chain.Ledger
import NilStore.Proofs.Fees
import NilStore.Proofs.LivenessRewards

/-!
# `NilStore.Proofs.Solvency`: the module account covers what it owes

What the module owes is the escrow of all deals and the locked fee of all sessions (`owed`).
`ProveLiveness` and `SignalSaturation` deduct from escrows without a transfer, so what they
deducted stays in the module account: `Event.deducted` lists it. `Solvent` says that the account
holds what is owed and what was deducted, and that no single escrow or fee is negative.

Each handler moves coins and books in one of a few ways, and each way has one lemma
(`Solvent.set_deal`, `Solvent.set_session`, `Solvent.bank`). `apply_solvent` is the step and
`module_solvency` the run.
-/

set_option autoImplicit false

namespace NilStore.Chain

open NilStore.Lib

variable {β : Type}

/-! ### Books and account -/

/-- The escrow of all deals and the locked fee of all sessions. -/
def owed (s : KeeperState β) : Int :=
  s.deals.sumOf (·.escrowBalance) + s.retrievalSessions.sumOf (·.lockedFee)

/-- The module account holds what is owed and the stranded rest, and nobody is owed a negative
amount. -/
structure Solvent (env : Env β) (stranded : Int) (s : KeeperState β) : Prop where
  escrow : ∀ {d deal}, s.deals.get d = some deal → 0 ≤ deal.escrowBalance
  locked : ∀ {id session}, s.retrievalSessions.get id = some session → 0 ≤ session.lockedFee
  balance : env.bank.moduleBalance s.bank = owed s + stranded

/-- What an event deducts from escrows without a transfer: the bandwidth payment of a successful
proof, and the cost of one more stripe. -/
def Event.deducted (env : Env β) (s : KeeperState β) : Event → List Int
  | .deliver ctx (.proveLiveness msg) =>
      match (proveLiveness env ctx msg).exec s with
      | (.ok r, _) => if r.success then [msg.proofType.payment] else []
      | (.error _, _) => []
  | .deliver ctx (.signalSaturation msg) =>
      match (signalSaturation env ctx msg).exec s with
      | (.ok _, _) => [elasticityCost s.getParams]
      | (.error _, _) => []
  | _ => []

/-- The account that authorizes a message: the creator, or the signer of the intent. -/
def Signer (env : Env β) (s : KeeperState β) : Msg → Bytes → Prop
  | .registerProvider msg, addr => env.codec.accAddressFromBech32 msg.creator = some addr
  | .createDeal msg, addr => env.codec.accAddressFromBech32 msg.creator = some addr
  | .updateDealContent msg, addr => env.codec.accAddressFromBech32 msg.creator = some addr
  | .addCredit msg, addr => env.codec.accAddressFromBech32 msg.creator = some addr
  | .withdrawRewards msg, addr => env.codec.accAddressFromBech32 msg.creator = some addr
  | .createDealFromEvm msg, addr => ∃ intent, msg.intent = some intent ∧
      recoverEvmAddressFromDigest env
        (intentDigest env s.getParams (hashCreateDeal env.keccak256 intent)) msg.evmSignature =
          some addr
  | .updateDealContentFromEvm msg, addr => ∃ intent, msg.intent = some intent ∧
      recoverEvmAddressFromDigest env
        (intentDigest env s.getParams (hashUpdateContent env.keccak256 intent)) msg.evmSignature =
          some addr
  | _, _ => False

/-- Nobody signs for the module account, which has no key. -/
def NoModuleSigner (env : Env β) (s : KeeperState β) (e : Event) : Prop :=
  ∀ ctx msg addr, e = .deliver ctx msg → Signer env s msg addr → addr ≠ env.moduleAddr

/-- No provider is the module account. -/
def ProvidersOutside (env : Env β) (s : KeeperState β) : Prop :=
  ∀ k, s.registered k → env.codec.accAddressFromBech32 k ≠ some env.moduleAddr

/-! ### What bank calls do to the module account -/

section Bank

variable {env : Env β} {ctx : Ctx} {b b' : β} {addr : Bytes} {amount : Int}

/-- A deposit into the module raises its balance. -/
theorem moduleBalance_deposit (hne : addr ≠ env.moduleAddr)
    (h : env.bank.sendCoinsFromAccountToModule ctx b addr moduleName (bondCoin amount) = some b') :
    env.bank.moduleBalance b' = env.bank.moduleBalance b + amount := by
  have hbal := env.bank.balance_toModule h (env.bank.moduleAddress moduleName) bondDenom
  rw [BankKeeper.moduleBalance, BankKeeper.moduleBalance, hbal, debit, debit,
    if_neg fun hc => hne hc.1.symm, if_pos ⟨rfl, rfl⟩]
  show _ - 0 + amount = _
  omega

/-- A fee that somebody else pays to the fee collector leaves the module's balance alone. -/
theorem moduleBalance_fee {coin : Coin} (hne : addr ≠ env.moduleAddr)
    (h : env.bank.sendCoinsFromAccountToModule ctx b addr feeCollectorName coin = some b') :
    env.bank.moduleBalance b' = env.bank.moduleBalance b := by
  have hbal := env.bank.balance_toModule h (env.bank.moduleAddress moduleName) bondDenom
  rw [BankKeeper.moduleBalance, BankKeeper.moduleBalance, hbal, debit, debit,
    if_neg fun hc => hne hc.1.symm, if_neg fun hc => env.bank.moduleAddress_ne hc.1.symm]
  omega

/-- A payout lowers the module's balance. -/
theorem moduleBalance_payout (hne : addr ≠ env.moduleAddr)
    (h : env.bank.sendCoinsFromModuleToAccount ctx b moduleName addr (bondCoin amount) = some b') :
    env.bank.moduleBalance b' = env.bank.moduleBalance b - amount := by
  have hbal := env.bank.balance_toAccount h (env.bank.moduleAddress moduleName) bondDenom
  rw [BankKeeper.moduleBalance, BankKeeper.moduleBalance, hbal, debit, debit, if_pos ⟨rfl, rfl⟩,
    if_neg fun hc => hne hc.1.symm]
  show _ - amount + 0 = _
  omega

/-- A burn lowers the module's balance. -/
theorem moduleBalance_burn
    (h : env.bank.burnCoins ctx b moduleName (bondCoin amount) = some b') :
    env.bank.moduleBalance b' = env.bank.moduleBalance b - amount := by
  have hbal := env.bank.balance_burn h (env.bank.moduleAddress moduleName) bondDenom
  rw [BankKeeper.moduleBalance, BankKeeper.moduleBalance, hbal, debit, if_pos ⟨rfl, rfl⟩]
  rfl

/-- A mint raises the module's balance. -/
theorem moduleBalance_mint
    (h : env.bank.mintCoins ctx b moduleName (bondCoin amount) = some b') :
    env.bank.moduleBalance b' = env.bank.moduleBalance b + amount := by
  have hbal := env.bank.balance_mint h (env.bank.moduleAddress moduleName) bondDenom
  rw [BankKeeper.moduleBalance, BankKeeper.moduleBalance, hbal, debit, if_pos ⟨rfl, rfl⟩]
  rfl

/-- Slashing a provider moves the amount in and burns it. -/
theorem moduleBalance_attemptSlash (hne : addr ≠ env.moduleAddr)
    (hpos : 0 ≤ env.bank.moduleBalance b) :
    env.bank.moduleBalance (attemptSlash env.bank ctx addr b) = env.bank.moduleBalance b := by
  rw [attemptSlash]
  cases hsend : env.bank.sendCoinsFromAccountToModule ctx b addr moduleName slashAmount with
  | none => rfl
  | some b₁ =>
      have hin : env.bank.moduleBalance b₁ = env.bank.moduleBalance b + 10000000 :=
        moduleBalance_deposit hne hsend
      -- The account has at least what has just come in, so the burn goes through.
      have hsome := env.bank.burn_isSome ctx b₁ 10000000 (by omega) (by
        show 10000000 ≤ env.bank.moduleBalance b₁
        omega)
      obtain ⟨b₂, hburn⟩ := Option.isSome_iff_exists.mp hsome
      have hout := moduleBalance_burn hburn
      show env.bank.moduleBalance
        ((env.bank.burnCoins ctx b₁ moduleName (bondCoin 10000000)).getD b₁)
        = _
      rw [hburn, Option.getD_some]
      omega

/-- Settling a fee takes both parts out. -/
theorem moduleBalance_settled {burn cut : Int} {provider : Str} (hburn : 0 ≤ burn) (hcut : 0 ≤ cut)
    (hne : env.codec.accAddressFromBech32 provider ≠ some env.moduleAddr)
    (h : FeeSettled env ctx burn cut provider b b') :
    env.bank.moduleBalance b' = env.bank.moduleBalance b - burn - cut := by
  obtain ⟨b₁, hburned, hpaid⟩ := h.paid
  have hfirst : env.bank.moduleBalance b₁ = env.bank.moduleBalance b - burn := by
    split at hburned
    · exact moduleBalance_burn hburned
    · rw [hburned]
      omega
  split at hpaid
  · obtain ⟨addr, haddr, hsend⟩ := hpaid
    have hout := moduleBalance_payout (fun heq => hne (heq ▸ haddr)) hsend
    omega
  · rw [hpaid]
    omega

end Bank

/-! ### The ways in which coins and books move -/

section Solvent

variable {env : Env β} {s s' : KeeperState β} {stranded : Int}

/-- A solvent module owes no negative amount. -/
theorem Solvent.owed_nonneg (h : Solvent env stranded s) : 0 ≤ owed s := by
  have hescrow := KVStore.sumOf_nonneg (f := fun deal : Deal => deal.escrowBalance)
    fun _ _ hget => h.escrow hget
  have hlocked := KVStore.sumOf_nonneg (f := fun session : RetrievalSession => session.lockedFee)
    fun _ _ hget => h.locked hget
  rw [owed]
  omega

/-- Only the bank has changed, by as much as was deducted. -/
theorem Solvent.bank (h : Solvent env stranded s) (hdeals : s'.deals = s.deals)
    (hsessions : s'.retrievalSessions = s.retrievalSessions)
    (hbank : env.bank.moduleBalance s'.bank = env.bank.moduleBalance s.bank) :
    Solvent env stranded s' := by
  refine ⟨?_, ?_, ?_⟩
  · rw [hdeals]
    exact h.escrow
  · rw [hsessions]
    exact h.locked
  · rw [hbank, owed, hdeals, hsessions]
    exact h.balance

/-- One deal is written: the account grows by as much as the escrow of the deal, and what is left
over is stranded. -/
theorem Solvent.set_deal {d : Nat} {deal' : Deal} (h : Solvent env stranded s) (old out : Int)
    (hold : ((s.deals.get d).map (·.escrowBalance)).getD 0 = old)
    (hdeals : s'.deals = s.deals.set d deal')
    (hsessions : s'.retrievalSessions = s.retrievalSessions) (hnonneg : 0 ≤ deal'.escrowBalance)
    (hbank : env.bank.moduleBalance s'.bank =
      env.bank.moduleBalance s.bank + (deal'.escrowBalance - old) + out) :
    Solvent env (stranded + out) s' := by
  refine ⟨fun {d' deal} hget => ?_, ?_, ?_⟩
  · rw [hdeals] at hget
    rcases KVStore.get_set_some hget with ⟨-, rfl⟩ | ⟨-, hget⟩
    · exact hnonneg
    · exact h.escrow hget
  · rw [hsessions]
    exact h.locked
  · have hbalance := h.balance
    rw [owed] at hbalance
    rw [owed, hdeals, hsessions, KVStore.sumOf_set, hold, hbank, hbalance]
    omega

/-- One deal is written with the escrow it had. -/
theorem Solvent.keep_escrow {d : Nat} {deal deal' : Deal} (h : Solvent env stranded s)
    (hget : s.deals.get d = some deal) (hdeals : s'.deals = s.deals.set d deal')
    (hsame : deal'.escrowBalance = deal.escrowBalance)
    (hsessions : s'.retrievalSessions = s.retrievalSessions) (hbank : s'.bank = s.bank) :
    Solvent env stranded s' := by
  have hescrow := h.escrow hget
  have hstep := h.set_deal deal.escrowBalance 0 (by rw [hget]; rfl) hdeals hsessions (by omega)
    (by rw [hbank, hsame]; omega)
  simpa using hstep

/-- One session is written: the account shrinks by as much as its fee. -/
theorem Solvent.set_session {id : Bytes} {session' : RetrievalSession}
    (h : Solvent env stranded s) (old : Int)
    (hold : ((s.retrievalSessions.get id).map (·.lockedFee)).getD 0 = old)
    (hdeals : s'.deals = s.deals)
    (hsessions : s'.retrievalSessions = s.retrievalSessions.set id session')
    (hnonneg : 0 ≤ session'.lockedFee)
    (hbank : env.bank.moduleBalance s'.bank =
      env.bank.moduleBalance s.bank + (session'.lockedFee - old)) :
    Solvent env stranded s' := by
  refine ⟨?_, fun {id' session} hget => ?_, ?_⟩
  · rw [hdeals]
    exact h.escrow
  · rw [hsessions] at hget
    rcases KVStore.get_set_some hget with ⟨-, rfl⟩ | ⟨-, hget⟩
    · exact hnonneg
    · exact h.locked hget
  · have hbalance := h.balance
    rw [owed] at hbalance
    rw [owed, hdeals, hsessions, KVStore.sumOf_set, hold, hbank, hbalance]
    omega

end Solvent

/-! ### The handlers -/

section Handlers

variable {env : Env β} {ctx : Ctx} {s s' : KeeperState β} {stranded : Int}

/-- A creation: the fee goes elsewhere, the escrow comes in. -/
theorem DealCreated.solvent {payer : Bytes} {deal : Deal} (hs : WellFormed env s)
    (h : Solvent env stranded s) (hne : payer ≠ env.moduleAddr)
    (hcreated : DealCreated env ctx s s' payer deal)
    (hsessions : s'.retrievalSessions = s.retrievalSessions) : Solvent env stranded s' := by
  obtain ⟨b₁, hfee, hsend⟩ := hcreated.bank
  have hpaid : env.bank.moduleBalance b₁ = env.bank.moduleBalance s.bank := by
    rw [FeePaid] at hfee
    split at hfee
    · exact moduleBalance_fee hne hfee
    · rw [hfee]
  have hin := moduleBalance_deposit hne hsend
  have hstep := h.set_deal 0 0 (by rw [hs.fresh]; rfl) hcreated.deals hsessions
    hcreated.escrow (by omega)
  simpa using hstep

/-- A content update: the term deposit comes in. -/
theorem ContentUpdated.solvent {payer : Bytes} {d : Nat} {owner : Str} {size : UInt64} {deal : Deal}
    {root : Bytes} (h : Solvent env stranded s) (hne : payer ≠ env.moduleAddr)
    (hupdated : ContentUpdated env ctx s s' payer d owner size deal root)
    (hsessions : s'.retrievalSessions = s.retrievalSessions) : Solvent env stranded s' := by
  have hin : env.bank.moduleBalance s'.bank =
      env.bank.moduleBalance s.bank + depositPaid s.getParams deal size := by
    have hpaid := hupdated.bank
    rw [DepositPaid] at hpaid
    rw [depositPaid]
    split at hpaid
    · have hdeposit := moduleBalance_deposit hne hpaid
      omega
    · rw [hpaid]
      omega
  have hescrow := h.escrow hupdated.get
  have hdeposit : 0 ≤ depositPaid s.getParams deal size := le_max_left _ _
  have hstep := h.set_deal deal.escrowBalance 0
    (by rw [hupdated.get]; rfl) hupdated.deals hsessions
    (by show 0 ≤ deal.escrowBalance + _; omega)
    (by rw [hin]; show _ = _ + (deal.escrowBalance + _ - deal.escrowBalance) + 0; omega)
  simpa using hstep

/-- An opening: the base fee is burned, the variable fee moves from the escrow to the session. The
total is checked against the escrow first. -/
theorem SessionOpened.solvent {msg : MsgOpenRetrievalSession} {plan : OpenPlan} {id : Bytes}
    (hp : s.getParams.Valid) (h : Solvent env stranded s)
    (hfresh : s.retrievalSessions.get id = none)
    (hopened : SessionOpened env ctx msg s s' plan id) : Solvent env stranded s' := by
  obtain ⟨hplan, -, -, s₁, hfees, rfl⟩ := hopened
  -- the deal, its escrow and the two fees
  have hget := (checkOpen_ok hplan).1
  have hescrow := h.escrow hget
  have hvariable := variableFee_nonneg s.getParams msg.blobCount
  have hbase := hp.baseFee_nonneg
  have hsessions : s₁.retrievalSessions = s.retrievalSessions := by rw [hfees.frame]
  have hdeals := hfees.deals
  have haffordable := hfees.affordable
  have htotal : totalFee s.getParams msg.blobCount =
      variableFee s.getParams msg.blobCount + s.getParams.baseRetrievalFee.amount := rfl
  -- The account after the base fee.
  have hbank : env.bank.moduleBalance s₁.bank = env.bank.moduleBalance s.bank -
      (totalFee s.getParams msg.blobCount - variableFee s.getParams msg.blobCount) := by
    have hburned := hfees.bank
    split at hburned
    · rw [hp.baseFee] at hburned
      have hout := moduleBalance_burn hburned
      omega
    · rename_i hnone
      rw [hburned]
      have hzero : ¬0 < s.getParams.baseRetrievalFee.amount := fun hpos =>
        hnone ⟨by omega, hpos⟩
      omega
  -- the escrows, the locked fees, and the balance
  refine ⟨fun {d deal} hd => ?_, fun {id' session} hid => ?_, ?_⟩
  · show 0 ≤ deal.escrowBalance
    have hd : s₁.deals.get d = some deal := hd
    rw [hdeals] at hd
    split at hd
    · rename_i hpos
      rcases KVStore.get_set_some hd with ⟨-, rfl⟩ | ⟨-, hd⟩
      · have := haffordable hpos
        show 0 ≤ plan.deal.escrowBalance - totalFee s.getParams msg.blobCount
        omega
      · exact h.escrow hd
    · exact h.escrow hd
  · have hid : (s₁.retrievalSessions.set id (newSession ctx msg id plan.totalBytes
        (variableFee s.getParams msg.blobCount))).get id' = some session := hid
    rw [hsessions] at hid
    rcases KVStore.get_set_some hid with ⟨-, rfl⟩ | ⟨-, hid⟩
    · exact hvariable
    · exact h.locked hid
  · show env.bank.moduleBalance s₁.bank = s₁.deals.sumOf (·.escrowBalance) +
      (s₁.retrievalSessions.set id (newSession ctx msg id plan.totalBytes
        (variableFee s.getParams msg.blobCount))).sumOf (·.lockedFee) + stranded
    -- one more session, and one escrow less the fees
    have hlocked : (s.retrievalSessions.set id (newSession ctx msg id plan.totalBytes
        (variableFee s.getParams msg.blobCount))).sumOf (·.lockedFee) =
        s.retrievalSessions.sumOf (·.lockedFee) + variableFee s.getParams msg.blobCount := by
      rw [KVStore.sumOf_set, hfresh]
      show _ - 0 + variableFee s.getParams msg.blobCount = _
      omega
    have hsum : s₁.deals.sumOf (·.escrowBalance) =
        s.deals.sumOf (·.escrowBalance) - totalFee s.getParams msg.blobCount := by
      rw [hdeals]
      split
      · rw [KVStore.sumOf_set, hget]
        show _ - plan.deal.escrowBalance +
          (plan.deal.escrowBalance - totalFee s.getParams msg.blobCount) = _
        omega
      · omega
    have hbalance := h.balance
    rw [owed] at hbalance
    rw [hsessions, hlocked, hsum, hbank, hbalance]
    omega

/-- Finishing a session: a settled fee leaves the account. The provider is not the module itself, so
the payment goes out. -/
theorem Finished.solvent {id : Bytes} {session stored : RetrievalSession} (hp : s.getParams.Valid)
    (h : Solvent env stranded s) (hget : s.retrievalSessions.get id = some stored)
    (hfee : session.lockedFee = stored.lockedFee)
    (hne : env.codec.accAddressFromBech32 session.provider ≠ some env.moduleAddr)
    (hfinished : Finished env ctx id session s s') : Solvent env stranded s' := by
  have hnonneg := h.locked hget
  -- the fee that was locked at this id
  have hold : ((s.retrievalSessions.get id).map (·.lockedFee)).getD 0 = session.lockedFee := by
    rw [hget, hfee]
    rfl
  cases hfinished with
  | @settled b hstatus hpos hpaid =>
      -- The two parts of the fee make up the fee.
      have hbounds := settleBurn_bounds hp hpos.le
      have hout := moduleBalance_settled hbounds.1 (by omega) hne hpaid
      refine h.set_session session.lockedFee hold rfl rfl le_rfl ?_
      show env.bank.moduleBalance b = _ + (0 - session.lockedFee)
      omega
  | free hstatus hzero =>
      refine h.set_session session.lockedFee hold rfl rfl (by omega) ?_
      show env.bank.moduleBalance s.bank = _
      omega
  | pending hstatus =>
      refine h.set_session session.lockedFee hold rfl rfl (by omega) ?_
      show env.bank.moduleBalance s.bank = _
      omega

/-- Advancing a session keeps the module solvent: what leaves it was locked in the session. -/
theorem Advanced.solvent {id : Bytes} {session : RetrievalSession}
    {next : RetrievalSessionStatus → RetrievalSessionStatus} (hp : s.getParams.Valid)
    (h : Solvent env stranded s) (hget : s.retrievalSessions.get id = some session)
    (hne : env.codec.accAddressFromBech32 session.provider ≠ some env.moduleAddr)
    (hmoved : Advanced env ctx id next session s s') : Solvent env stranded s' := by
  cases hmoved with
  | unchanged hstatus => exact h
  | moved hstatus hfinished =>
      refine Finished.solvent hp h hget ?_ ?_ hfinished
      · rfl
      · exact hne

/-- Cancelling a session: the fee moves back into the escrow, in the books only. No coin moves. -/
theorem Canceled.solvent {id : Bytes} {session : RetrievalSession} (h : Solvent env stranded s)
    (hget : s.retrievalSessions.get id = some session)
    (hmoved : Canceled ctx id session s s') : Solvent env stranded s' := by
  have hnonneg := h.locked hget
  -- the fee that was locked at this id
  have hold : ((s.retrievalSessions.get id).map (·.lockedFee)).getD 0 = session.lockedFee := by
    rw [hget]
    rfl
  cases hmoved with
  | unchanged hstatus => exact h
  | @refunded s₁ deal hstatus hexp hpos hdeal hevidence =>
      rw [EvidenceOnly] at hevidence
      have hescrow := h.escrow hdeal
      -- The fee counts twice between the two writes, as a stranded amount below zero.
      have hfirst : Solvent env (stranded + -session.lockedFee)
          { s₁ with
            deals := s.deals.set session.dealId.toNat
              { deal with escrowBalance := deal.escrowBalance + session.lockedFee } } := by
        refine h.set_deal deal.escrowBalance (-session.lockedFee) (by rw [hdeal]; rfl) rfl ?_ ?_ ?_
        · rw [hevidence]
        · show 0 ≤ deal.escrowBalance + session.lockedFee
          omega
        · rw [hevidence]
          show env.bank.moduleBalance s.bank = _ + (deal.escrowBalance + session.lockedFee -
            deal.escrowBalance) + -session.lockedFee
          omega
      have hsessions : s₁.retrievalSessions = s.retrievalSessions := by rw [hevidence]
      refine ⟨fun hd => hfirst.escrow hd, fun {id' session'} hid => ?_, ?_⟩
      · have hid : (s₁.retrievalSessions.set id (canceledSession ctx session)).get id' =
            some session' := hid
        rcases KVStore.get_set_some hid with ⟨-, rfl⟩ | ⟨-, hid⟩
        · show 0 ≤ if 0 < session.lockedFee then 0 else session.lockedFee
          rw [if_pos hpos]
        · exact hfirst.locked hid
      -- the second write takes the fee from the session
      · have hbalance := hfirst.balance
        rw [owed] at hbalance
        have hbalance : env.bank.moduleBalance s₁.bank = (s.deals.set session.dealId.toNat
            { deal with escrowBalance := deal.escrowBalance + session.lockedFee }).sumOf
              (·.escrowBalance) + s₁.retrievalSessions.sumOf (·.lockedFee) +
                (stranded + -session.lockedFee) := hbalance
        show env.bank.moduleBalance s₁.bank = (s.deals.set session.dealId.toNat
            { deal with escrowBalance := deal.escrowBalance + session.lockedFee }).sumOf
              (·.escrowBalance) + (s₁.retrievalSessions.set id
                (canceledSession ctx session)).sumOf (·.lockedFee) + stranded
        have hlocked : (s₁.retrievalSessions.set id (canceledSession ctx session)).sumOf
            (·.lockedFee) = s₁.retrievalSessions.sumOf (·.lockedFee) - session.lockedFee := by
          rw [KVStore.sumOf_set, hsessions, hold]
          show _ + (if 0 < session.lockedFee then 0 else session.lockedFee) = _
          rw [if_pos hpos]
          omega
        rw [hlocked, hbalance]
        omega
  | @free s₁ hstatus hexp hzero hevidence =>
      rw [EvidenceOnly] at hevidence
      rw [hevidence]
      have hcanceled : (canceledSession ctx session).lockedFee = session.lockedFee := by
        show (if 0 < session.lockedFee then 0 else session.lockedFee) = _
        rw [if_neg (by omega)]
      refine h.set_session session.lockedFee hold rfl rfl (by rw [hcanceled]; omega) ?_
      rw [hcanceled]
      show env.bank.moduleBalance s.bank = _
      omega

/-- A liveness proof: a successful one strands its payment. -/
theorem proveLiveness_solvent {msg : MsgProveLiveness} {r : MsgProveLivenessResponse}
    (h : Solvent env stranded s) (hexec : (proveLiveness env ctx msg).exec s = (.ok r, s')) :
    Solvent env (stranded + if r.success then msg.proofType.payment else 0) s' := by
  obtain ⟨deal, stripe, hget, -, -, -, ⟨hfalse, hrejected⟩ | ⟨htrue, hproved⟩⟩ :=
    proveLiveness_ok hexec
  · rw [hfalse]
    have hsame : Solvent env stranded s' :=
      h.bank (by rw [hrejected.frame]) (by rw [hrejected.frame]) (by rw [hrejected.frame])
    simpa using hsame
  · rw [htrue, if_pos rfl]
    have hescrow := h.escrow hget
    refine h.set_deal deal.escrowBalance msg.proofType.payment (by rw [hget]; rfl) hproved.deals
      (by rw [hproved.frame]) ?_ ?_
    · show 0 ≤ deal.escrowBalance - msg.proofType.payment
      rcases hproved.affordable with hzero | hle <;> omega
    · rw [hproved.frame]
      show env.bank.moduleBalance s.bank = _ + (deal.escrowBalance - msg.proofType.payment -
        deal.escrowBalance) + msg.proofType.payment
      omega

/-- What an event that is no liveness proof and no saturation deducts. -/
theorem deducted_eq_nil {msg : Msg} (hprove : ∀ m, msg ≠ .proveLiveness m)
    (hsaturate : ∀ m, msg ≠ .signalSaturation m) : (Event.deliver ctx msg).deducted env s = [] := by
  cases msg with
  | proveLiveness m => exact absurd rfl (hprove m)
  | signalSaturation m => exact absurd rfl (hsaturate m)
  | _ => rfl

/-- A delivered message that succeeds keeps the account in balance. Two messages deduct coins that
stay in the account, and these are counted as stranded. -/
theorem handle_solvent {hashed : Set Bytes} {msg : Msg} {u : Unit} (hs : WellFormed env s)
    (hsound : SessionsSound env hashed s) (hinj : Set.InjOn env.keccak256 hashed)
    (hmem : HashesIn env hashed (.deliver ctx msg)) (hp : s.getParams.Valid)
    (houtside : ProvidersOutside env s) (hsigner : NoModuleSigner env s (.deliver ctx msg))
    (h : Solvent env stranded s) (hexec : (handle env ctx msg).exec s = (.ok u, s')) :
    Solvent env (stranded + ((Event.deliver ctx msg).deducted env s).sum) s' := by
  have hsigner := fun addr => hsigner ctx msg addr rfl
  -- A message that deducts nothing leaves the stranded amount.
  have hquiet : (∀ m, msg ≠ .proveLiveness m) → (∀ m, msg ≠ .signalSaturation m) →
      Solvent env stranded s' →
      Solvent env (stranded + ((Event.deliver ctx msg).deducted env s).sum) s' := by
    intro hprove hsaturate hsame
    rw [deducted_eq_nil hprove hsaturate]
    simpa using hsame
  cases msg with
  | updateParams msg =>
      obtain ⟨-, -, rfl⟩ := updateParams_ok hexec
      exact hquiet nofun nofun (h.bank rfl rfl rfl)
  | registerProvider msg =>
      obtain ⟨addr, endpoints, -, rfl⟩ := registerProvider_ok hexec
      exact hquiet nofun nofun (h.bank rfl rfl rfl)
  | createDeal msg =>
      obtain ⟨r, hexec⟩ := discard_ok.mp hexec
      obtain ⟨payer, deal, haddr, -, hcreated, hframe⟩ := createDeal_ok hexec
      exact hquiet nofun nofun
        (hcreated.solvent hs h (hsigner payer haddr) (by rw [hframe]))
  | updateDealContent msg =>
      obtain ⟨payer, deal, root, haddr, hupdated, hframe⟩ := updateDealContent_ok hexec
      exact hquiet nofun nofun (hupdated.solvent h (hsigner payer haddr) (by rw [hframe]))
  | createDealFromEvm msg =>
      obtain ⟨r, hexec⟩ := discard_ok.mp hexec
      obtain ⟨intent, evmAddr, deal, hintent, hauth, -, hcreated, -, hframe⟩ :=
        createDealFromEvm_ok hexec
      exact hquiet nofun nofun
        (hcreated.solvent hs h (hsigner evmAddr ⟨intent, hintent, hauth.recovers⟩) (by rw [hframe]))
  | updateDealContentFromEvm msg =>
      obtain ⟨intent, evmAddr, deal, root, hintent, hauth, -, hupdated, hframe⟩ :=
        updateDealContentFromEvm_ok hexec
      exact hquiet nofun nofun
        (hupdated.solvent h (hsigner evmAddr ⟨intent, hintent, hauth.recovers⟩) (by rw [hframe]))
  | openRetrievalSession msg =>
      obtain ⟨id, hexec⟩ := discard_ok.mp hexec
      obtain ⟨plan, hopened⟩ := openRetrievalSession_ok hexec
      exact hquiet nofun nofun
        (hopened.solvent hp h (hsound.fresh hs hinj (hmem msg List.mem_cons_self) hopened))
  | confirmRetrievalSession msg =>
      obtain ⟨session, hget, -, -, hmoved⟩ := confirmRetrievalSession_ok hexec
      exact hquiet nofun nofun
        (hmoved.solvent hp h hget (houtside _ (hsound _ _ hget).registered))
  | cancelRetrievalSession msg =>
      obtain ⟨session, hget, -, hmoved⟩ := cancelRetrievalSession_ok hexec
      exact hquiet nofun nofun (hmoved.solvent h hget)
  | submitRetrievalSessionProof msg =>
      obtain ⟨session, hget, -, -, -, hmoved⟩ := submitRetrievalSessionProof_ok hexec
      exact hquiet nofun nofun
        (hmoved.solvent hp h hget (houtside _ (hsound _ _ hget).registered))
  -- a proof that pays, and a signal, take coins out of the books
  | proveLiveness msg =>
      obtain ⟨r, hexec⟩ := discard_ok.mp hexec
      have hstep := proveLiveness_solvent h hexec
      have hdeducted : ((Event.deliver ctx (.proveLiveness msg)).deducted env s).sum =
          if r.success then msg.proofType.payment else 0 := by
        rw [Event.deducted, hexec]
        show List.sum (if r.success then [msg.proofType.payment] else []) = _
        split <;> simp
      rw [hdeducted]
      exact hstep
  | signalSaturation msg =>
      obtain ⟨r, hexec⟩ := discard_ok.mp hexec
      have hdeducted : ((Event.deliver ctx (.signalSaturation msg)).deducted env s).sum =
          elasticityCost s.getParams := by
        rw [Event.deducted, hexec]
        exact Int.add_zero _
      obtain ⟨deal, hget, hadmitted, -, rfl⟩ := signalSaturation_ok hexec
      have hcost := hadmitted.escrow
      rw [hdeducted]
      -- the cost leaves the escrow and stays in the account
      refine h.set_deal deal.escrowBalance _ ?_ rfl rfl ?_ ?_
      · rw [hs.deal_id hget, hget]
        rfl
      · show 0 ≤ deal.escrowBalance - elasticityCost s.getParams
        omega
      · show env.bank.moduleBalance s.bank = _ + (deal.escrowBalance - elasticityCost s.getParams -
          deal.escrowBalance) + elasticityCost s.getParams
        omega
  | startSlotRepair msg =>
      obtain ⟨deal, slot, pending, hget, -, -, -, -, -, -, -, rfl⟩ := startSlotRepair_ok hexec
      have hget := (hs.deal_id hget).symm ▸ hget
      exact hquiet nofun nofun (h.keep_escrow hget rfl rfl rfl rfl)
  | completeSlotRepair msg =>
      obtain ⟨deal, slot, hpending, rfl⟩ := completeSlotRepair_ok hexec
      have hget := (hs.deal_id hpending.get).symm ▸ hpending.get
      exact hquiet nofun nofun (h.keep_escrow hget rfl rfl rfl rfl)
  | addCredit msg =>
      obtain ⟨r, hexec⟩ := discard_ok.mp hexec
      obtain ⟨payer, deal, amount, b, haddr, hget, -, hpos, hsend, -, rfl⟩ := addCredit_ok hexec
      have hin := moduleBalance_deposit (hsigner payer haddr) hsend
      have hescrow := h.escrow hget
      -- the deposit goes into the escrow
      have hstep : Solvent env (stranded + 0) { s with
          bank := b
          deals := s.deals.set msg.dealId.toNat
            { deal with escrowBalance := deal.escrowBalance + amount } } := by
        refine h.set_deal deal.escrowBalance 0 (by rw [hget]; rfl) rfl rfl ?_ ?_
        · show 0 ≤ deal.escrowBalance + amount
          omega
        · show env.bank.moduleBalance b = _ + (deal.escrowBalance + amount - deal.escrowBalance) + 0
          omega
      exact hquiet nofun nofun (by simpa using hstep)
  | withdrawRewards msg =>
      obtain ⟨r, hexec⟩ := discard_ok.mp hexec
      obtain ⟨addr, b₁, b₂, haddr, -, -, hmint, hsend, rfl⟩ := withdrawRewards_ok hexec
      -- What is minted is paid out.
      have hin := moduleBalance_mint hmint
      have hout := moduleBalance_payout (hsigner addr haddr) hsend
      refine hquiet nofun nofun (h.bank rfl rfl ?_)
      show env.bank.moduleBalance b₂ = _
      omega

end Handlers

/-! ### Every event, and every run -/

section Run

variable {env : Env β} {s : KeeperState β} {past : List Event} {e : Event} {stranded : Int}

/-- No deduction is negative. -/
theorem mem_deducted_nonneg {x : Int} (h : x ∈ e.deducted env s) : 0 ≤ x := by
  cases e with
  | deliver ctx msg =>
      cases msg with
      | proveLiveness msg =>
          rw [Event.deducted] at h
          split at h
          · split at h
            · rw [List.mem_singleton.mp h]
              exact payment_nonneg _
            · cases h
          · cases h
      | signalSaturation msg =>
          rw [Event.deducted] at h
          split at h
          · rw [List.mem_singleton.mp h, elasticityCost, setUint64, setUint64]
            exact Int.mul_nonneg (Int.natCast_nonneg _) (Int.natCast_nonneg _)
          · cases h
      | _ => cases h
  | endBlock ctx => cases h
  | call ctx input => cases h

/-- A dropped message deducts nothing. Its deductions are read off its result, and there is none. -/
theorem deducted_of_error {ctx : Ctx} {msg : Msg} {fault : Fault} {s' : KeeperState β}
    (h : (handle env ctx msg).exec s = (.error fault, s')) :
    (Event.deliver ctx msg).deducted env s = [] := by
  -- the two messages that deduct something
  cases msg with
  | proveLiveness msg =>
      rw [Event.deducted]
      split
      · rename_i r s₁ hexec
        have hok : (handle env ctx (.proveLiveness msg)).exec s = (.ok (), s₁) :=
          discard_ok.mpr ⟨r, hexec⟩
        rw [h] at hok
        cases hok
      · rfl
  | signalSaturation msg =>
      rw [Event.deducted]
      split
      · rename_i r s₁ hexec
        have hok : (handle env ctx (.signalSaturation msg)).exec s = (.ok (), s₁) :=
          discard_ok.mpr ⟨r, hexec⟩
        rw [h] at hok
        cases hok
      · rfl
  | _ => rfl

/-- A new provider has signed its registration, so none is the module account. -/
theorem apply_providersOutside (hs : WellFormed env s) (h : ProvidersOutside env s)
    (hsigner : NoModuleSigner env s e) : ProvidersOutside env (apply env s e) := by
  intro k hk
  obtain ⟨p', hget⟩ := Option.isSome_iff_exists.mp hk
  rcases (apply_moved hs e).providers.found hget
    with ⟨p, hold, -⟩ | ⟨-, ctx, msg, addr, rfl, haddr, rfl⟩
  · exact h k (by rw [KeeperState.registered, hold]; rfl)
  · rw [env.codec.roundTrip haddr]
    exact fun heq => hsigner ctx _ addr rfl haddr (Option.some.inj heq)

/-- A message, successful or dropped, or the end of a block keeps the account in balance. Calls of
the precompile are left out, as their failures are not rolled back. -/
theorem apply_solvent {hashed : Set Bytes} (hs : WellFormed env s)
    (hsound : SessionsSound env hashed s) (hinj : Set.InjOn env.keccak256 hashed)
    (hmem : HashesIn env hashed e) (he : e.isMessage) (hp : s.getParams.Valid)
    (houtside : ProvidersOutside env s)
    (hsigner : NoModuleSigner env s e) (hstranded : 0 ≤ stranded) (h : Solvent env stranded s) :
    Solvent env (stranded + (e.deducted env s).sum) (apply env s e) := by
  cases e with
  | deliver ctx msg =>
      cases hexec : (handle env ctx msg).exec s with
      | mk res s' =>
          cases res with
          | ok u =>
              have happly : apply env s (.deliver ctx msg) = s' := Tx.commitOrRollback_of_ok hexec
              rw [happly]
              exact handle_solvent hs hsound hinj hmem hp houtside hsigner h hexec
          | error fault =>
              have happly : apply env s (.deliver ctx msg) = s := Tx.commitOrRollback_of_error hexec
              rw [happly, deducted_of_error hexec]
              simpa using h
  | endBlock ctx =>
      have hframe := (checkMissedProofs_spec env ctx s).frame
      have hbalance := h.balance
      have howed := h.owed_nonneg
      -- Each slash burns what it brought in.
      have hbank : env.bank.moduleBalance (checkMissedProofs env ctx s).1.bank =
          env.bank.moduleBalance s.bank := by
        refine checkMissedProofs_bank
          (P := fun b => env.bank.moduleBalance b = env.bank.moduleBalance s.bank)
          (fun d deal provider addr b hget hmem haddr hb => ?_) rfl
        rw [moduleBalance_attemptSlash ?_ (by omega), hb]
        rintro rfl
        exact houtside provider (hs.listed hget provider hmem) haddr
      -- nothing else of the books is written
      have hsame : Solvent env stranded (apply env s (.endBlock ctx)) := by
        refine h.bank ?_ ?_ hbank
        · rw [apply, hframe]
        · rw [apply, hframe]
      simpa [Event.deducted] using hsame
  | call ctx input => exact he.elim

end Run

/-- What the events of a run deducted from escrows, in total. -/
def strandedBy (env : Env β) (s : KeeperState β) (es : List Event) : Int :=
  (trace (apply env) (fun s e => e.deducted env s) s es).sum

section Run

variable {env : Env β} {params : Params} {b : β} {es : List Event}

/-- What is stranded is not negative. -/
theorem strandedBy_nonneg (env : Env β) (s : KeeperState β) (es : List Event) :
    0 ≤ strandedBy env s es := by
  refine List.sum_nonneg fun x hx => ?_
  induction es generalizing s with
  | nil => cases hx
  | cons e es ih =>
      rcases List.mem_append.mp hx with hx | hx
      · exact mem_deducted_nonneg hx
      · exact ih _ hx

/-- The run is one of messages and ends of blocks, without a collision among its session
identities, and nobody signs for the module account in it. -/
def Guarded (env : Env β) (s₀ : KeeperState β) (past : List Event) (e : Event) : Prop :=
  MessagesOnly env past e ∧ NoModuleSigner env (run (apply env) s₀ past) e

/-- The run lemma: no provider is registered at the module's address. -/
theorem run_providersOutside (hes : Along (Guarded env (genesis params b)) es) :
    ProvidersOutside env (run (apply env) (genesis params b) es) := by
  refine run_history (Guarded env (genesis params b))
    (fun _ (s : KeeperState β) => ProvidersOutside env s) ?_ (fun past e h hok => ?_) hes
  · intro k hk
    cases hk
  · exact apply_providersOutside (run_wellFormed env params b past) h hok.2

/-- The run lemma of solvency. -/
theorem run_solvent (hparams : params.validate = .ok ()) (hempty : env.bank.moduleBalance b = 0)
    (hmessages : ∀ e ∈ es, e.isMessage) (hes : Along (Guarded env (genesis params b)) es) :
    Solvent env (strandedBy env (genesis params b) es) (run (apply env) (genesis params b) es) := by
  induction es using List.reverseRecOn with
  | nil =>
      refine ⟨nofun, nofun, ?_⟩
      show env.bank.moduleBalance b = 0 + 0 + 0
      rw [hempty]
      rfl
  | append_singleton past e ih =>
      have hpast : ∀ e ∈ past, e.isMessage := fun e he => hmessages e (List.mem_append_left _ he)
      have ih := ih hpast hes.left
      have hsound := (run_sessionsSound env params b (hes.left.mono fun _ _ h => h.1)).mono
        (sessionPreimages_mono (List.subset_append_left past [e]))
      have hp := (run_params env hparams b hpast)
      rw [run_snoc, strandedBy, trace_snoc, List.sum_append]
      exact apply_solvent (run_wellFormed env params b past) hsound hes.last.1.2
        (hashesIn_snoc hes.last.1.1) hes.last.1.1
        (Params.validate_ok hp) (run_providersOutside hes.left) hes.last.2
        (strandedBy_nonneg env _ past) ih

end Run

/-- Module solvency. In every run of messages and ends of blocks from a genesis with valid params
and an empty module account, every escrow and every locked fee is non-negative, and the module
account holds their sum and the total that was deducted without a transfer. So it covers what it
owes: it has the base fee of any deal that can pay it, and both parts of any locked fee, one after
the other. -/
theorem module_solvency (env : Env β) (params : Params) (b : β) (es : List Event)
    (hparams : params.validate = .ok ()) (hempty : env.bank.moduleBalance b = 0)
    (hmessages : ∀ e ∈ es, e.isMessage)
    (hsigners : Along (fun past e =>
      NoModuleSigner env (run (apply env) (genesis params b) past) e) es)
    (hcollision : NoSessionCollision env es) :
    let s := run (apply env) (genesis params b) es
    (∀ d deal, s.deals.get d = some deal → 0 ≤ deal.escrowBalance) ∧
    (∀ id session, s.retrievalSessions.get id = some session → 0 ≤ session.lockedFee) ∧
    env.bank.moduleBalance s.bank = s.deals.sumOf (·.escrowBalance) +
      s.retrievalSessions.sumOf (·.lockedFee) + strandedBy env (genesis params b) es ∧
    s.deals.sumOf (·.escrowBalance) + s.retrievalSessions.sumOf (·.lockedFee) ≤
      env.bank.moduleBalance s.bank ∧
    (∀ d deal ctx, s.deals.get d = some deal →
      s.getParams.baseRetrievalFee.amount ≤ deal.escrowBalance →
      (env.bank.burnCoins ctx s.bank moduleName s.getParams.baseRetrievalFee).isSome) ∧
    (∀ id session ctx, s.retrievalSessions.get id = some session →
      session.lockedFee ≤ env.bank.moduleBalance s.bank ∧
      (env.bank.burnCoins ctx s.bank moduleName
        (bondCoin (settleBurn s.getParams session.lockedFee))).isSome ∧
      ∀ b', env.bank.burnCoins ctx s.bank moduleName
          (bondCoin (settleBurn s.getParams session.lockedFee)) = some b' →
        session.lockedFee - settleBurn s.getParams session.lockedFee ≤
          env.bank.moduleBalance b') := by
  intro s
  have hes : Along (Guarded env (genesis params b)) es :=
    (messagesOnly_along hmessages hcollision).and hsigners
  have hsolvent : Solvent env (strandedBy env (genesis params b) es) s :=
    run_solvent hparams hempty hmessages hes
  have hp : s.getParams.Valid := Params.validate_ok (run_params env hparams b hmessages)
  have hstranded := strandedBy_nonneg env (genesis params b) es
  have hbalance := hsolvent.balance
  rw [owed] at hbalance
  -- One escrow or fee is at most the sum of its kind.
  have hescrows := KVStore.sumOf_nonneg (f := fun deal : Deal => deal.escrowBalance)
    fun _ _ hget => hsolvent.escrow hget
  have hlockeds := KVStore.sumOf_nonneg (f := fun session : RetrievalSession => session.lockedFee)
    fun _ _ hget => hsolvent.locked hget
  refine ⟨fun d deal hget => hsolvent.escrow hget, fun id session hget => hsolvent.locked hget,
    hbalance, by omega, fun d deal ctx hget hle => ?_, fun id session ctx hget => ?_⟩
  -- the base fee is at most one escrow
  · have hone := KVStore.le_sumOf (f := fun deal : Deal => deal.escrowBalance)
      (fun _ _ hget => hsolvent.escrow hget) hget
    rw [hp.baseFee]
    refine env.bank.burn_isSome ctx s.bank _ hp.baseFee_nonneg ?_
    show s.getParams.baseRetrievalFee.amount ≤ env.bank.moduleBalance s.bank
    omega
  -- a locked fee is at most the sum of them, and its burn at most the fee
  · have hone := KVStore.le_sumOf (f := fun session : RetrievalSession => session.lockedFee)
      (fun _ _ hget => hsolvent.locked hget) hget
    have hbounds := settleBurn_bounds hp (hsolvent.locked hget)
    refine ⟨by omega, env.bank.burn_isSome ctx s.bank _ hbounds.1 ?_, fun b' hburn => ?_⟩
    · show settleBurn s.getParams session.lockedFee ≤ env.bank.moduleBalance s.bank
      omega
    · rw [moduleBalance_burn hburn]
      omega

/-! ### On a small chain -/

/-- Nobody on the small chain has the address of the module account. So every run on it meets the
condition on signers. -/
theorem sampleEnv_noModuleSigner (keccak : HashTable) (s : KeeperState Ledger) (e : Event) :
    NoModuleSigner (sampleEnv keccak []) s e := by
  intro ctx msg addr he hsigner
  -- no text of the book stands for it
  have hbook : ∀ text, sampleBook.address text = some addr →
      addr ≠ (sampleEnv keccak []).moduleAddr := by
    intro text htext
    obtain ⟨entry, hfind, rfl⟩ := Option.map_eq_some_iff.mp htext
    have hall : ∀ entry ∈ sampleBook.entries, entry.2 ≠ moduleAddressOf moduleName := by decide
    exact hall entry (List.mem_of_find?_eq_some hfind)
  -- and no signature recovers to it, as none recovers at all
  have hnone : ∀ digest sig,
      recoverEvmAddressFromDigest (sampleEnv keccak []) digest sig ≠ some addr := by
    intro digest sig hrecover
    rw [recoverEvmAddressFromDigest] at hrecover
    split at hrecover <;> cases hrecover
  cases msg with
  | registerProvider msg => exact hbook _ hsigner
  | createDeal msg => exact hbook _ hsigner
  | updateDealContent msg => exact hbook _ hsigner
  | addCredit msg => exact hbook _ hsigner
  | withdrawRewards msg => exact hbook _ hsigner
  | createDealFromEvm msg => exact absurd hsigner.choose_spec.2 (hnone _ _)
  | updateDealContentFromEvm msg => exact absurd hsigner.choose_spec.2 (hnone _ _)
  | _ => exact hsigner.elim

/-- A run with one session identity has no collision. -/
theorem noSessionCollision_of_one {env : Env β} {es : List Event} {m : MsgOpenRetrievalSession}
    (h : ∀ ctx msg, Event.deliver ctx (.openRetrievalSession msg) ∈ es → msg = m) :
    NoSessionCollision env es := by
  rintro b ⟨ctx, msg, hmem, hb⟩ b' ⟨ctx', msg', hmem', hb'⟩ -
  rw [h ctx msg hmem] at hb
  rw [h ctx' msg' hmem'] at hb'
  exact Option.some.inj (hb.symm.trans hb')

/-- The sample run has no two openings with one id. -/
theorem openRun_collision (env : Env β) : NoSessionCollision env openRun := by
  refine noSessionCollision_of_one (m := openMsg) fun ctx msg hmem => ?_
  simp only [openRun, List.mem_cons, Event.deliver.injEq, reduceCtorEq, List.not_mem_nil, or_false,
    false_or, registerMsg, createMsg, commitMsg, and_false, Msg.openRetrievalSession.injEq] at hmem
  exact hmem.2

/-- The sample run is one of messages. -/
theorem openRun_messages : ∀ e ∈ openRun, e.isMessage := by
  intro e he
  simp only [openRun, List.mem_cons, List.not_mem_nil, or_false] at he
  rcases he with rfl | rfl | rfl | rfl | rfl <;> trivial

/-- A thousand come in with a deal, and one goes with the base fee of a session. -/
theorem module_solvency_openRun :
    (sampleEnv openKeccak []).bank.moduleBalance
        (run (apply (sampleEnv openKeccak [])) (genesis defaultParams sampleBank) openRun).bank =
      (run (apply (sampleEnv openKeccak [])) (genesis defaultParams sampleBank)
          openRun).deals.sumOf (·.escrowBalance) +
        (run (apply (sampleEnv openKeccak [])) (genesis defaultParams sampleBank)
          openRun).retrievalSessions.sumOf (·.lockedFee) +
        strandedBy (sampleEnv openKeccak []) (genesis defaultParams sampleBank) openRun ∧
    (sampleEnv openKeccak []).bank.moduleBalance
        (run (apply (sampleEnv openKeccak [])) (genesis defaultParams sampleBank) openRun).bank =
      999 :=
  ⟨(module_solvency (sampleEnv openKeccak []) defaultParams sampleBank openRun (by decide +kernel)
    (by decide +kernel) openRun_messages (fun _ e _ _ => sampleEnv_noModuleSigner _ _ e)
    (openRun_collision _)).2.2.1, by decide +kernel⟩

end NilStore.Chain
