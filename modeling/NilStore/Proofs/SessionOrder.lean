import NilStore.Proofs.SessionFailures
import NilStore.Proofs.SessionLedger
import NilStore.Proofs.SessionRange

/-!
# `NilStore.Proofs.SessionOrder`: the order of session messages within a block

In a block whose settlements are funded, a delivered message does to the state what the machine of
`NilStore.Proofs.SessionLedger` does to the books (`deliver_simulates`), and it leaves the block
funded (`Funded.step`). The order of the messages does not matter to the machine, so it does not
matter to the state (`session_messages_commute`).

Without funding it does: a confirmation that completes a session fails when the fee cannot be paid,
one that comes first succeeds (`unfunded_order_matters`).
-/

set_option autoImplicit false

namespace NilStore.Chain

open NilStore.Lib

variable {β : Type}

/-! ### Funding -/

/-- What a settlement at this height would pay out of a session. -/
def dueFee (ctx : Ctx) (session : RetrievalSession) : Int :=
  if isSessionExpired ctx session = false ∧ session.status ≠ .completed ∧ 0 < session.lockedFee then
    session.lockedFee
  else 0

/-- What is due for the session with an id, nothing where there is none. -/
def dueAt (ctx : Ctx) (sessions : KVStore Bytes RetrievalSession) (id : Bytes) : Int :=
  ((sessions.get id).map (dueFee ctx)).getD 0

/-- The bank pays the address what the module has. -/
def CanReceive (env : Env β) (ctx : Ctx) (addr : Bytes) : Prop :=
  ∀ b amount, 0 < amount → amount ≤ env.bank.moduleBalance b →
    (env.bank.sendCoinsFromModuleToAccount ctx b moduleName addr (bondCoin amount)).isSome

/-- The provider of a session that may be settled can be paid its part. -/
def Payable (env : Env β) (ctx : Ctx) (params : Params) (session : RetrievalSession) : Prop :=
  0 < dueFee ctx session → 0 < session.lockedFee - settleBurn params session.lockedFee →
    ∃ addr, env.codec.accAddressFromBech32 session.provider = some addr ∧ CanReceive env ctx addr

/-- The part of the state that session messages are about. -/
def books (env : Env β) (s : KeeperState β) :
    LedgerMachine.State Bytes RetrievalSession Accounts where
  cells := s.retrievalSessions
  ledger := ⟨s.deals, s.dealHeatStates, s.dealProviderFailures, s.proofCount,
    env.bank.balance s.bank⟩

/-- The cells of the books are the sessions. -/
@[simp] theorem books_cells (env : Env β) (s : KeeperState β) :
    (books env s).cells = s.retrievalSessions := rfl

/-- The module account covers what settlements of these sessions would pay, and their providers
can be paid. -/
structure Funded (env : Env β) (ctx : Ctx) (params : Params) (ids : Finset Bytes)
    (books : LedgerMachine.State Bytes RetrievalSession Accounts) : Prop where
  covered : ∑ id ∈ ids, dueAt ctx books.cells id ≤ books.ledger.balance env.moduleAddr bondDenom
  payable : ∀ id ∈ ids, ∀ session, books.cells.get id = some session →
    Payable env ctx params session

/-- What is due is not negative. -/
theorem dueFee_nonneg (ctx : Ctx) (session : RetrievalSession) : 0 ≤ dueFee ctx session := by
  rw [dueFee]
  split
  · rename_i h
    exact h.2.2.le
  · exact le_rfl

/-- What is due for an id is not negative. -/
theorem dueAt_nonneg (ctx : Ctx) (sessions : KVStore Bytes RetrievalSession) (id : Bytes) :
    0 ≤ dueAt ctx sessions id := by
  rw [dueAt]
  cases sessions.get id with
  | none => exact le_rfl
  | some session => exact dueFee_nonneg ctx session

/-- One write moves the total of what is due. -/
theorem sum_dueAt_set {ctx : Ctx} {ids : Finset Bytes} {id : Bytes} (hid : id ∈ ids)
    {sessions : KVStore Bytes RetrievalSession} {session : RetrievalSession}
    (hget : sessions.get id = some session) (session' : RetrievalSession) :
    ∑ i ∈ ids, dueAt ctx (sessions.set id session') i =
      ∑ i ∈ ids, dueAt ctx sessions i - dueFee ctx session + dueFee ctx session' := by
  have hself : dueAt ctx sessions id = dueFee ctx session := by
    rw [dueAt, hget]
    rfl
  have hself' : dueAt ctx (sessions.set id session') id = dueFee ctx session' := by
    rw [dueAt, KVStore.get_set_self]
    rfl
  have hrest : ∑ i ∈ ids.erase id, dueAt ctx (sessions.set id session') i =
      ∑ i ∈ ids.erase id, dueAt ctx sessions i := by
    refine Finset.sum_congr rfl ?_
    intro i hi
    rw [dueAt, dueAt, KVStore.get_set_ne _ (Finset.ne_of_mem_erase hi)]
  rw [← Finset.add_sum_erase ids _ hid, ← Finset.add_sum_erase ids (dueAt ctx sessions) hid, hself,
    hself', hrest]
  omega

/-- The burn is not negative. -/
theorem settleBurn_nonneg {params : Params} {fee : Int} (hfee : 0 < fee) :
    0 ≤ settleBurn params fee := by
  rw [settleBurn]
  split
  · refine le_min (Int.ediv_nonneg ?_ (by omega)) hfee.le
    have : 0 ≤ fee * setUint64 params.retrievalBurnBps :=
      mul_nonneg hfee.le (Int.natCast_nonneg _)
    omega
  · exact le_rfl

/-! ### The machine keeps a block funded -/

section Machine

variable {env : Env β} {ctx : Ctx} {params : Params}

/-- A payout takes at most the burned and the paid amount out of the module account. -/
theorem le_paidOut (addr : Bytes) (payee : Option Bytes) {burn cut : Int} (hcut : 0 ≤ cut)
    (balance : Bytes → Str → Int) :
    balance addr bondDenom - burn - cut ≤ paidOut addr payee burn cut balance addr bondDenom := by
  have hdebit : ∀ amount : Int, debit addr (bondCoin amount) addr bondDenom = amount :=
    fun amount => if_pos ⟨rfl, rfl⟩
  rw [paidOut, hdebit, hdebit]
  cases payee with
  | none =>
      show _ ≤ _ + 0
      omega
  | some payee =>
      have hcredit : 0 ≤ debit payee (bondCoin cut) addr bondDenom := by
        rw [debit]
        split
        · exact hcut
        · exact le_rfl
      show _ ≤ _ + debit payee (bondCoin cut) addr bondDenom
      omega

/-- What a move costs the module account, the fee of the session was due for, and a session that
could be settled still can. -/
structure Affordable (env : Env β) (ctx : Ctx) (params : Params) (accounts : Accounts)
    (session : RetrievalSession) (r : RetrievalSession × List AccountEntry) : Prop where
  covered : dueFee ctx r.1 + accounts.balance env.moduleAddr bondDenom ≤
    dueFee ctx session +
      ((sessionMachine env ctx params).postAll accounts r.2).balance env.moduleAddr bondDenom
  payable : Payable env ctx params session → Payable env ctx params r.1

/-- Doing nothing can be afforded. -/
theorem affordable_inert (accounts : Accounts) (session : RetrievalSession) :
    Affordable env ctx params accounts session (session, []) := ⟨le_rfl, id⟩

/-- A session that nothing is due for after a move that leaves the balances. -/
theorem Affordable.of_free {accounts : Accounts} {session : RetrievalSession}
    {r : RetrievalSession × List AccountEntry} (hdue : dueFee ctx r.1 = 0)
    (hbalance : accounts.balance env.moduleAddr bondDenom ≤ dueFee ctx session +
      ((sessionMachine env ctx params).postAll accounts r.2).balance env.moduleAddr bondDenom) :
    Affordable env ctx params accounts session r where
  covered := by omega
  payable := by
    intro _ hpos
    omega

/-- A settlement takes at most the fee out of the module account. It is burnt in part and the rest
is paid to the provider, who may have no account. -/
theorem le_balance_settlement (accounts : Accounts) (session : RetrievalSession) (d : Nat)
    (bytes : UInt64) :
    accounts.balance env.moduleAddr bondDenom ≤
      (if 0 < session.lockedFee then session.lockedFee else 0) +
        ((sessionMachine env ctx params).postAll accounts
          (settlement env params session ++ [.served d bytes])).balance env.moduleAddr
            bondDenom := by
  rw [settlement]
  split
  · rename_i hfee
    have hle : settleBurn params session.lockedFee ≤ session.lockedFee := settleBurn_le hfee
    -- what is left after the burn is not negative
    have hcut : 0 ≤ session.lockedFee - settleBurn params session.lockedFee := by omega
    have hpaid : accounts.balance env.moduleAddr bondDenom - settleBurn params session.lockedFee -
        (session.lockedFee - settleBurn params session.lockedFee) ≤
          paidOut env.moduleAddr (env.codec.accAddressFromBech32 session.provider) _ _
            accounts.balance env.moduleAddr bondDenom :=
      le_paidOut _ _ hcut _
    show accounts.balance env.moduleAddr bondDenom ≤
      session.lockedFee + paidOut _ _ _ _ accounts.balance env.moduleAddr bondDenom
    omega
  · show accounts.balance env.moduleAddr bondDenom ≤
      0 + accounts.balance env.moduleAddr bondDenom
    omega

/-- Advancing a session can be afforded from the fee locked in it. A session that stays open owes
the fee as before. -/
theorem affordable_advance (next : RetrievalSessionStatus → RetrievalSessionStatus)
    (accounts : Accounts) {session : RetrievalSession}
    (hexp : isSessionExpired ctx session = false) :
    Affordable env ctx params accounts session (advance env ctx params next session) := by
  rw [advance]
  split
  · exact affordable_inert accounts session
  · rename_i hopen
    split
    · -- The session is complete, so nothing is due for it any more.
      refine .of_free (if_neg fun h => h.2.1 rfl) ?_
      have hdue : dueFee ctx session = if 0 < session.lockedFee then session.lockedFee else 0 := by
        simp only [dueFee, hexp, hopen, ne_eq, not_false_eq_true, true_and]
      rw [hdue]
      exact le_balance_settlement ..
    · rename_i hnext
      -- what is due does not depend on the status
      have hdue : dueFee ctx { session with
          status := next session.status, updatedHeight := ctx.blockHeight } =
            dueFee ctx session := by
        have hexp' : isSessionExpired ctx { session with
          status := next session.status, updatedHeight := ctx.blockHeight } = false := hexp
        simp only [dueFee, hexp, hexp', hopen, hnext, ne_eq, not_false_eq_true, true_and]
      refine ⟨by rw [hdue]; exact le_rfl, ?_⟩
      intro hpay hpos hcut
      rw [hdue] at hpos
      exact hpay hpos hcut

/-- Withdrawing a fee can be afforded from the fee locked in it. -/
theorem affordable_withdrawFee (deals : KVStore Nat Deal) (accounts : Accounts)
    {session : RetrievalSession} (hexp : isSessionExpired ctx session = true) :
    Affordable env ctx params accounts session (withdrawFee ctx deals session) := by
  rw [withdrawFee]
  split
  · exact affordable_inert accounts session
  · have hexp' : isSessionExpired ctx (canceledSession ctx session) = true := hexp
    refine .of_free (if_neg fun h => ?_) ?_
    · rw [hexp'] at h
      cases h.1
    · have hbalance : ((sessionMachine env ctx params).postAll accounts
          (cancellation session)).balance = accounts.balance := by
        rw [cancellation]
        split <;> split <;> rfl
      have := dueFee_nonneg ctx session
      rw [hbalance]
      omega

/-- Every message can be afforded from the fee locked in its session. -/
theorem SessionMsg.affordable (m : SessionMsg) (accounts : Accounts) (session : RetrievalSession) :
    Affordable env ctx params accounts session (m.act env ctx params accounts session) := by
  rw [act]
  split
  · rename_i hauth
    have hexp := hauth.expiry
    cases m with
    | confirm msg => exact affordable_advance _ accounts hexp
    | submit msg => exact affordable_advance _ accounts hexp
    | cancel msg => exact affordable_withdrawFee _ accounts hexp
  · exact affordable_inert accounts session

/-- A message of the block keeps it funded. What it pays out was due for its own session, so the
others stay covered. -/
theorem Funded.step {ids : Finset Bytes}
    {books : LedgerMachine.State Bytes RetrievalSession Accounts} {m : SessionMsg}
    (h : Funded env ctx params ids books) (hm : m.sessionId ∈ ids) :
    Funded env ctx params ids ((sessionMachine env ctx params).step books m) := by
  cases hget : books.cells.get m.sessionId with
  | none =>
      rw [LedgerMachine.step_none _ hget]
      exact h
  | some session =>
      have haffordable : Affordable env ctx params books.ledger session
          (m.act env ctx params books.ledger session) := m.affordable books.ledger session
      obtain ⟨hcovered, hpayable⟩ := haffordable
      rw [LedgerMachine.step_some _ hget]
      refine ⟨?_, ?_⟩
      -- the sum changes at this session alone
      · have hold := h.covered
        show ∑ id ∈ ids, dueAt ctx (books.cells.set m.sessionId
          (m.act env ctx params books.ledger session).1) id ≤ _
        rw [sum_dueAt_set hm hget]
        show _ ≤ ((sessionMachine env ctx params).postAll books.ledger
          (m.act env ctx params books.ledger session).2).balance env.moduleAddr bondDenom
        omega
      · intro id hid session' hget'
        -- it can be paid out, and so could the others
        rcases KVStore.get_set_some hget' with ⟨rfl, rfl⟩ | ⟨-, hold⟩
        · exact hpayable (h.payable _ hid _ hget)
        · exact h.payable id hid session' hold

end Machine

/-! ### The handlers do what the machine does -/

/-- Nothing but the books, the records of evidence and the bank has changed. -/
def SameRest (s s' : KeeperState β) : Prop :=
  s' = { s with
    proofCount := s'.proofCount
    proofs := s'.proofs
    deals := s'.deals
    dealProviderFailures := s'.dealProviderFailures
    dealHeatStates := s'.dealHeatStates
    retrievalSessions := s'.retrievalSessions
    bank := s'.bank }

/-- Every state agrees with itself in the rest. -/
theorem SameRest.refl (s : KeeperState β) : SameRest s s := rfl

/-- Agreeing in the rest is transitive. -/
theorem SameRest.trans {s₁ s₂ s₃ : KeeperState β} (h : SameRest s₁ s₂) (h' : SameRest s₂ s₃) :
    SameRest s₁ s₃ := by
  rw [SameRest] at h h' ⊢
  rw [h', h]

/-- The books after a message are those of the machine, and the rest is as before. -/
structure Simulates (env : Env β) (ctx : Ctx) (m : SessionMsg) (s s' : KeeperState β) : Prop where
  books_eq : books env s' = (sessionMachine env ctx s.getParams).step (books env s) m
  rest : SameRest s s'

section Handlers

variable {env : Env β} {ctx : Ctx} {s s' : KeeperState β}

/-- The step of the machine, for a session that is there. -/
theorem Simulates.of_act {m : SessionMsg} {session : RetrievalSession}
    {r : RetrievalSession × List AccountEntry}
    (hget : s.retrievalSessions.get m.sessionId = some session)
    (hact : m.act env ctx s.getParams (books env s).ledger session = r)
    (hbooks : books env s' = ⟨s.retrievalSessions.set m.sessionId r.1,
      (sessionMachine env ctx s.getParams).postAll (books env s).ledger r.2⟩)
    (hrest : SameRest s s') : Simulates env ctx m s s' := by
  refine ⟨?_, hrest⟩
  subst hact
  rw [hbooks]
  exact ((sessionMachine env ctx s.getParams).step_some (s := books env s) hget).symm

/-- A message that leaves its session. -/
theorem Simulates.of_act_self {m : SessionMsg} {session : RetrievalSession}
    (hget : s.retrievalSessions.get m.sessionId = some session)
    (hact : m.act env ctx s.getParams (books env s).ledger session = (session, [])) :
    Simulates env ctx m s s := by
  refine .of_act hget hact ?_ (SameRest.refl s)
  rw [KVStore.set_get hget]
  rfl

/-- A message that is authorized for no session. -/
theorem Simulates.refused {m : SessionMsg}
    (h : ∀ session, s.retrievalSessions.get m.sessionId = some session →
      ¬m.Authorized env ctx s.deals session) : Simulates env ctx m s s := by
  cases hget : s.retrievalSessions.get m.sessionId with
  | none => exact ⟨(LedgerMachine.step_none _ hget).symm, SameRest.refl s⟩
  | some session => exact .of_act_self hget (if_neg (h session hget))

/-- A message with nothing left to do. -/
theorem Simulates.inert {m : SessionMsg} {session : RetrievalSession}
    (hget : s.retrievalSessions.get m.sessionId = some session)
    (hmove : m.move env ctx s.getParams s.deals session = (session, [])) :
    Simulates env ctx m s s := by
  refine .of_act_self hget ?_
  rw [SessionMsg.act]
  split
  · exact hmove
  · rfl

/-- The check of the party passes exactly for a stored session of the sender. -/
theorem partySession_eq_ok {sessionId : Bytes} {party : RetrievalSession → Str} {creator : Str}
    {text : String} {sessions : KVStore Bytes RetrievalSession} {session : RetrievalSession} :
    partySession sessionId party creator text sessions = .ok session ↔
      sessionId.length = 32 ∧ sessions.get sessionId = some session ∧ creator = party session := by
  simp only [partySession, except_bind_ok, rejectIf_eq_ok, orFail_eq_ok, not_not]
  constructor
  · rintro ⟨_, hlength, found, hget, _, hparty, hfound⟩
    cases hfound
    exact ⟨hlength, hget, hparty⟩
  · rintro ⟨hlength, hget, hparty⟩
    exact ⟨(), hlength, session, hget, (), hparty, rfl⟩

/-- A due fee that the module has can be paid out. Neither the burn nor the payment can be
refused. -/
theorem not_payoutFails {params : Params} {session : RetrievalSession} {b b' : β}
    (hfee : 0 < session.lockedFee) (hdue : dueFee ctx session = session.lockedFee)
    (hpay : Payable env ctx params session)
    (hcovered : session.lockedFee ≤ env.bank.moduleBalance b) :
    ¬PayoutFails env ctx params session b b' := by
  have hle : settleBurn params session.lockedFee ≤ session.lockedFee := settleBurn_le hfee
  have hnonneg : 0 ≤ settleBurn params session.lockedFee := settleBurn_nonneg hfee
  -- the module has what it burns
  have hburnable : ∀ amount : Int, 0 ≤ amount → amount ≤ env.bank.moduleBalance b →
      (env.bank.burnCoins ctx b moduleName (bondCoin amount)).isSome := fun amount =>
    env.bank.burn_isSome ctx b amount
  intro hfails
  cases hfails with
  | burn hpos hburn =>
      have hsome := hburnable (settleBurn params session.lockedFee) hpos.le (by omega)
      rw [hburn] at hsome
      cases hsome
  | pay hburn hcut hsend =>
      obtain ⟨addr, haddr, hreceive⟩ := hpay (by omega) hcut
      -- and after the burn it has what it pays
      have hleft : session.lockedFee - settleBurn params session.lockedFee ≤
          env.bank.moduleBalance b' := by
        split at hburn
        · have hbalance := env.bank.balance_burn hburn (env.bank.moduleAddress moduleName) bondDenom
          rw [debit, if_pos ⟨rfl, rfl⟩] at hbalance
          rw [BankKeeper.moduleBalance] at hcovered ⊢
          rw [hbalance]
          show _ ≤ _ - settleBurn params session.lockedFee
          omega
        · rw [hburn]
          omega
      have hsome := hreceive _ _ hcut hleft
      rw [hsend addr haddr] at hsome
      cases hsome

/-- The balances after a settlement. A part that is zero is neither burnt nor paid. -/
theorem FeeSettled.balance_eq {burn cut : Int} {provider : Str} {b b' : β}
    (h : FeeSettled env ctx burn cut provider b b') (hburn : 0 ≤ burn) (hcut : 0 ≤ cut) :
    env.bank.balance b' = paidOut env.moduleAddr (env.codec.accAddressFromBech32 provider) burn cut
      (env.bank.balance b) := by
  -- a coin of zero moves nothing
  have hzero : ∀ addr a d, debit addr (bondCoin 0) a d = 0 := by
    intro addr a d
    rw [debit]
    split <;> rfl
  obtain ⟨b₁, hburned, hpaid⟩ := h.paid
  funext a d
  have hfirst : env.bank.balance b₁ a d =
      env.bank.balance b a d - debit env.moduleAddr (bondCoin burn) a d := by
    split at hburned
    · exact env.bank.balance_burn hburned a d
    · have hnone : burn = 0 := by omega
      rw [hburned, hnone, hzero]
      omega
  rw [paidOut, ← hfirst]
  -- the payment, if the provider has an account
  split at hpaid
  · obtain ⟨addr, haddr, hsend⟩ := hpaid
    rw [env.bank.balance_toAccount hsend a d, haddr]
    rfl
  · have hnone : cut = 0 := by omega
    rw [hpaid, hnone, hzero]
    cases env.codec.accAddressFromBech32 provider with
    | none => show _ = _ - 0 + 0; omega
    | some addr => show _ = _ - 0 + debit addr (bondCoin 0) a d; rw [hzero]; omega

/-- Finishing a session whose fee is covered succeeds, and does what the machine does. It settles
the fee only when the session is completed. -/
theorem finishSession_simulates (next : RetrievalSessionStatus → RetrievalSessionStatus)
    {sessionId : Bytes} {session : RetrievalSession}
    (hexp : isSessionExpired ctx session = false) (hopen : session.status ≠ .completed)
    (hpay : Payable env ctx s.getParams session)
    (hcovered : dueFee ctx session ≤ env.bank.moduleBalance s.bank) :
    ∃ s', (finishSession env ctx sessionId { session with
          status := next session.status, updatedHeight := ctx.blockHeight }).exec s = (.ok (), s') ∧
      books env s' =
        ⟨s.retrievalSessions.set sessionId (advance env ctx s.getParams next session).1,
          (sessionMachine env ctx s.getParams).postAll (books env s).ledger
            (advance env ctx s.getParams next session).2⟩ ∧
      SameRest s s' := by
  cases hexec : (finishSession env ctx sessionId { session with
      status := next session.status, updatedHeight := ctx.blockHeight }).exec s with
  | mk res s' =>
      cases res with
      | error e =>
          -- Only the settlement can fail, and it is paid.
          exfalso
          rw [finishSession, Tx.exec_ite] at hexec
          -- a settlement fails when the fee cannot be paid out
          split at hexec
          · rcases Tx.exec_bind_error.mp hexec with hsettle | ⟨settled, s₁, -, hlast⟩
            · obtain ⟨hfee, b, hfails, -⟩ := settleRetrievalSession_error hsettle
              have hdue : dueFee ctx session = session.lockedFee := if_pos ⟨hexp, hopen, hfee⟩
              have hfails' : PayoutFails env ctx s.getParams session s.bank b := by
                cases hfails with
                | burn hpos hburn => exact .burn hpos hburn
                | pay hburn hcut hsend => exact .pay hburn hcut hsend
              have hbalance : session.lockedFee ≤ env.bank.moduleBalance s.bank := by
                rw [← hdue]
                exact hcovered
              have hnot : ¬PayoutFails env ctx s.getParams session s.bank b :=
                not_payoutFails hfee hdue hpay hbalance
              exact hnot hfails'
            · cases hlast
          · cases hexec
      | ok u =>
          refine ⟨s', rfl, ?_⟩
          rw [advance, if_neg hopen]
          -- settled, free of a fee, or still open
          cases finishSession_ok hexec with
          | settled hstatus hfee hpaid =>
              have hstatus : next session.status = .completed := hstatus
              have hfee : 0 < session.lockedFee := hfee
              have hle : settleBurn s.getParams session.lockedFee ≤ session.lockedFee :=
                settleBurn_le hfee
              have hbalance := hpaid.balance_eq (settleBurn_nonneg hfee) (by
                show 0 ≤ session.lockedFee - settleBurn s.getParams session.lockedFee
                omega)
              refine ⟨?_, rfl⟩
              rw [if_pos hstatus, if_pos hfee, settlement, if_pos hfee]
              exact congrArg₂ LedgerMachine.State.mk
                (congrArg (s.retrievalSessions.set sessionId) (congrArg (fun status =>
                  { session with
                    status := status, updatedHeight := ctx.blockHeight, lockedFee := 0 }) hstatus))
                (congrArg (Accounts.mk _ _ _ _) hbalance)
          | free hstatus hfee =>
              have hstatus : next session.status = .completed := hstatus
              have hfee : ¬0 < session.lockedFee := not_lt.mpr hfee
              refine ⟨?_, rfl⟩
              rw [if_pos hstatus, if_neg hfee, settlement, if_neg hfee]
              exact congrArg₂ LedgerMachine.State.mk
                (congrArg (s.retrievalSessions.set sessionId) (congrArg (fun status =>
                  { session with status := status, updatedHeight := ctx.blockHeight }) hstatus)) rfl
          | pending hstatus =>
              refine ⟨?_, rfl⟩
              rw [if_neg hstatus]
              rfl

/-- A message that ends in finishing its session, which is not complete yet. The fee that is due for
it is covered, as the sum of all that is due. -/
theorem Simulates.of_finish {ids : Finset Bytes}
    (hfunded : Funded env ctx s.getParams ids (books env s))
    {m : SessionMsg} (hm : m.sessionId ∈ ids)
    (next : RetrievalSessionStatus → RetrievalSessionStatus) {session : RetrievalSession}
    (hget : s.retrievalSessions.get m.sessionId = some session)
    (hexp : isSessionExpired ctx session = false) (hopen : session.status ≠ .completed)
    (hact : m.act env ctx s.getParams (books env s).ledger session =
      advance env ctx s.getParams next session)
    {x : Handler β Unit}
    (hx : x.exec s = (finishSession env ctx m.sessionId { session with
      status := next session.status, updatedHeight := ctx.blockHeight }).exec s) :
    Simulates env ctx m s (x.commitOrRollback s) := by
  -- what is due at its id
  have hself : dueAt ctx s.retrievalSessions m.sessionId = dueFee ctx session := by
    rw [dueAt, hget]
    rfl
  have hone : dueFee ctx session ≤ ∑ id ∈ ids, dueAt ctx s.retrievalSessions id := by
    rw [← hself]
    exact Finset.single_le_sum (fun id _ => dueAt_nonneg ctx s.retrievalSessions id) hm
  have hcovered : dueFee ctx session ≤ env.bank.moduleBalance s.bank :=
    hone.trans hfunded.covered
  obtain ⟨s', hexec, hbooks, hrest⟩ := finishSession_simulates next hexp hopen
    (hfunded.payable _ hm _ hget) hcovered
  rw [Tx.commitOrRollback_of_ok (hx.trans hexec)]
  exact .of_act hget hact hbooks hrest

/-- A funded confirmation does on the chain what it does in the books. When it is refused, the chain
rolls it back and the books do not authorize it. -/
theorem confirm_simulates {ids : Finset Bytes}
    (hfunded : Funded env ctx s.getParams ids (books env s)) {msg : MsgConfirmRetrievalSession}
    (hm : msg.sessionId ∈ ids) :
    Simulates env ctx (.confirm msg) s
      ((confirmRetrievalSession env ctx msg).commitOrRollback s) := by
  -- the session is found and its owner has sent it
  cases hparty : partySession msg.sessionId (·.owner) msg.creator
      "only session owner may confirm completion" s.retrievalSessions with
  | error e =>
      have hexec : (confirmRetrievalSession env ctx msg).exec s = (.error e, s) := by
        rw [confirmRetrievalSession, Tx.exec_bind, Tx.exec_reads, hparty]
      rw [Tx.commitOrRollback_of_error hexec]
      refine Simulates.refused ?_
      rintro session hget ⟨hlength, howner, -⟩
      rw [partySession_eq_ok.mpr ⟨hlength, hget, howner⟩] at hparty
      cases hparty
  | ok session =>
      obtain ⟨hlength, hget, howner⟩ := partySession_eq_ok.mp hparty
      by_cases hexp : isSessionExpired ctx session
      -- an expired session is stored as such, and that is rolled back
      · have hexec : (confirmRetrievalSession env ctx msg).exec s =
            (.error (errInvalidRequest "retrieval session expired"),
              setSession (expireSession ctx session) msg.sessionId s) := by
          rw [confirmRetrievalSession, Tx.exec_bind, Tx.exec_reads, hparty]
          simp only [rejectExpired, if_pos hexp, Tx.exec_bind, Tx.exec_update, Tx.exec_throw]
        rw [Tx.commitOrRollback_of_error hexec]
        refine Simulates.refused ?_
        rintro found hfound ⟨-, -, hlive⟩
        rw [show s.retrievalSessions.get msg.sessionId = some found from hfound] at hget
        cases hget
        rw [hexp] at hlive
        cases hlive
      · have hlive : isSessionExpired ctx session = false := Bool.eq_false_iff.mpr hexp
        by_cases hover : session.status = .completed
        · have hexec : (confirmRetrievalSession env ctx msg).exec s = (.ok (), s) := by
            rw [confirmRetrievalSession, Tx.exec_bind, Tx.exec_reads, hparty]
            simp only [rejectExpired, if_neg hexp, if_pos hover, Tx.exec_pure_bind, Tx.exec_pure]
          rw [Tx.commitOrRollback_of_ok hexec]
          exact .inert hget (if_pos hover)
        · refine .of_finish (m := .confirm msg) hfunded hm confirmStatus hget hlive hover
            (if_pos ⟨hlength, howner, hlive⟩) ?_
          rw [confirmRetrievalSession, Tx.exec_bind, Tx.exec_reads, hparty]
          simp only [rejectExpired, if_neg hexp, if_neg hover, Tx.exec_pure_bind]
          rfl

/-- A funded submission does on the chain what it does in the books. The proofs are checked against
the deal, and the books read the same check. -/
theorem submit_simulates {ids : Finset Bytes}
    (hfunded : Funded env ctx s.getParams ids (books env s)) {msg : MsgSubmitRetrievalSessionProof}
    (hm : msg.sessionId ∈ ids) :
    Simulates env ctx (.submit msg) s
      ((submitRetrievalSessionProof env ctx msg).commitOrRollback s) := by
  -- proofs are required before anything is read
  by_cases hempty : msg.sessionId.length = 32 ∧ msg.proofs = []
  · have hexec : (submitRetrievalSessionProof env ctx msg).exec s =
        (.error (errInvalidRequest "proofs are required"), s) := by
      rw [submitRetrievalSessionProof, Tx.exec_failIf_bind_error]
      exact Or.inl ⟨hempty, rfl, rfl⟩
    rw [Tx.commitOrRollback_of_error hexec]
    refine Simulates.refused ?_
    rintro session hget ⟨-, hproofs, -⟩
    exact hproofs hempty.2
  · have hfail : (Tx.failIf (msg.sessionId.length = 32 ∧ msg.proofs = [])
        (errInvalidRequest "proofs are required") : Handler β Unit) = pure () := if_neg hempty
    cases hparty : partySession msg.sessionId (·.provider) msg.creator
        "only session provider may submit proofs" s.retrievalSessions with
    | error e =>
        have hexec : (submitRetrievalSessionProof env ctx msg).exec s = (.error e, s) := by
          rw [submitRetrievalSessionProof, hfail, Tx.exec_pure_bind, Tx.exec_bind, Tx.exec_reads,
            hparty]
        rw [Tx.commitOrRollback_of_error hexec]
        refine Simulates.refused ?_
        rintro session hget ⟨hlength, -, hprovider, -⟩
        rw [partySession_eq_ok.mpr ⟨hlength, hget, hprovider⟩] at hparty
        cases hparty
    | ok session =>
        obtain ⟨hlength, hget, hprovider⟩ := partySession_eq_ok.mp hparty
        have hproofs : msg.proofs ≠ [] := fun hnil => hempty ⟨hlength, hnil⟩
        -- what is left of the handler
        have hrest : (submitRetrievalSessionProof env ctx msg).exec s =
            (rejectExpired ctx msg.sessionId session >>= fun _ =>
              if session.status = .completed then pure ()
              else do
                Tx.reads fun s => checkSubmission env session msg.proofs s.deals
                finishSession env ctx msg.sessionId { session with
                  status := submitStatus session.status, updatedHeight := ctx.blockHeight }).exec
              s := by
          rw [submitRetrievalSessionProof, hfail, Tx.exec_pure_bind, Tx.exec_bind, Tx.exec_reads,
            hparty]
        -- The session that the message names is this one.
        have hrefused : ¬(SessionMsg.submit msg).Authorized env ctx s.deals session →
            Simulates env ctx (.submit msg) s s := by
          intro hnot
          refine .refused ?_
          intro found hfound
          rw [show s.retrievalSessions.get msg.sessionId = some found from hfound] at hget
          cases hget
          exact hnot
        by_cases hexp : isSessionExpired ctx session
        · have hexec : (submitRetrievalSessionProof env ctx msg).exec s =
              (.error (errInvalidRequest "retrieval session expired"),
                setSession (expireSession ctx session) msg.sessionId s) := by
            rw [hrest]
            simp only [rejectExpired, if_pos hexp, Tx.exec_bind, Tx.exec_update, Tx.exec_throw]
          rw [Tx.commitOrRollback_of_error hexec]
          refine hrefused ?_
          rintro ⟨-, -, -, hlive, -⟩
          rw [hexp] at hlive
          cases hlive
        · have hlive : isSessionExpired ctx session = false := Bool.eq_false_iff.mpr hexp
          rw [rejectExpired, if_neg hexp, Tx.exec_pure_bind] at hrest
          -- a completed session takes no more proofs
          by_cases hover : session.status = .completed
          · rw [if_pos hover] at hrest
            rw [Tx.commitOrRollback_of_ok hrest]
            exact .inert hget (if_pos hover)
          · rw [if_neg hover, Tx.exec_bind, Tx.exec_reads] at hrest
            cases hcheck : checkSubmission env session msg.proofs s.deals with
            | error e =>
                rw [hcheck] at hrest
                rw [Tx.commitOrRollback_of_error hrest]
                refine hrefused ?_
                rintro ⟨-, -, -, -, hok⟩
                rw [hcheck] at hok
                cases hok
            | ok u =>
                rw [hcheck] at hrest
                exact .of_finish (m := .submit msg) hfunded hm submitStatus hget hlive hover
                  (if_pos ⟨hlength, hproofs, hprovider, hlive, hcheck⟩) hrest

/-- Evidence leaves the deals. -/
theorem deals_recordNonResponse (reporter : Str) (session : RetrievalSession) :
    ((if session.status = .open then recordNonResponse ctx reporter session else id) s).deals =
      s.deals := by
  split <;> rfl

/-- A cancellation that goes through. It refunds the fee into the escrow of the deal, if there is
one to refund. -/
theorem Simulates.of_withdrawal {msg : MsgCancelRetrievalSession} {session : RetrievalSession}
    (hget : s.retrievalSessions.get msg.sessionId = some session)
    (hact : (SessionMsg.cancel msg).act env ctx s.getParams (books env s).ledger session =
      withdrawFee ctx s.deals session)
    (hgoes : ¬(session.status = .completed ∨ session.status = .canceled ∨
      0 < session.lockedFee ∧ s.deals.get session.dealId.toNat = none))
    {x : Handler β Unit}
    (hx : x.exec s = (refundFee session >>= fun _ =>
      Tx.update (setSession (canceledSession ctx session) msg.sessionId)).exec
        ((if session.status = .open then recordNonResponse ctx msg.creator session else id) s)) :
    Simulates env ctx (.cancel msg) s (x.commitOrRollback s) := by
  have hact' : (SessionMsg.cancel msg).act env ctx s.getParams (books env s).ledger session =
      (canceledSession ctx session, cancellation session) := hact.trans (if_neg hgoes)
  -- with a fee, the deal is there
  by_cases hfee : 0 < session.lockedFee
  · obtain ⟨deal, hdeal⟩ : ∃ deal, s.deals.get session.dealId.toNat = some deal := by
      cases hdeal : s.deals.get session.dealId.toNat with
      | none => exact absurd (Or.inr (Or.inr ⟨hfee, hdeal⟩)) hgoes
      | some deal => exact ⟨deal, rfl⟩
    have hmodify : s.deals.modify session.dealId.toNat
        (Option.map (Deal.refunded session.lockedFee)) =
        s.deals.set session.dealId.toNat (deal.refunded session.lockedFee) :=
      KVStore.modify_of_some (by rw [hdeal]; rfl)
    rw [refundFee, if_pos hfee, bind_assoc, Tx.exec_bind, Tx.exec_reads, deals_recordNonResponse,
      hdeal] at hx
    rw [Tx.commitOrRollback_of_ok hx]
    refine .of_act hget hact' ?_ ?_
    · rw [cancellation, if_pos hfee]
      split
      · exact congrArg₂ LedgerMachine.State.mk rfl
          (congrArg (fun deals => Accounts.mk deals _ _ _ _) hmodify.symm)
      · exact congrArg₂ LedgerMachine.State.mk rfl
          (congrArg (fun deals => Accounts.mk deals _ _ _ _) hmodify.symm)
    · split <;> rfl
  · rw [refundFee, if_neg hfee, Tx.exec_pure_bind] at hx
    rw [Tx.commitOrRollback_of_ok hx]
    refine .of_act hget hact' ?_ ?_
    · rw [cancellation, if_neg hfee]
      split <;> rfl
    · split <;> rfl

/-- A cancellation does on the chain what it does in the books; it pays nobody. So it needs no
funds, and only its refusals are compared. -/
theorem cancel_simulates (msg : MsgCancelRetrievalSession) :
    Simulates env ctx (.cancel msg) s ((cancelRetrievalSession ctx msg).commitOrRollback s) := by
  cases hparty : partySession msg.sessionId (·.owner) msg.creator "only session owner may cancel"
      s.retrievalSessions with
  | error e =>
      have hexec : (cancelRetrievalSession ctx msg).exec s = (.error e, s) := by
        rw [cancelRetrievalSession, Tx.exec_bind, Tx.exec_reads, hparty]
      rw [Tx.commitOrRollback_of_error hexec]
      refine Simulates.refused ?_
      rintro session hget ⟨hlength, howner, -⟩
      rw [partySession_eq_ok.mpr ⟨hlength, hget, howner⟩] at hparty
      cases hparty
  | ok session =>
      obtain ⟨hlength, hget, howner⟩ := partySession_eq_ok.mp hparty
      -- what is left of the handler
      have hrest : (cancelRetrievalSession ctx msg).exec s =
          (if session.status = .completed ∨ session.status = .canceled then pure ()
          else do
            Tx.failIf (¬isSessionExpired ctx session)
              (errInvalidRequest "retrieval session not expired")
            Tx.update
              (if session.status = .open then recordNonResponse ctx msg.creator session else id)
            refundFee session
            Tx.update (setSession (canceledSession ctx session) msg.sessionId) :
              Handler β Unit).exec s := by
        rw [cancelRetrievalSession, Tx.exec_bind, Tx.exec_reads, hparty]
      by_cases hover : session.status = .completed ∨ session.status = .canceled
      · rw [if_pos hover] at hrest
        rw [Tx.commitOrRollback_of_ok hrest]
        exact .inert hget (if_pos (hover.imp id Or.inl))
      · rw [if_neg hover] at hrest
        by_cases hexp : isSessionExpired ctx session
        · have hfail : (Tx.failIf (¬isSessionExpired ctx session)
              (errInvalidRequest "retrieval session not expired") : Handler β Unit) = pure () :=
            if_neg (not_not.mpr hexp)
          rw [hfail, Tx.exec_pure_bind, Tx.exec_update_bind] at hrest
          by_cases hrefund : 0 < session.lockedFee ∧ s.deals.get session.dealId.toNat = none
          -- a fee of a deal that is gone cannot be refunded, and that is rolled back
          · have hexec : ∃ e s', (cancelRetrievalSession ctx msg).exec s = (.error e, s') := by
              rw [hrest, refundFee, if_pos hrefund.1, bind_assoc, Tx.exec_bind, Tx.exec_reads,
                deals_recordNonResponse, hrefund.2]
              exact ⟨_, _, rfl⟩
            obtain ⟨e, s', hexec⟩ := hexec
            rw [Tx.commitOrRollback_of_error hexec]
            exact .inert hget (if_pos (Or.inr (Or.inr hrefund)))
          · refine .of_withdrawal hget (if_pos ⟨hlength, howner, hexp⟩) ?_ hrest
            rintro (hdone | hdone | hdone)
            · exact hover (Or.inl hdone)
            · exact hover (Or.inr hdone)
            · exact hrefund hdone
        · have hexec : (cancelRetrievalSession ctx msg).exec s =
              (.error (errInvalidRequest "retrieval session not expired"), s) := by
            rw [hrest, Tx.exec_failIf_bind_error]
            exact Or.inl ⟨hexp, rfl, rfl⟩
          rw [Tx.commitOrRollback_of_error hexec]
          refine Simulates.refused ?_
          rintro found hfound ⟨-, -, hpast⟩
          rw [show s.retrievalSessions.get msg.sessionId = some found from hfound] at hget
          cases hget
          exact hexp hpast

/-- A delivered message does what the machine does. -/
theorem deliver_simulates {ids : Finset Bytes}
    (hfunded : Funded env ctx s.getParams ids (books env s)) {m : SessionMsg}
    (hm : m.sessionId ∈ ids) : Simulates env ctx m s (apply env s (.deliver ctx m.toMsg)) := by
  cases m with
  | confirm msg => exact confirm_simulates hfunded hm
  | submit msg => exact submit_simulates hfunded hm
  | cancel msg => exact cancel_simulates msg

end Handlers

/-! ### Blocks of session messages -/

/-- The sessions that the messages are about. -/
def sessionIds (ms : List SessionMsg) : Finset Bytes := (ms.map SessionMsg.sessionId).toFinset

/-- The block is funded: the module account covers what the sessions of the messages may pay out
at this height, and their providers can be paid. -/
def FundedBlock (env : Env β) (ctx : Ctx) (s : KeeperState β) (ms : List SessionMsg) : Prop :=
  Funded env ctx s.getParams (sessionIds ms) (books env s)

/-- Deliver the messages, one after the other. -/
def deliverAll (env : Env β) (ctx : Ctx) (s : KeeperState β) (ms : List SessionMsg) :
    KeeperState β :=
  run (apply env) s (ms.map fun m => .deliver ctx m.toMsg)

/-- The two states are the same but for the records of evidence and the inside of the bank, which
has the same balances. -/
structure SameOutcome (env : Env β) (s s' : KeeperState β) : Prop where
  balance : ∀ addr denom, env.bank.balance s'.bank addr denom = env.bank.balance s.bank addr denom
  rest : s' = { s with proofs := s'.proofs, bank := s'.bank }

section Blocks

variable {env : Env β} {ctx : Ctx} {s s' : KeeperState β}

/-- A run of messages of a funded block is a run of the machine. -/
theorem deliverAll_simulates {ids : Finset Bytes} {ms : List SessionMsg}
    (hms : ∀ m ∈ ms, m.sessionId ∈ ids) (hfunded : Funded env ctx s.getParams ids (books env s)) :
    books env (deliverAll env ctx s ms) =
        run (sessionMachine env ctx s.getParams).step (books env s) ms ∧
      SameRest s (deliverAll env ctx s ms) := by
  induction ms generalizing s with
  | nil => exact ⟨rfl, SameRest.refl s⟩
  | cons m ms ih =>
      obtain ⟨hm, hms⟩ := List.forall_mem_cons.mp hms
      obtain ⟨hbooks, hrest⟩ := deliver_simulates hfunded hm
      have hparams : (apply env s (.deliver ctx m.toMsg)).getParams = s.getParams := by
        rw [SameRest] at hrest
        rw [hrest]
        rfl
      have hnext := hfunded.step hm
      rw [← hbooks] at hnext
      obtain ⟨hbooks', hrest'⟩ := ih (s := apply env s (.deliver ctx m.toMsg)) hms
        (by rw [hparams]; exact hnext)
      rw [hparams, hbooks] at hbooks'
      exact ⟨hbooks', hrest.trans hrest'⟩

/-- The same outcome includes the same sessions. -/
theorem SameOutcome.sessions (h : SameOutcome env s s') :
    s'.retrievalSessions = s.retrievalSessions := by
  rw [h.rest]

/-- States with the same books and the same rest. -/
theorem SameOutcome.of_books {s₀ : KeeperState β} (h : SameRest s₀ s) (h' : SameRest s₀ s')
    (hbooks : books env s' = books env s) : SameOutcome env s s' := by
  have hcells := congrArg LedgerMachine.State.cells hbooks
  have hledger := congrArg LedgerMachine.State.ledger hbooks
  refine ⟨?_, ?_⟩
  · intro addr denom
    exact congrFun (congrFun (congrArg Accounts.balance hledger) addr) denom
  · have hsessions : s'.retrievalSessions = s.retrievalSessions := hcells
    have hdeals : s'.deals = s.deals := congrArg Accounts.deals hledger
    have hheat : s'.dealHeatStates = s.dealHeatStates := congrArg Accounts.heat hledger
    have hfailures : s'.dealProviderFailures = s.dealProviderFailures :=
      congrArg Accounts.failures hledger
    have hcount : s'.proofCount = s.proofCount := congrArg Accounts.evidence hledger
    rw [SameRest, hsessions, hdeals, hheat, hfailures, hcount] at h'
    rw [SameRest] at h
    rw [h', h]

/-- In a funded block the order of the session messages does not matter: every order leads to the
same balances and to the same state, but for the order in which the proofs are logged. The books of
`SharedLedger` do the work: sessions are cells, the module's accounts a ledger whose postings
commute. -/
theorem session_messages_commute (env : Env β) (ctx : Ctx) (s : KeeperState β)
    (ms ms' : List SessionMsg) (hperm : ms.Perm ms') (hfunded : FundedBlock env ctx s ms) :
    SameOutcome env (deliverAll env ctx s ms) (deliverAll env ctx s ms') := by
  have hms : ∀ m ∈ ms, m.sessionId ∈ sessionIds ms := fun m hm =>
    List.mem_toFinset.mpr (List.mem_map_of_mem hm)
  obtain ⟨hbooks, hrest⟩ := deliverAll_simulates hms hfunded
  obtain ⟨hbooks', hrest'⟩ := deliverAll_simulates
    (fun m hm => hms m (hperm.mem_iff.mpr hm)) hfunded
  have hmachine := (sessionMachine_commutative env ctx s.getParams).run_perm hperm (books env s)
  exact .of_books hrest hrest' (by rw [hbooks, hbooks', hmachine])

end Blocks

/-! ### On a small chain -/

/-- The owner and the provider of the session over the first blob. -/
def confirmFirstBlob : SessionMsg := .confirm ⟨ownerText, firstBlobId⟩

/-- The submission of the sample session. -/
def submitFirstBlob : SessionMsg := .submit ⟨providerText, firstBlobId, [sampleProof 0]⟩

/-- The sample bank pays every address. -/
theorem sample_canReceive (keccak : HashTable) (ctx : Ctx) (addr : Bytes) :
    CanReceive (sampleProofEnv keccak) ctx addr := by
  intro b amount hpos hle
  show (Ledger.transfer b (moduleAddressOf moduleName) addr (bondCoin amount)).isSome
  have hcovered : amount ≤ b.balance (moduleAddressOf moduleName) bondDenom := hle
  rw [Ledger.transfer, Ledger.withdraw, if_pos ⟨hpos.le, hcovered⟩]
  rfl

/-- Both orders complete the session. The fee is settled once in each of them. -/
theorem session_messages_commute_firstBlob :
    SameOutcome (sampleProofEnv firstBlobKeccak)
        (deliverAll (sampleProofEnv firstBlobKeccak) (ctxAt 3) (firstBlobState 0)
          [confirmFirstBlob, submitFirstBlob])
        (deliverAll (sampleProofEnv firstBlobKeccak) (ctxAt 3) (firstBlobState 0)
          [submitFirstBlob, confirmFirstBlob]) ∧
      ((deliverAll (sampleProofEnv firstBlobKeccak) (ctxAt 3) (firstBlobState 0)
        [confirmFirstBlob, submitFirstBlob]).retrievalSessions.get firstBlobId).map
          (fun session => (session.status, session.lockedFee)) = some (.completed, 0) := by
  refine ⟨session_messages_commute _ _ _ _ _ (List.Perm.swap ..) ⟨by decide +kernel, ?_⟩,
    by decide +kernel⟩
  -- the provider can be paid
  intro id hid session hget _ _
  have hone : id = firstBlobId := by
    rw [sessionIds, List.mem_toFinset] at hid
    simpa [confirmFirstBlob, submitFirstBlob, SessionMsg.sessionId] using hid
  subst hone
  have hprovider : ((firstBlobState 0).retrievalSessions.get firstBlobId).map (·.provider) =
      some providerText := by decide +kernel
  rw [books_cells] at hget
  rw [hget, Option.map_some, Option.some.injEq] at hprovider
  rw [hprovider]
  exact ⟨providerAddr, by decide +kernel, sample_canReceive _ _ _⟩

/-- The same state with an empty bank. -/
def unfundedState : KeeperState Ledger := { firstBlobState 0 with bank := KVStore.empty }

/-- Where the fee cannot be paid, the first of the two messages succeeds and the second fails. -/
theorem unfunded_order_matters :
    ¬SameOutcome (sampleProofEnv firstBlobKeccak)
      (deliverAll (sampleProofEnv firstBlobKeccak) (ctxAt 3) unfundedState
        [confirmFirstBlob, submitFirstBlob])
      (deliverAll (sampleProofEnv firstBlobKeccak) (ctxAt 3) unfundedState
        [submitFirstBlob, confirmFirstBlob]) := by
  have hconfirmed : ((deliverAll (sampleProofEnv firstBlobKeccak) (ctxAt 3) unfundedState
      [confirmFirstBlob, submitFirstBlob]).retrievalSessions.get firstBlobId).map (·.status) =
        some .userConfirmed := by decide +kernel
  have hsubmitted : ((deliverAll (sampleProofEnv firstBlobKeccak) (ctxAt 3) unfundedState
      [submitFirstBlob, confirmFirstBlob]).retrievalSessions.get firstBlobId).map (·.status) =
        some .proofSubmitted := by decide +kernel
  intro hsame
  rw [hsame.sessions, hconfirmed] at hsubmitted
  cases hsubmitted

end NilStore.Chain
