import NilStore.Chain.Providers
import NilStore.Chain.Eip712
import NilStore.Chain.Stripe

/-!
# `NilStore.Chain.Deals`: creating, filling and funding deals

The handlers `CreateDeal`, `UpdateDealContent`, `AddCredit` and `SignalSaturation` of
`keeper/msg_server.go`. `CreateDeal` and `UpdateDealContent` share most of their work with the
handlers of the EVM bridge, so what is shared has a name here: `payDealCreationFee`,
`requestedStripe`, `newDeal`, `termDeposit` and `commitContent`.

Each handler comes with one lemma `…_ok` that says what a successful run did.
-/

set_option autoImplicit false

namespace NilStore.Chain

open NilStore.Lib

variable {β : Type}

/-! ### What the two ways to create a deal share -/

/-- The creation fee is charged: a valid, positive coin. A fee that is not valid is skipped and is
no error. -/
def Params.chargesCreationFee (params : Params) : Prop :=
  params.dealCreationFee.isValid ∧ 0 < params.dealCreationFee.amount

instance (params : Params) : Decidable params.chargesCreationFee :=
  inferInstanceAs (Decidable (_ ∧ _))

/-- Pay the creation fee to the fee collector. It does not pass through the module account, so the
escrows are not concerned. -/
def payDealCreationFee (env : Env β) (ctx : Ctx) (params : Params) (payer : Bytes) :
    Handler β Unit :=
  if params.chargesCreationFee then
    bankCall (fun b => env.bank.sendCoinsFromAccountToModule ctx b payer feeCollectorName
      params.dealCreationFee) (errorf "failed to pay deal creation fee")
  else pure ()

/-- What paying the creation fee does to the bank. Without a fee it stays as it was. -/
def FeePaid (env : Env β) (ctx : Ctx) (params : Params) (payer : Bytes) (b b' : β) : Prop :=
  if params.chargesCreationFee then
    env.bank.sendCoinsFromAccountToModule ctx b payer feeCollectorName params.dealCreationFee =
      some b'
  else b = b'

/-- A handler that goes on after the creation fee returned exactly when the fee was paid (or was
zero) and the rest returned on the bank so charged. -/
theorem payDealCreationFee_bind_ok {α : Type} {env : Env β} {ctx : Ctx} {params : Params}
    {payer : Bytes} {g : Unit → Handler β α} {s s' : KeeperState β} {a : α} :
    (payDealCreationFee env ctx params payer >>= g).exec s = (.ok a, s') ↔
      ∃ b, FeePaid env ctx params payer s.bank b ∧
        (g ()).exec { s with bank := b } = (.ok a, s') := by
  by_cases hfee : params.chargesCreationFee
  · simp only [payDealCreationFee, if_pos hfee, bankCall_bind_ok, FeePaid]
  · simp only [payDealCreationFee, if_neg hfee, Tx.exec_pure_bind, FeePaid, exists_eq_left']

/-- The replicas and the redundancy mode that a hint asks for. An `rs` makes it Mode 2, and a number
of replicas beside it has to agree with it. -/
def requestedStripe (hint : ServiceHintInfo) : Except Fault (UInt64 × UInt32) :=
  if hint.hasRS then
    if hint.hasReplicas ∧ hint.replicas ≠ hint.rsk + hint.rsm then
      .error (errInvalidRequest "service_hint replicas must equal rs K+M")
    else .ok (hint.rsk + hint.rsm, 2)
  else if hint.hasReplicas then
    .ok (if hint.replicas > dealBaseReplication then dealBaseReplication else hint.replicas, 1)
  else .ok (dealBaseReplication, 1)

/-- The bases of a service hint that the chain accepts. The empty base is one of them. -/
def validHintBase (base : Str) : Bool :=
  base == "Hot".toList || base == "Cold".toList || base == "General".toList || base == []

/-- An amount of a request that must be there and not negative. The text of the error ends with the
amount. -/
def nonNegative (amount : Option Int) (text : String) : Except Fault Int :=
  match amount with
  | none => .error (errInvalidRequest (text ++ "<nil>"))
  | some n => if n < 0 then .error (errInvalidRequest (text ++ toString n)) else .ok n

/-- The amount check passes exactly on an amount that is present and not negative, and it hands that
amount on. -/
@[simp] theorem nonNegative_eq_ok {amount : Option Int} {text : String} {n : Int} :
    nonNegative amount text = .ok n ↔ amount = some n ∧ 0 ≤ n := by
  cases amount with
  | none => simp [nonNegative]
  | some m =>
      rw [nonNegative]
      split
      · rename_i hneg
        simp only [Option.some.injEq, reduceCtorEq, false_iff, not_and]
        rintro rfl
        omega
      · rename_i hneg
        simp only [Except.ok.injEq, Option.some.injEq, iff_self_and]
        rintro rfl
        omega

/-- The next value of `DealCount`. The sequence moves on when the number is drawn, even where the
handler fails later and is not rolled back. -/
def nextDealId : Handler β Nat := do
  let id ← Tx.gets KeeperState.dealCount
  Tx.update fun s => { s with dealCount := s.dealCount + 1 }
  return id

/-- Taking the next deal id never fails. The rest runs with the old counter as the id, in a state
whose counter is one higher. -/
theorem nextDealId_bind {α : Type} (g : Nat → Handler β α) (s : KeeperState β) :
    (nextDealId >>= g).exec s = (g s.dealCount).exec { s with dealCount := s.dealCount + 1 } := by
  rw [nextDealId, Tx.exec_bind, Tx.exec_gets_bind, Tx.exec_update_bind, Tx.exec_pure]

/-- The slots of a new Mode 2 deal: one for each assigned provider, in order. All are active from
the height of the creation on. -/
def newSlots (ctx : Ctx) (assigned : List Str) : List DealSlot :=
  assigned.mapIdx fun i provider =>
    { slot := UInt32.ofNat i
      provider := provider
      status := .active
      pendingProvider := []
      statusSinceHeight := ctx.blockHeight
      repairTargetGen := 0 }

/-- A deal as it is created. It has no content yet, and its spend window opens at the height of the
creation. -/
def newDeal (ctx : Ctx) (id : Nat) (owner : Str) (escrow maxMonthlySpend : Int)
    (durationBlocks : UInt64) (hint : ServiceHintInfo) (redundancyMode : UInt32)
    (assigned : List Str) : Deal where
  id := id
  manifestRoot := []
  size := 0
  owner := owner
  escrowBalance := escrow
  startBlock := ctx.height64
  endBlock := ctx.height64 + durationBlocks
  providers := assigned
  redundancyMode := redundancyMode
  currentReplication := UInt64.ofNat assigned.length
  serviceHint := hint.raw
  maxMonthlySpend := maxMonthlySpend
  totalMdus := 0
  spendWindowStartHeight := ctx.height64
  spendWindowSpent := 0
  mode2Profile :=
    -- the profile is kept apart from the text of the hint, which is stored as it was sent
    if redundancyMode = 2 then some ⟨hint.rsk.toUInt32, hint.rsm.toUInt32⟩ else none
  mode2Slots := if redundancyMode = 2 then newSlots ctx assigned else []
  currentGen := 0
  witnessMdus := 0

/-! ### `CreateDeal` -/

/-- What `CreateDeal` answers: the id of the new deal and the providers it was assigned. The handler
of the bridge answers the id alone. -/
structure MsgCreateDealResponse where
  dealId : Nat
  assignedProviders : List Str
deriving DecidableEq

/-- The owner of a new deal: the one that the hint names, else the creator. The text of the hint
must decode, and is stored as it is. -/
def dealOwner (codec : AddressCodec) (creator : Str) (hint : ServiceHintInfo) : Except Fault Str :=
  if hint.owner = [] then .ok creator
  else
    match codec.accAddressFromBech32 hint.owner with
    | none =>
        .error (errInvalidAddress
          ("invalid owner address in service hint: " ++ fmtS hint.owner))
    | some _ => .ok hint.owner

/-- `CreateDeal`. The steps are in the order of the source: the fee is charged and the id is drawn
before the hint is read, and the last checks come after the assignment. -/
def createDeal (env : Env β) (ctx : Ctx) (msg : MsgCreateDeal) :
    Handler β MsgCreateDealResponse := do
  let creatorAddr ← Tx.ofExcept
    (orFail (env.codec.accAddressFromBech32 msg.creator)
      (errInvalidAddress "invalid creator address"))
  let params ← Tx.gets KeeperState.getParams
  Tx.failIf (0 < params.minDurationBlocks ∧ msg.durationBlocks < params.minDurationBlocks)
    (errInvalidRequest
      ("deal duration must be >= " ++ toString params.minDurationBlocks ++ " blocks"))
  payDealCreationFee env ctx params creatorAddr
  let dealId ← nextDealId
  let hint ← Tx.ofExcept ((parseServiceHint (trimSpace msg.serviceHint)).mapError errInvalidRequest)
  let owner ← Tx.ofExcept (dealOwner env.codec msg.creator hint)
  let stripe ← Tx.ofExcept (requestedStripe hint)
  -- the id is an input of the hash that picks the providers
  let assigned ← Tx.reads fun s =>
    (assignProviders env (UInt64.ofNat dealId) ctx.lastBlockHash hint.base stripe.1
      s.providers).mapError (wrapf "failed to assign providers: ")
  Tx.failIf (msg.durationBlocks = 0) (errInvalidRequest "Deal duration cannot be zero")
  Tx.failIf (¬validHintBase hint.base)
    (errInvalidRequest ("invalid service hint: " ++ fmtS hint.base))
  let escrow ← Tx.ofExcept
    (nonNegative msg.initialEscrowAmount "invalid initial escrow amount: ")
  let maxMonthlySpend ← Tx.ofExcept
    (nonNegative msg.maxMonthlySpend "invalid max monthly spend: ")
  -- the escrow is moved last, after every check has passed
  bankCall (fun b => env.bank.sendCoinsFromAccountToModule ctx b creatorAddr moduleName
    (bondCoin escrow)) (errInsufficientFunds "failed to send coins")
  let deal :=
    newDeal ctx dealId owner escrow maxMonthlySpend msg.durationBlocks hint stripe.2 assigned
  Tx.update fun s => { s with deals := s.deals.set dealId deal }
  return ⟨deal.id, deal.providers⟩

/-- The deal is as a request creates it: its stripe is the one that the request's hint asks
for, and its providers are the assigned ones. -/
def NewDeal (env : Env β) (ctx : Ctx) (providers : KVStore Str Provider) (deal : Deal) : Prop :=
  ∃ owner spend duration raw hint stripe,
    parseServiceHint raw = .ok hint ∧ requestedStripe hint = .ok stripe ∧
    assignProviders env (UInt64.ofNat deal.id) ctx.lastBlockHash hint.base stripe.1 providers =
      .ok deal.providers ∧ 0 ≤ spend ∧
    deal = newDeal ctx deal.id owner deal.escrowBalance spend duration hint stripe.2 deal.providers

/-- What a creation has done: the payer has paid the fee and the escrow, and one deal with the
next id, filled from the request, is new. -/
structure DealCreated (env : Env β) (ctx : Ctx) (s s' : KeeperState β) (payer : Bytes)
    (deal : Deal) : Prop where
  id : deal.id = s.dealCount
  bank : ∃ b₁, FeePaid env ctx s.getParams payer s.bank b₁ ∧
    env.bank.sendCoinsFromAccountToModule ctx b₁ payer moduleName (bondCoin deal.escrowBalance) =
      some s'.bank
  escrow : 0 ≤ deal.escrowBalance
  shape : NewDeal env ctx s.providers deal
  deals : s'.deals = s.deals.set s.dealCount deal
  dealCount : s'.dealCount = s.dealCount + 1

/-- What an accepted `CreateDeal` did: the creator's address paid, `DealCreated` relates the two
states, and only the bank, the deal counter and the deals changed. -/
theorem createDeal_ok {env : Env β} {ctx : Ctx} {msg : MsgCreateDeal} {s s' : KeeperState β}
    {r : MsgCreateDealResponse} (h : (createDeal env ctx msg).exec s = (.ok r, s')) :
    ∃ payer deal, env.codec.accAddressFromBech32 msg.creator = some payer ∧
      r = ⟨deal.id, deal.providers⟩ ∧ DealCreated env ctx s s' payer deal ∧
      s' = { s with bank := s'.bank, dealCount := s'.dealCount, deals := s'.deals } := by
  simp only [createDeal, Tx.exec_ofExcept_bind_ok, Tx.exec_gets_bind, Tx.exec_failIf_bind_ok,
    payDealCreationFee_bind_ok, nextDealId_bind, Tx.exec_reads_bind_ok, bankCall_bind_ok,
    Tx.exec_update_bind, Tx.exec_pure, orFail_eq_ok, mapError_eq_ok, nonNegative_eq_ok,
    Prod.mk.injEq, Except.ok.injEq] at h
  obtain ⟨payer, haddr, -, b₁, hfee, hint, hhint, owner, -, stripe, hstripe, assigned, hassign,
    -, -, escrow, ⟨-, hescrow⟩, spend, ⟨-, hspend⟩, b₂, hsend, hr, hs'⟩ := h
  subst hs'
  refine ⟨payer, _, haddr, hr.symm, ⟨rfl, ⟨b₁, hfee, hsend⟩, hescrow, ?_, rfl, rfl⟩, rfl⟩
  exact ⟨owner, spend, msg.durationBlocks, _, hint, stripe, hhint, hstripe, hassign, hspend, rfl⟩

/-! ### `UpdateDealContent` -/

/-- `LegacyDec.Ceil().TruncateInt()` of a decimal given by its 18-decimal units. It rounds up for
either sign. -/
def ceilDec (units : Int) : Int := -((-units) / 10 ^ 18)

/-- The term deposit for growing a deal: price per byte and block, times the bytes added, times
the duration, rounded up. The two factors go through `int64`. -/
def termDeposit (params : Params) (deal : Deal) (newSize : UInt64) : Int :=
  if newSize > deal.size ∧ 0 < params.storagePrice then
    ceilDec (params.storagePrice * newInt64 (newSize - deal.size) *
      newInt64 (deal.endBlock - deal.startBlock))
  else 0

/-- What the term deposit adds to the escrow. A charge that is not positive is not paid and adds
nothing. -/
def depositPaid (params : Params) (deal : Deal) (newSize : UInt64) : Int :=
  max 0 (termDeposit params deal newSize)

/-- Pay the term deposit into the module account, when there is one. The books follow later, when
the deal is written. -/
def payTermDeposit (env : Env β) (ctx : Ctx) (payer : Bytes) (cost : Int) : Handler β Unit :=
  if 0 < cost then
    bankCall (fun b => env.bank.sendCoinsFromAccountToModule ctx b payer moduleName
      (bondCoin cost)) (errorf "failed to pay term deposit")
  else pure ()

/-- What paying the term deposit does to the bank. A deposit of zero, or one that is negative,
leaves it as it was. -/
def DepositPaid (env : Env β) (ctx : Ctx) (payer : Bytes) (cost : Int) (b b' : β) : Prop :=
  if 0 < cost then
    env.bank.sendCoinsFromAccountToModule ctx b payer moduleName (bondCoin cost) = some b'
  else b = b'

/-- A handler that goes on after the term deposit returned exactly when the deposit was paid (or was
zero) and the rest returned on the bank so charged. -/
theorem payTermDeposit_bind_ok {α : Type} {env : Env β} {ctx : Ctx} {payer : Bytes} {cost : Int}
    {g : Unit → Handler β α} {s s' : KeeperState β} {a : α} :
    (payTermDeposit env ctx payer cost >>= g).exec s = (.ok a, s') ↔
      ∃ b, DepositPaid env ctx payer cost s.bank b ∧
        (g ()).exec { s with bank := b } = (.ok a, s') := by
  by_cases hcost : 0 < cost
  · simp only [payTermDeposit, if_pos hcost, bankCall_bind_ok, DepositPaid]
  · simp only [payTermDeposit, if_neg hcost, Tx.exec_pure_bind, DepositPaid, exists_eq_left']

/-- A 48-byte root in hex, with or without `0x`. The prefix is cut once and only in lower case, as
`strings.TrimPrefix` does. -/
def decodeManifestRoot (cid : Str) : Option Bytes :=
  (hexDecode (trimPrefix cid "0x".toList)).filter (·.length = 48)

/-- The deal with new content. A new root starts a new generation; the same root leaves it, whatever
the size. -/
def commitContent (deal : Deal) (manifestRoot : Bytes) (size : UInt64) (deposit : Int) : Deal :=
  { deal with
    escrowBalance := deal.escrowBalance + deposit
    currentGen := if deal.manifestRoot ≠ manifestRoot then deal.currentGen + 1 else deal.currentGen
    manifestRoot := manifestRoot
    size := size }

/-- `UpdateDealContent`. The deposit is paid before the content is checked, and a message that fails
after it is rolled back. -/
def updateDealContent (env : Env β) (ctx : Ctx) (msg : MsgUpdateDealContent) : Handler β Unit := do
  let creatorAddr ← Tx.ofExcept
    (orFail (env.codec.accAddressFromBech32 msg.creator)
      (errInvalidAddress "invalid creator address"))
  let deal ← Tx.reads fun s =>
    orFail (s.deals.get msg.dealId.toNat)
      (errNotFound ("deal " ++ toString msg.dealId ++ " not found"))
  Tx.failIf (deal.owner ≠ msg.creator)
    (errUnauthorized ("only deal owner " ++ fmtS deal.owner ++ " can update content"))
  let params ← Tx.gets KeeperState.getParams
  payTermDeposit env ctx creatorAddr (termDeposit params deal msg.size)
  Tx.failIf (trimSpace msg.cid = []) (errInvalidRequest "new content CID cannot be empty")
  Tx.failIf (msg.size = 0) (errInvalidRequest "new content size cannot be zero")
  let manifestRoot ← Tx.ofExcept
    (orFail (decodeManifestRoot msg.cid)
      (errInvalidRequest
        ("invalid manifest root (must be 48-byte hex): " ++ fmtS msg.cid)))
  let deal' := commitContent deal manifestRoot msg.size (depositPaid params deal msg.size)
  Tx.update fun s => { s with deals := s.deals.set msg.dealId.toNat deal' }

/-- What a content update has done: the payer has paid the term deposit, and the deal has new
content. -/
structure ContentUpdated (env : Env β) (ctx : Ctx) (s s' : KeeperState β) (payer : Bytes)
    (dealId : Nat) (owner : Str) (size : UInt64) (deal : Deal) (root : Bytes) : Prop where
  get : s.deals.get dealId = some deal
  owner : deal.owner = owner
  length : root.length = 48
  bank : DepositPaid env ctx payer (termDeposit s.getParams deal size) s.bank s'.bank
  deals : s'.deals =
    s.deals.set dealId (commitContent deal root size (depositPaid s.getParams deal size))

/-- A cid that decodes is a compressed G1 point, 48 bytes long. The later proof checks rely on this
width. -/
theorem decodeManifestRoot_length {cid : Str} {root : Bytes}
    (h : decodeManifestRoot cid = some root) : root.length = 48 := by
  rw [decodeManifestRoot, Option.filter_eq_some_iff] at h
  simpa using h.2

/-- What an accepted `UpdateDealContent` did: `ContentUpdated` says it of the deal, and only the
bank and the deals changed. -/
theorem updateDealContent_ok {env : Env β} {ctx : Ctx} {msg : MsgUpdateDealContent}
    {s s' : KeeperState β} {u : Unit}
    (h : (updateDealContent env ctx msg).exec s = (.ok u, s')) :
    ∃ payer deal root, env.codec.accAddressFromBech32 msg.creator = some payer ∧
      ContentUpdated env ctx s s' payer msg.dealId.toNat msg.creator msg.size deal root ∧
      s' = { s with bank := s'.bank, deals := s'.deals } := by
  simp only [updateDealContent, Tx.exec_ofExcept_bind_ok, Tx.exec_reads_bind_ok,
    Tx.exec_failIf_bind_ok, Tx.exec_gets_bind, payTermDeposit_bind_ok, Tx.exec_update,
    orFail_eq_ok, Prod.mk.injEq, not_not] at h
  obtain ⟨payer, haddr, deal, hget, howner, b, hpaid, -, -, root, hroot, -, hs'⟩ := h
  subst hs'
  exact ⟨payer, deal, root, haddr,
    ⟨hget, howner, decodeManifestRoot_length hroot, hpaid, rfl⟩, rfl⟩

/-! ### `AddCredit` -/

/-- `AddCredit`. Anybody may add to the escrow of a deal, and the answer is the new balance. -/
def addCredit (env : Env β) (ctx : Ctx) (msg : MsgAddCredit) : Handler β Int := do
  let senderAddr ← Tx.ofExcept
    (orFail (env.codec.accAddressFromBech32 msg.creator)
      (errInvalidAddress "invalid sender address"))
  let deal ← Tx.reads fun s =>
    orFail (s.deals.get msg.dealId.toNat)
      (errNotFound ("deal " ++ toString msg.dealId ++ " not found"))
  let amount ← Tx.ofExcept (orFail msg.amount (errInvalidRequest "invalid amount"))
  Tx.failIf (amount < 0) (errInvalidRequest "invalid amount")
  bankCall (fun b => env.bank.sendCoinsFromAccountToModule ctx b senderAddr moduleName
    (bondCoin amount)) (errInsufficientFunds "failed to send coins")
  let deal' := { deal with escrowBalance := deal.escrowBalance + amount }
  Tx.update fun s => { s with deals := s.deals.set msg.dealId.toNat deal' }
  return deal'.escrowBalance

/-- What an accepted `AddCredit` did: a non-negative amount went from the creator to the module
account and the deal's escrow rose by the same amount. -/
theorem addCredit_ok {env : Env β} {ctx : Ctx} {msg : MsgAddCredit} {s s' : KeeperState β}
    {r : Int} (h : (addCredit env ctx msg).exec s = (.ok r, s')) :
    ∃ payer deal amount b, env.codec.accAddressFromBech32 msg.creator = some payer ∧
      s.deals.get msg.dealId.toNat = some deal ∧ msg.amount = some amount ∧ 0 ≤ amount ∧
      env.bank.sendCoinsFromAccountToModule ctx s.bank payer moduleName (bondCoin amount) =
        some b ∧
      r = deal.escrowBalance + amount ∧
      s' = { s with
        bank := b
        deals := s.deals.set msg.dealId.toNat
          { deal with escrowBalance := deal.escrowBalance + amount } } := by
  simp only [addCredit, Tx.exec_ofExcept_bind_ok, Tx.exec_reads_bind_ok, Tx.exec_failIf_bind_ok,
    bankCall_bind_ok, Tx.exec_update_bind, Tx.exec_pure, orFail_eq_ok, Prod.mk.injEq,
    Except.ok.injEq, not_lt] at h
  obtain ⟨payer, haddr, deal, hget, amount, hamount, hpos, b, hsend, hr, hs'⟩ := h
  exact ⟨payer, deal, amount, b, haddr, hget, hamount, hpos, hsend, hr.symm, hs'.symm⟩

/-! ### `SignalSaturation` -/

/-- The cost of one more stripe. It is the same for every number of providers that are found. -/
def elasticityCost (params : Params) : Int :=
  setUint64 params.baseStripeCost * setUint64 dealBaseReplication

/-- A saturation never costs less than nothing, so the escrow it is taken from cannot grow by it. -/
theorem elasticityCost_nonneg (params : Params) : 0 ≤ elasticityCost params := by
  rw [elasticityCost, setUint64, setUint64]
  positivity

/-- The spend window of a deal at a height: kept, or started anew. The end of the window is computed
in `uint64`, so it wraps for a window that is long enough. -/
def currentWindow (params : Params) (height : UInt64) (deal : Deal) : UInt64 × Int :=
  let start := if deal.spendWindowStartHeight = 0 then height else deal.spendWindowStartHeight
  if 0 < params.monthLenBlocks ∧ start + params.monthLenBlocks ≤ height then (height, 0)
  else (start, deal.spendWindowSpent)

/-- The deal with one more stripe of providers. Its replication counts twelve more, however many
were found. -/
def addStripe (deal : Deal) (newProviders : List Str) (cost : Int) (windowStart : UInt64)
    (windowSpent : Int) : Deal :=
  { deal with
    providers := deal.providers ++ newProviders
    currentReplication := deal.currentReplication + dealBaseReplication
    escrowBalance := deal.escrowBalance - cost
    spendWindowStartHeight := windowStart
    spendWindowSpent := windowSpent }

/-- `SignalSaturation`. Both the cap of the window and the escrow are checked before the assignment,
and the cost is taken from the escrow without a transfer. -/
def signalSaturation (env : Env β) (ctx : Ctx) (msg : MsgSignalSaturation) :
    Handler β (List Str) := do
  let deal ← Tx.reads fun s =>
    orFail (s.deals.get msg.dealId.toNat)
      (errNotFound ("deal with ID " ++ toString msg.dealId ++ " not found"))
  Tx.failIf (msg.creator ∉ deal.providers)
    (errUnauthorized "only assigned providers can signal saturation")
  let params ← Tx.gets KeeperState.getParams
  let window := currentWindow params ctx.height64 deal
  let cost := elasticityCost params
  Tx.failIf (window.2 + cost > deal.maxMonthlySpend)
    (errInvalidRequest ("scaling denied: window spend " ++ toString window.2 ++ " + cost " ++
      toString cost ++ " exceeds max monthly spend " ++ toString deal.maxMonthlySpend))
  Tx.failIf (deal.escrowBalance < cost)
    (errInvalidRequest ("scaling denied: escrow balance " ++ toString deal.escrowBalance ++
      " is below cost " ++ toString cost))
  -- a new stripe draws from an id of its own
  let derivedId := UInt64.ofNat deal.id + deal.currentReplication * 1000
  let newProviders ← Tx.reads fun s =>
    (assignProviders env derivedId ctx.lastBlockHash "Hot".toList dealBaseReplication
      s.providers).mapError (wrapf "failed to assign new hot stripe: ")
  let deal' := addStripe deal newProviders cost window.1 (window.2 + cost)
  Tx.update fun s => { s with deals := s.deals.set deal.id deal' }
  return newProviders

/-- The stripe of providers that joins a saturated deal. Its seed comes from the deal and its
replication, so each stripe has another one. -/
def newStripe (env : Env β) (ctx : Ctx) (deal : Deal) (providers : KVStore Str Provider) :
    Except Fault (List Str) :=
  assignProviders env (UInt64.ofNat deal.id + deal.currentReplication * 1000) ctx.lastBlockHash
    "Hot".toList dealBaseReplication providers

/-- The checks of a signal: a provider of the deal sends it, and the cost of a stripe is within
the cap of the spend window and within the escrow. -/
structure SaturationAdmitted (ctx : Ctx) (msg : MsgSignalSaturation) (deal : Deal)
    (params : Params) : Prop where
  listed : msg.creator ∈ deal.providers
  cap : (currentWindow params ctx.height64 deal).2 + elasticityCost params ≤ deal.maxMonthlySpend
  escrow : elasticityCost params ≤ deal.escrowBalance

/-- The deal after a signal. The window is the current one at the height, with the cost added to
it. -/
def saturatedDeal (ctx : Ctx) (params : Params) (deal : Deal) (newProviders : List Str) : Deal :=
  addStripe deal newProviders (elasticityCost params) (currentWindow params ctx.height64 deal).1
    ((currentWindow params ctx.height64 deal).2 + elasticityCost params)

/-- What an accepted `SignalSaturation` did: the guards of `SaturationAdmitted` held, the providers
answered are the new stripe, and only the deal changed. -/
theorem signalSaturation_ok {env : Env β} {ctx : Ctx} {msg : MsgSignalSaturation}
    {s s' : KeeperState β} {r : List Str}
    (h : (signalSaturation env ctx msg).exec s = (.ok r, s')) :
    ∃ deal, s.deals.get msg.dealId.toNat = some deal ∧ SaturationAdmitted ctx msg deal s.getParams ∧
      newStripe env ctx deal s.providers = .ok r ∧
      s' = { s with deals := s.deals.set deal.id (saturatedDeal ctx s.getParams deal r) } := by
  simp only [signalSaturation, Tx.exec_reads_bind_ok, Tx.exec_failIf_bind_ok, Tx.exec_gets_bind,
    Tx.exec_update_bind, Tx.exec_pure, orFail_eq_ok, mapError_eq_ok, Prod.mk.injEq,
    Except.ok.injEq, not_lt, not_not] at h
  obtain ⟨deal, hget, hmem, hcap, hcost, newProviders, hassign, rfl, hs'⟩ := h
  exact ⟨deal, hget, ⟨hmem, hcap, hcost⟩, hassign, hs'.symm⟩

end NilStore.Chain
