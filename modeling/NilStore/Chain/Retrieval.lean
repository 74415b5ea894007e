import NilStore.Chain.ChainedProof
import NilStore.Chain.EvmBridge

/-!
# `NilStore.Chain.Retrieval`: retrieval sessions

The handlers `OpenRetrievalSession`, `ConfirmRetrievalSession`, `CancelRetrievalSession` and
`SubmitRetrievalSessionProof` of `keeper/msg_server.go`. Opening a session burns the base fee
and locks the variable fee out of the deal's escrow. The owner confirms, the provider submits
proofs, in either order; the second of the two completes the session and settles the fee. An
expired session can be cancelled, which refunds the fee.

`finishSession` is the tail that confirming and submitting share.
-/

set_option autoImplicit false

namespace NilStore.Chain

open NilStore.Lib

variable {β : Type}

/-! ### Helpers -/

/-- `addUint64`: the sum, and whether it overflowed. A sum that wrapped is smaller than its first
part. -/
def addUint64 (a b : UInt64) : UInt64 × Bool := (a + b, a + b < a)

/-- `mulUint64`: the product, and whether it overflowed. A product that wrapped does not divide
back. -/
def mulUint64 (a b : UInt64) : UInt64 × Bool :=
  if a = 0 ∨ b = 0 then (0, false) else (a * b, a * b / b ≠ a)

/-- `isSessionExpired`. An expiry of zero means that there is none. -/
def isSessionExpired (ctx : Ctx) (session : RetrievalSession) : Bool :=
  session.expiresAt ≠ 0 && ctx.height64 > session.expiresAt

/-- Write a session back. The indexes keep their entries. -/
def setSession (session : RetrievalSession) (sessionId : Bytes) (s : KeeperState β) :
    KeeperState β :=
  { s with retrievalSessions := s.retrievalSessions.set sessionId session }

/-! ### Opening -/

/-- The checks of the blob range against a Mode 2 stripe. The range must lie in one MDU and in one
slot, and the slot must be the provider's. -/
def checkSlotRange (deal : Deal) (stripe : StripeParams) (msg : MsgOpenRetrievalSession) :
    Except Fault Unit := do
  let endIndex := msg.startBlobIndex.toUInt64 + msg.blobCount - 1
  rejectIf (endIndex ≥ stripe.leafCount) (errInvalidRequest "blob range exceeds leaf_count")
  let startSlot ←
    (leafSlotIndex msg.startBlobIndex.toUInt64 stripe.rows).mapError errInvalidRequest
  let endSlot ← (leafSlotIndex endIndex stripe.rows).mapError errInvalidRequest
  rejectIf (startSlot ≠ endSlot)
    (errInvalidRequest "blob range must stay within a single slot in Mode 2")
  rejectIf (providerSlotIndex deal msg.provider ≠ some startSlot)
    (errUnauthorized "provider does not match slot for blob range")

/-- The checks of the blob range against the stripe and the content of the deal. The index of the
MDU is multiplied in `uint64` without a check, and the size of the content is looked at only when
the deal records it. -/
def checkBlobRange (deal : Deal) (stripe : StripeParams) (msg : MsgOpenRetrievalSession) :
    Except Fault Unit := do
  rejectIf (msg.startBlobIndex ≥ stripe.leafCount.toUInt32)
    (errInvalidRequest "start_blob_index out of range")
  let startGlobal := msg.startMduIndex * stripe.leafCount + msg.startBlobIndex.toUInt64
  let endGlobal := addUint64 startGlobal msg.blobCount
  rejectIf endGlobal.2 (errInvalidRequest "blob range overflow")
  if stripe.mode = 2 then checkSlotRange deal stripe msg
  if deal.totalMdus ≠ 0 then do
    rejectIf (msg.startMduIndex ≥ deal.totalMdus)
      (errInvalidRequest "start_mdu_index out of range")
    rejectIf (endGlobal.1 > deal.totalMdus * stripe.leafCount)
      (errInvalidRequest "blob range exceeds deal content")

/-- What the checks of `OpenRetrievalSession` find out. The later steps do not read it again. -/
structure OpenPlan where
  deal : Deal
  totalBytes : UInt64
  ownerAddr : Bytes
  providerAddr : Bytes

/-- The checks of `OpenRetrievalSession` before it charges fees. They write nothing, so a request
that fails here leaves the state alone. -/
def checkOpen (codec : AddressCodec) (msg : MsgOpenRetrievalSession) (deals : KVStore Nat Deal) :
    Except Fault OpenPlan := do
  rejectIf (msg.manifestRoot.length ≠ 48) (errInvalidRequest "manifest_root must be 48 bytes")
  rejectIf (msg.blobCount = 0) (errInvalidRequest "blob_count must be > 0")
  let deal ← orFail (deals.get msg.dealId.toNat)
    (errNotFound ("deal with ID " ++ toString msg.dealId ++ " not found"))
  rejectIf (msg.creator ≠ deal.owner)
    (errUnauthorized "only deal owner may open retrieval sessions")
  rejectIf (deal.manifestRoot.length ≠ 48 ∨ deal.manifestRoot ≠ msg.manifestRoot)
    (errInvalidRequest "manifest_root does not match current deal state")
  rejectIf (msg.provider ∉ deal.providers)
    (errUnauthorized ("provider " ++ fmtS msg.provider ++ " is not assigned to deal " ++
      toString msg.dealId))
  let stripe ← (stripeParamsForDeal deal).mapError fun text =>
    errInvalidRequest ("invalid service hint: " ++ text)
  checkBlobRange deal stripe msg
  let totalBytes := mulUint64 msg.blobCount blobSizeBytes
  rejectIf totalBytes.2 (errInvalidRequest "total_bytes overflow")
  -- the addresses are decoded last, after all that depends on the state
  let ownerAddr ← orFail (codec.accAddressFromBech32 msg.creator)
    (errInvalidAddress "invalid creator address")
  let providerAddr ← orFail (codec.accAddressFromBech32 msg.provider)
    (errInvalidAddress "invalid provider address")
  return ⟨deal, totalBytes.1, ownerAddr, providerAddr⟩

/-- The variable fee of a session. It is locked in the session until that is settled or canceled. -/
def variableFee (params : Params) (blobCount : UInt64) : Int :=
  if params.retrievalPricePerBlob.isValid ∧ 0 < params.retrievalPricePerBlob.amount then
    params.retrievalPricePerBlob.amount * setUint64 blobCount
  else 0

/-- The fees of a session: the variable one and the base one. The escrow has to cover both. -/
def totalFee (params : Params) (blobCount : UInt64) : Int :=
  variableFee params blobCount + params.baseRetrievalFee.amount

/-- Burn the base fee, when there is one. It is taken from the module account. -/
def burnBaseFee (env : Env β) (ctx : Ctx) (params : Params) : Handler β Unit :=
  if 0 < params.baseRetrievalFee.amount then
    bankCall (fun b => env.bank.burnCoins ctx b moduleName params.baseRetrievalFee)
      (errorf "failed to burn base retrieval fee")
  else pure ()

/-- The deal after a session was paid from its escrow. Nothing else of it changes. -/
def chargedDeal (deal : Deal) (fee : Int) : Deal :=
  { deal with escrowBalance := deal.escrowBalance - fee }

/-- Charge the fees of a session to the escrow of the deal. Where there are none, the deal is not
written. -/
def chargeFees (env : Env β) (ctx : Ctx) (params : Params) (msg : MsgOpenRetrievalSession)
    (deal : Deal) : Handler β Unit :=
  if 0 < totalFee params msg.blobCount then do
    Tx.failIf (deal.escrowBalance - totalFee params msg.blobCount < 0)
      (errInsufficientFunds ("deal " ++ toString msg.dealId ++
        " escrow insufficient for retrieval fees"))
    burnBaseFee env ctx params
    Tx.update fun s =>
      { s with
        deals := s.deals.set msg.dealId.toNat
          (chargedDeal deal (totalFee params msg.blobCount)) }
  else pure ()

/-- The session that a request opens. It has the variable fee, and its two heights are that of the
opening. -/
def newSession (ctx : Ctx) (msg : MsgOpenRetrievalSession) (sessionId : Bytes)
    (totalBytes : UInt64) (fee : Int) : RetrievalSession where
  sessionId := sessionId
  dealId := msg.dealId
  owner := msg.creator
  provider := msg.provider
  manifestRoot := msg.manifestRoot
  startMduIndex := msg.startMduIndex
  startBlobIndex := msg.startBlobIndex
  blobCount := msg.blobCount
  totalBytes := totalBytes
  nonce := msg.nonce
  expiresAt := msg.expiresAt
  openedHeight := ctx.blockHeight
  updatedHeight := ctx.blockHeight
  status := .open
  lockedFee := fee

/-- The key of `RetrievalSessionNonces` for a request. It has the text of the creator, the deal and
the text of the provider. -/
def sessionNonceKey (msg : MsgOpenRetrievalSession) : (Str ×ₗ Nat) ×ₗ Str :=
  join (join msg.creator msg.dealId.toNat) msg.provider

/-- Store a session, its two index entries and its nonce. All are written in one step, after every
check. -/
def storeSession (ctx : Ctx) (msg : MsgOpenRetrievalSession) (session : RetrievalSession)
    (s : KeeperState β) : KeeperState β :=
  { s with
    retrievalSessions := s.retrievalSessions.set session.sessionId session
    retrievalSessionsByOwner :=
      s.retrievalSessionsByOwner.set (join msg.creator session.sessionId) ctx.height64
    retrievalSessionsByProvider :=
      s.retrievalSessionsByProvider.set (join msg.provider session.sessionId) ctx.height64
    retrievalSessionNonces := s.retrievalSessionNonces.set (sessionNonceKey msg) msg.nonce }

/-- The session id of a request. It is the hash of all that the request names. -/
def sessionIdOf (env : Env β) (msg : MsgOpenRetrievalSession) (plan : OpenPlan) :
    Except String Bytes :=
  hashRetrievalSessionID env.keccak256 plan.ownerAddr msg.dealId plan.providerAddr msg.manifestRoot
    msg.startMduIndex msg.startBlobIndex msg.blobCount msg.nonce msg.expiresAt

/-- `OpenRetrievalSession`. The fees are charged before the nonce is checked, and a message that
fails there is rolled back. -/
def openRetrievalSession (env : Env β) (ctx : Ctx) (msg : MsgOpenRetrievalSession) :
    Handler β Bytes := do
  let plan ← Tx.reads fun s => checkOpen env.codec msg s.deals
  let params ← Tx.gets KeeperState.getParams
  chargeFees env ctx params msg plan.deal
  let last ← Tx.gets fun s => lastNonce s.retrievalSessionNonces (sessionNonceKey msg)
  Tx.failIf (msg.nonce ≤ last) (errInvalidRequest "nonce replay rejected")
  let sessionId ← Tx.ofExcept ((sessionIdOf env msg plan).mapError fun text =>
    errInvalidRequest ("failed to compute session_id: " ++ text))
  Tx.update (storeSession ctx msg
    (newSession ctx msg sessionId plan.totalBytes (variableFee params msg.blobCount)))
  return sessionId

/-! ### Settling -/

/-- The part of a fee that is burned: the basis points, rounded up, and at most the fee. Without
basis points nothing is burned. -/
def settleBurn (params : Params) (fee : Int) : Int :=
  if 0 < params.retrievalBurnBps then
    min ((fee * setUint64 params.retrievalBurnBps + 9999) / 10000) fee
  else 0

/-- Burn a part of a fee, when there is something to burn. It is taken from the module account. -/
def burnFee (env : Env β) (ctx : Ctx) (burn : Int) : Handler β Unit :=
  if 0 < burn then
    bankCall (fun b => env.bank.burnCoins ctx b moduleName (bondCoin burn))
      (errorf "failed to burn retrieval fees")
  else pure ()

/-- Pay the provider of a session, when there is something to pay. Its address is read only then. -/
def payProvider (env : Env β) (ctx : Ctx) (provider : Str) (cut : Int) : Handler β Unit :=
  if 0 < cut then do
    let providerAddr ← Tx.ofExcept
      (orFail (env.codec.accAddressFromBech32 provider)
        (errInvalidAddress "invalid provider address"))
    bankCall (fun b => env.bank.sendCoinsFromModuleToAccount ctx b moduleName providerAddr
      (bondCoin cut)) (errorf "failed to pay retrieval fees")
  else pure ()

/-- `settleRetrievalSession`. It answers the session without its fee, which the caller stores. -/
def settleRetrievalSession (env : Env β) (ctx : Ctx) (session : RetrievalSession) :
    Handler β RetrievalSession :=
  if 0 < session.lockedFee then do
    let params ← Tx.gets KeeperState.getParams
    let burn := settleBurn params session.lockedFee
    Tx.failIf (session.lockedFee - burn < 0) (errorf "retrieval payout underflow")
    burnFee env ctx burn
    payProvider env ctx session.provider (session.lockedFee - burn)
    return { session with lockedFee := 0 }
  else return session

/-- The end of confirming and of submitting: settle when the session is complete, write it,
count the bytes. -/
def finishSession (env : Env β) (ctx : Ctx) (sessionId : Bytes) (session : RetrievalSession) :
    Handler β Unit :=
  if session.status = .completed then do
    let settled ← settleRetrievalSession env ctx session
    Tx.update (setSession settled sessionId)
    Tx.update (incrementHeat ctx session.dealId.toNat session.totalBytes false)
  else Tx.update (setSession session sessionId)

/-- The session as an expired one. Its fee stays locked until it is canceled. -/
def expireSession (ctx : Ctx) (session : RetrievalSession) : RetrievalSession :=
  { session with status := .expired, updatedHeight := ctx.blockHeight }

/-- The check that confirming and submitting share: an expired session is marked as expired,
and then the request fails. -/
def rejectExpired (ctx : Ctx) (sessionId : Bytes) (session : RetrievalSession) :
    Handler β Unit :=
  if isSessionExpired ctx session then do
    Tx.update (setSession (expireSession ctx session) sessionId)
    throw (errInvalidRequest "retrieval session expired")
  else pure ()

/-- The session that a request of a party names. The party is read off the session, and compared as
a text. -/
def partySession (sessionId : Bytes) (party : RetrievalSession → Str) (creator : Str)
    (text : String) (sessions : KVStore Bytes RetrievalSession) :
    Except Fault RetrievalSession := do
  rejectIf (sessionId.length ≠ 32) (errInvalidRequest "session_id must be 32 bytes")
  let session ← orFail (sessions.get sessionId) (errNotFound "retrieval session not found")
  rejectIf (creator ≠ party session) (errUnauthorized text)
  return session

/-! ### Confirming -/

/-- The status after the owner has confirmed. A session that is over stays so. -/
def confirmStatus : RetrievalSessionStatus → RetrievalSessionStatus
  | .open => .userConfirmed
  | .proofSubmitted => .completed
  | status => status

/-- `ConfirmRetrievalSession`. An expired session is stored as such and refused, and a completed one
is accepted without a change. -/
def confirmRetrievalSession (env : Env β) (ctx : Ctx) (msg : MsgConfirmRetrievalSession) :
    Handler β Unit := do
  let session ← Tx.reads fun s =>
    partySession msg.sessionId (·.owner) msg.creator "only session owner may confirm completion"
      s.retrievalSessions
  rejectExpired ctx msg.sessionId session
  if session.status = .completed then pure ()
  else
    finishSession env ctx msg.sessionId
      { session with status := confirmStatus session.status, updatedHeight := ctx.blockHeight }

/-! ### Cancelling -/

/-- Record that an open session got no answer from its provider. It counts as a failure of the
provider. -/
def recordNonResponse (ctx : Ctx) (reporter : Str) (session : RetrievalSession)
    (s : KeeperState β) : KeeperState β :=
  trackProviderHealth session.dealId.toNat session.provider false
    (incrementHeat ctx session.dealId.toNat 0 true
      (recordEvidenceSummary ctx session.dealId session.provider "retrieval_non_response"
        session.sessionId reporter false s))

/-- Give the locked fee back to the deal. The deal must still be there. -/
def refundFee (session : RetrievalSession) : Handler β Unit :=
  if 0 < session.lockedFee then do
    let deal ← Tx.reads fun s =>
      orFail (s.deals.get session.dealId.toNat)
        (errNotFound ("deal " ++ toString session.dealId ++ " not found"))
    Tx.update fun s =>
      { s with
        deals := s.deals.set session.dealId.toNat
          { deal with escrowBalance := deal.escrowBalance + session.lockedFee } }
  else pure ()

/-- The canceled session. It has no fee any more. -/
def canceledSession (ctx : Ctx) (session : RetrievalSession) : RetrievalSession :=
  { session with
    lockedFee := if 0 < session.lockedFee then 0 else session.lockedFee
    status := .canceled
    updatedHeight := ctx.blockHeight }

/-- `CancelRetrievalSession`. A session that was confirmed or proved is canceled as well, but only
an open one is recorded against its provider. -/
def cancelRetrievalSession (ctx : Ctx) (msg : MsgCancelRetrievalSession) : Handler β Unit := do
  let session ← Tx.reads fun s =>
    partySession msg.sessionId (·.owner) msg.creator "only session owner may cancel"
      s.retrievalSessions
  if session.status = .completed ∨ session.status = .canceled then pure ()
  else do
    Tx.failIf (¬isSessionExpired ctx session) (errInvalidRequest "retrieval session not expired")
    Tx.update (if session.status = .open then recordNonResponse ctx msg.creator session else id)
    refundFee session
    Tx.update (setSession (canceledSession ctx session) msg.sessionId)

/-! ### Submitting proofs -/

/-- The status after the provider has submitted proofs. A session that is over stays so. -/
def submitStatus : RetrievalSessionStatus → RetrievalSessionStatus
  | .open => .proofSubmitted
  | .userConfirmed => .completed
  | status => status

/-- The check of one proof of a session, at its position. MDU and blob are the quotient and the
remainder of the number. -/
def checkSessionProof (env : Env β) (deal : Deal) (stripe : StripeParams)
    (session : RetrievalSession) (expectedGlobal : UInt64) (p : ChainedProof) :
    Except Fault Unit := do
  let expectedMdu := expectedGlobal / stripe.leafCount
  let expectedBlob := expectedGlobal % stripe.leafCount
  rejectIf (p.mduIndex ≠ expectedMdu ∨ p.blobIndex.toUInt64 ≠ expectedBlob)
    (errInvalidRequest "proof mdu/blob index mismatch for session")
  if stripe.mode = 2 then do
    let slot ← (leafSlotIndex expectedBlob stripe.rows).mapError errInvalidRequest
    rejectIf (providerSlotIndex deal session.provider ≠ some slot)
      (errUnauthorized "provider does not match slot for proof")
  let ok ← (verifySessionProof env.kzgCtx deal stripe p).toExcept
    fun text => errUnauthorized ("triple proof verification error: " ++ text)
  rejectIf (¬ok) (errUnauthorized "invalid liveness proof")

/-- The loop over the proofs of a session. The number goes up by one for each of them, in
`uint64`. -/
def checkSessionProofs (env : Env β) (deal : Deal) (stripe : StripeParams)
    (session : RetrievalSession) : (expectedGlobal : UInt64) → List ChainedProof →
      Except Fault Unit
  | _, [] => .ok ()
  | expectedGlobal, p :: rest => do
      checkSessionProof env deal stripe session expectedGlobal p
      checkSessionProofs env deal stripe session (expectedGlobal + 1) rest

/-- The checks of the proofs of a session against the deal as it is now. The root must be the one
that the session was opened with, and the first number is computed in `uint64` again. -/
def checkSubmission (env : Env β) (session : RetrievalSession) (proofs : List ChainedProof)
    (deals : KVStore Nat Deal) : Except Fault Unit := do
  let deal ← orFail (deals.get session.dealId.toNat)
    (errNotFound ("deal with ID " ++ toString session.dealId ++ " not found"))
  rejectIf (deal.manifestRoot.length ≠ 48 ∨ deal.manifestRoot ≠ session.manifestRoot)
    (errInvalidRequest "deal manifest_root changed since session open")
  rejectIf (UInt64.ofNat proofs.length ≠ session.blobCount)
    (errInvalidRequest "proof count mismatch for session blob_count")
  let stripe ← (stripeParamsForDeal deal).mapError fun text =>
    errInvalidRequest ("invalid service hint: " ++ text)
  rejectIf (stripe.leafCount = 0) (.panic "integer divide by zero")
  checkSessionProofs env deal stripe session
    (session.startMduIndex * stripe.leafCount + session.startBlobIndex.toUInt64) proofs

/-- `SubmitRetrievalSessionProof`. An expired session is stored as such and refused, and a completed
one is accepted without a look at the proofs. -/
def submitRetrievalSessionProof (env : Env β) (ctx : Ctx) (msg : MsgSubmitRetrievalSessionProof) :
    Handler β Unit := do
  Tx.failIf (msg.sessionId.length = 32 ∧ msg.proofs = []) (errInvalidRequest "proofs are required")
  let session ← Tx.reads fun s =>
    partySession msg.sessionId (·.provider) msg.creator "only session provider may submit proofs"
      s.retrievalSessions
  rejectExpired ctx msg.sessionId session
  if session.status = .completed then pure ()
  else do
    Tx.reads fun s => checkSubmission env session msg.proofs s.deals
    finishSession env ctx msg.sessionId
      { session with status := submitStatus session.status, updatedHeight := ctx.blockHeight }

/-! ### What an opening did -/

/-- The checks an opening passed: the sender owns the deal, the manifest root is the deal's, the
provider serves the deal, and the range lies in the content. -/
theorem checkOpen_ok {codec : AddressCodec} {msg : MsgOpenRetrievalSession}
    {deals : KVStore Nat Deal} {plan : OpenPlan} (h : checkOpen codec msg deals = .ok plan) :
    deals.get msg.dealId.toNat = some plan.deal ∧ msg.creator = plan.deal.owner ∧
      plan.deal.manifestRoot = msg.manifestRoot ∧ msg.provider ∈ plan.deal.providers ∧
      codec.accAddressFromBech32 msg.creator = some plan.ownerAddr ∧
      codec.accAddressFromBech32 msg.provider = some plan.providerAddr := by
  simp only [checkOpen, except_bind_ok, rejectIf_eq_ok, orFail_eq_ok, mapError_eq_ok, not_or,
    not_not] at h
  obtain ⟨_, -, _, -, deal, hget, _, howner, _, ⟨-, hroot⟩, _, hmem, stripe, -, _, -, _, -, owner,
    hownerAddr, provider, hproviderAddr, hplan⟩ := h
  cases hplan
  exact ⟨hget, howner, hroot, hmem, hownerAddr, hproviderAddr⟩

/-- What charging the fees did: the base fee is burned, and the escrow has paid both fees. Nothing
is written besides the bank and the deal. -/
structure FeesCharged (env : Env β) (ctx : Ctx) (params : Params) (msg : MsgOpenRetrievalSession)
    (deal : Deal) (s s' : KeeperState β) : Prop where
  affordable : 0 < totalFee params msg.blobCount →
    totalFee params msg.blobCount ≤ deal.escrowBalance
  bank : if 0 < totalFee params msg.blobCount ∧ 0 < params.baseRetrievalFee.amount then
      env.bank.burnCoins ctx s.bank moduleName params.baseRetrievalFee = some s'.bank
    else s'.bank = s.bank
  deals : s'.deals =
    if 0 < totalFee params msg.blobCount then
      s.deals.set msg.dealId.toNat (chargedDeal deal (totalFee params msg.blobCount))
    else s.deals
  frame : s' = { s with bank := s'.bank, deals := s'.deals }

/-- What charging the fees of an opening did to the deal and the bank, as `FeesCharged` puts it. -/
theorem chargeFees_ok {env : Env β} {ctx : Ctx} {params : Params} {msg : MsgOpenRetrievalSession}
    {deal : Deal} {s s' : KeeperState β} {u : Unit}
    (h : (chargeFees env ctx params msg deal).exec s = (.ok u, s')) :
    FeesCharged env ctx params msg deal s s' := by
  rw [chargeFees, Tx.exec_ite] at h
  by_cases htotal : 0 < totalFee params msg.blobCount
  · simp only [if_pos htotal, Tx.exec_failIf_bind_ok, not_lt] at h
    obtain ⟨hescrow, h⟩ := h
    have haffordable : totalFee params msg.blobCount ≤ deal.escrowBalance := by omega
    by_cases hbase : 0 < params.baseRetrievalFee.amount
    · simp only [burnBaseFee, if_pos hbase, bankCall_bind_ok, Tx.exec_update, Prod.mk.injEq] at h
      obtain ⟨b, hburn, -, rfl⟩ := h
      exact ⟨fun _ => haffordable, by rwa [if_pos ⟨htotal, hbase⟩], by rw [if_pos htotal], rfl⟩
    · simp only [burnBaseFee, if_neg hbase, Tx.exec_pure_bind, Tx.exec_update, Prod.mk.injEq] at h
      obtain ⟨-, rfl⟩ := h
      exact ⟨fun _ => haffordable, by rw [if_neg fun hc => hbase hc.2], by rw [if_pos htotal], rfl⟩
  · simp only [if_neg htotal, Tx.exec_pure, Prod.mk.injEq] at h
    obtain ⟨-, rfl⟩ := h
    exact ⟨fun hpos => absurd hpos htotal, by rw [if_neg fun hc => htotal hc.1],
      by rw [if_neg htotal], rfl⟩

/-- What a successful opening did: the fees are charged, and a session of a new nonce is stored
under its id. -/
structure SessionOpened (env : Env β) (ctx : Ctx) (msg : MsgOpenRetrievalSession)
    (s s' : KeeperState β) (plan : OpenPlan) (sessionId : Bytes) : Prop where
  plan_eq : checkOpen env.codec msg s.deals = .ok plan
  nonce_lt : lastNonce s.retrievalSessionNonces (sessionNonceKey msg) < msg.nonce
  sessionId_eq : sessionIdOf env msg plan = .ok sessionId
  charged : ∃ s₁, FeesCharged env ctx s.getParams msg plan.deal s s₁ ∧
    s' = storeSession ctx msg
      (newSession ctx msg sessionId plan.totalBytes (variableFee s.getParams msg.blobCount)) s₁

/-- What an accepted `OpenRetrievalSession` did: the plan it was checked into, and the session
opened by it. -/
theorem openRetrievalSession_ok {env : Env β} {ctx : Ctx} {msg : MsgOpenRetrievalSession}
    {s s' : KeeperState β} {sessionId : Bytes}
    (h : (openRetrievalSession env ctx msg).exec s = (.ok sessionId, s')) :
    ∃ plan, SessionOpened env ctx msg s s' plan sessionId := by
  simp only [openRetrievalSession, Tx.exec_reads_bind_ok, Tx.exec_gets_bind] at h
  obtain ⟨plan, hplan, h⟩ := h
  rw [Tx.exec_bind_ok] at h
  obtain ⟨_, s₁, hfees, h⟩ := h
  have hcharged := chargeFees_ok hfees
  simp only [Tx.exec_gets_bind, Tx.exec_failIf_bind_ok, Tx.exec_ofExcept_bind_ok,
    Tx.exec_update_bind, Tx.exec_pure, mapError_eq_ok, Prod.mk.injEq, Except.ok.injEq] at h
  obtain ⟨hnonce, sid, hsid, rfl, rfl⟩ := h
  -- Charging fees does not touch the nonces.
  rw [hcharged.frame] at hnonce
  exact ⟨plan, hplan, UInt64.not_le.mp hnonce, hsid, s₁, hcharged, rfl⟩

/-! ### What a settlement did -/

/-- What settling a fee did to the bank: a part is burned, the rest goes to the provider. Either
part may be zero. -/
structure FeeSettled (env : Env β) (ctx : Ctx) (burn cut : Int) (provider : Str) (b b' : β) :
    Prop where
  paid : ∃ b₁,
    (if 0 < burn then env.bank.burnCoins ctx b moduleName (bondCoin burn) = some b₁ else b₁ = b) ∧
    (if 0 < cut then
      ∃ addr, env.codec.accAddressFromBech32 provider = some addr ∧
        env.bank.sendCoinsFromModuleToAccount ctx b₁ moduleName addr (bondCoin cut) = some b'
    else b' = b₁)

/-- A handler that goes on after the burn returned exactly when the bank burned the fee (or it was
zero) and the rest returned. -/
theorem burnFee_bind_ok {α : Type} {env : Env β} {ctx : Ctx} {burn : Int}
    {g : Unit → Handler β α} {s s' : KeeperState β} {a : α} :
    (burnFee env ctx burn >>= g).exec s = (.ok a, s') ↔
      ∃ b, (if 0 < burn then env.bank.burnCoins ctx s.bank moduleName (bondCoin burn) = some b
          else b = s.bank) ∧
        (g ()).exec { s with bank := b } = (.ok a, s') := by
  by_cases hburn : 0 < burn
  · simp only [burnFee, if_pos hburn, bankCall_bind_ok]
  · simp only [burnFee, if_neg hburn, Tx.exec_pure_bind, exists_eq_left]

/-- What paying the provider did: a positive cut went to the address of the provider's text, and
only the bank changed. -/
theorem payProvider_ok {env : Env β} {ctx : Ctx} {provider : Str} {cut : Int}
    {s s' : KeeperState β} {u : Unit}
    (h : (payProvider env ctx provider cut).exec s = (.ok u, s')) :
    (if 0 < cut then
      ∃ addr, env.codec.accAddressFromBech32 provider = some addr ∧
        env.bank.sendCoinsFromModuleToAccount ctx s.bank moduleName addr (bondCoin cut) =
          some s'.bank
      else s'.bank = s.bank) ∧ s' = { s with bank := s'.bank } := by
  rw [payProvider, Tx.exec_ite] at h
  by_cases hcut : 0 < cut
  · simp only [if_pos hcut, Tx.exec_ofExcept_bind_ok, orFail_eq_ok, bankCall_ok] at h
    obtain ⟨addr, haddr, b, hsend, rfl⟩ := h
    rw [if_pos hcut]
    exact ⟨⟨addr, haddr, hsend⟩, rfl⟩
  · simp only [if_neg hcut, Tx.exec_pure, Prod.mk.injEq] at h
    obtain ⟨-, rfl⟩ := h
    rw [if_neg hcut]
    exact ⟨rfl, rfl⟩

/-- What settling a session did. A positive fee is burned in part and paid to the provider for the
rest, and the session that is returned has no fee left. Where no fee is locked, nothing happens. -/
theorem settleRetrievalSession_ok {env : Env β} {ctx : Ctx} {session settled : RetrievalSession}
    {s s' : KeeperState β}
    (h : (settleRetrievalSession env ctx session).exec s = (.ok settled, s')) :
    s' = { s with bank := s'.bank } ∧
      (0 < session.lockedFee ∧ settled = { session with lockedFee := 0 } ∧
          FeeSettled env ctx (settleBurn s.getParams session.lockedFee)
            (session.lockedFee - settleBurn s.getParams session.lockedFee) session.provider
            s.bank s'.bank ∨
        session.lockedFee ≤ 0 ∧ settled = session ∧ s' = s) := by
  rw [settleRetrievalSession, Tx.exec_ite] at h
  -- a fee that is locked is burned in part and paid for the rest; without one nothing is done
  by_cases hfee : 0 < session.lockedFee
  · simp only [if_pos hfee, Tx.exec_gets_bind, Tx.exec_failIf_bind_ok, burnFee_bind_ok] at h
    obtain ⟨-, b, hburn, h⟩ := h
    rw [Tx.exec_bind_ok] at h
    obtain ⟨_, s₁, hpay, h⟩ := h
    simp only [Tx.exec_pure, Prod.mk.injEq, Except.ok.injEq] at h
    obtain ⟨rfl, rfl⟩ := h
    obtain ⟨hpaid, hframe⟩ := payProvider_ok hpay
    refine ⟨?_, Or.inl ⟨hfee, rfl, ⟨b, hburn, hpaid⟩⟩⟩
    rw [hframe]
  · simp only [if_neg hfee, Tx.exec_pure, Prod.mk.injEq, Except.ok.injEq] at h
    obtain ⟨rfl, rfl⟩ := h
    exact ⟨rfl, Or.inr ⟨not_lt.mp hfee, rfl, rfl⟩⟩

/-- What finishing a session did: a complete one with a fee is settled and counted, another is
written as it is. -/
inductive Finished (env : Env β) (ctx : Ctx) (sessionId : Bytes) (session : RetrievalSession)
    (s : KeeperState β) : KeeperState β → Prop where
  /-- A complete session whose fee is paid out. -/
  | settled {b : β} (hstatus : session.status = .completed) (hfee : 0 < session.lockedFee)
      (hpaid : FeeSettled env ctx (settleBurn s.getParams session.lockedFee)
        (session.lockedFee - settleBurn s.getParams session.lockedFee) session.provider s.bank b) :
      Finished env ctx sessionId session s
        (incrementHeat ctx session.dealId.toNat session.totalBytes false
          (setSession { session with lockedFee := 0 } sessionId { s with bank := b }))
  /-- A complete session without a fee. -/
  | free (hstatus : session.status = .completed) (hfee : session.lockedFee ≤ 0) :
      Finished env ctx sessionId session s
        (incrementHeat ctx session.dealId.toNat session.totalBytes false
          (setSession session sessionId s))
  /-- A session that is not complete yet. -/
  | pending (hstatus : session.status ≠ .completed) :
      Finished env ctx sessionId session s (setSession session sessionId s)

/-- What finishing a session did: the locked fee split into the burn and the provider's cut, and the
session marked as completed. -/
theorem finishSession_ok {env : Env β} {ctx : Ctx} {sessionId : Bytes} {session : RetrievalSession}
    {s s' : KeeperState β} {u : Unit}
    (h : (finishSession env ctx sessionId session).exec s = (.ok u, s')) :
    Finished env ctx sessionId session s s' := by
  rw [finishSession, Tx.exec_ite] at h
  by_cases hstatus : session.status = .completed
  · rw [if_pos hstatus, Tx.exec_bind_ok] at h
    obtain ⟨settled, s₁, hsettle, h⟩ := h
    simp only [Tx.exec_update_bind, Tx.exec_update, Prod.mk.injEq, true_and] at h
    subst h
    obtain ⟨hframe, hcase⟩ := settleRetrievalSession_ok hsettle
    rcases hcase with ⟨hfee, rfl, hpaid⟩ | ⟨hfee, rfl, rfl⟩
    · rw [hframe]
      exact .settled hstatus hfee hpaid
    · exact .free hstatus hfee
  · simp only [if_neg hstatus, Tx.exec_update, Prod.mk.injEq, true_and] at h
    subst h
    exact .pending hstatus

/-! ### What confirming, submitting and cancelling did -/

/-- The session a party's message names exists and names the sender as that party. -/
theorem partySession_ok {sessionId : Bytes} {party : RetrievalSession → Str} {creator : Str}
    {text : String} {sessions : KVStore Bytes RetrievalSession} {session : RetrievalSession}
    (h : partySession sessionId party creator text sessions = .ok session) :
    sessions.get sessionId = some session ∧ creator = party session := by
  simp only [partySession, except_bind_ok, rejectIf_eq_ok, orFail_eq_ok, not_not] at h
  obtain ⟨_, -, found, hget, _, hparty, hfound⟩ := h
  cases hfound
  exact ⟨hget, hparty⟩

/-- A handler that goes on after the expiry check returned exactly when the session has not expired
and the rest returned. The check changes nothing then. -/
theorem rejectExpired_bind_ok {α : Type} {ctx : Ctx} {sessionId : Bytes}
    {session : RetrievalSession} {g : Unit → Handler β α} {s s' : KeeperState β} {a : α} :
    (rejectExpired ctx sessionId session >>= g).exec s = (.ok a, s') ↔
      isSessionExpired ctx session = false ∧ (g ()).exec s = (.ok a, s') := by
  by_cases hexp : isSessionExpired ctx session
  · rw [rejectExpired, if_pos hexp, Tx.exec_bind, Tx.exec_update_bind, Tx.exec_throw]
    simp [hexp]
  · rw [rejectExpired, if_neg hexp, Tx.exec_pure_bind]
    simp [hexp]

/-- A party has moved a session on: it was not expired, and it was either complete already, or
its status has changed by `next` and the session was finished. -/
inductive Advanced (env : Env β) (ctx : Ctx) (sessionId : Bytes)
    (next : RetrievalSessionStatus → RetrievalSessionStatus) (session : RetrievalSession)
    (s : KeeperState β) : KeeperState β → Prop where
  | unchanged (hstatus : session.status = .completed) :
      Advanced env ctx sessionId next session s s
  | moved {s' : KeeperState β} (hstatus : session.status ≠ .completed)
      (hfinished : Finished env ctx sessionId
        { session with status := next session.status, updatedHeight := ctx.blockHeight } s s') :
      Advanced env ctx sessionId next session s s'

/-- What an accepted `ConfirmRetrievalSession` did: the sender owns a session that has not expired,
and the session advanced by the confirmation. -/
theorem confirmRetrievalSession_ok {env : Env β} {ctx : Ctx} {msg : MsgConfirmRetrievalSession}
    {s s' : KeeperState β} {u : Unit}
    (h : (confirmRetrievalSession env ctx msg).exec s = (.ok u, s')) :
    ∃ session, s.retrievalSessions.get msg.sessionId = some session ∧
      msg.creator = session.owner ∧ isSessionExpired ctx session = false ∧
      Advanced env ctx msg.sessionId confirmStatus session s s' := by
  simp only [confirmRetrievalSession, Tx.exec_reads_bind_ok, rejectExpired_bind_ok] at h
  obtain ⟨session, hsession, hexp, h⟩ := h
  obtain ⟨hget, howner⟩ := partySession_ok hsession
  refine ⟨session, hget, howner, hexp, ?_⟩
  rw [Tx.exec_ite] at h
  by_cases hstatus : session.status = .completed
  · simp only [if_pos hstatus, Tx.exec_pure, Prod.mk.injEq, true_and] at h
    subst h
    exact .unchanged hstatus
  · rw [if_neg hstatus] at h
    exact .moved hstatus (finishSession_ok h)

/-- What an accepted `SubmitRetrievalSessionProof` did: the sender is the provider of a session that
has not expired, every blob was proved unless it was completed already, and the session advanced. -/
theorem submitRetrievalSessionProof_ok {env : Env β} {ctx : Ctx}
    {msg : MsgSubmitRetrievalSessionProof} {s s' : KeeperState β} {u : Unit}
    (h : (submitRetrievalSessionProof env ctx msg).exec s = (.ok u, s')) :
    ∃ session, s.retrievalSessions.get msg.sessionId = some session ∧
      msg.creator = session.provider ∧ isSessionExpired ctx session = false ∧
      (session.status ≠ .completed →
        checkSubmission env session msg.proofs s.deals = .ok ()) ∧
      Advanced env ctx msg.sessionId submitStatus session s s' := by
  simp only [submitRetrievalSessionProof, Tx.exec_failIf_bind_ok, Tx.exec_reads_bind_ok,
    rejectExpired_bind_ok] at h
  obtain ⟨-, session, hsession, hexp, h⟩ := h
  obtain ⟨hget, hprovider⟩ := partySession_ok hsession
  refine ⟨session, hget, hprovider, hexp, ?_⟩
  rw [Tx.exec_ite] at h
  by_cases hstatus : session.status = .completed
  · simp only [if_pos hstatus, Tx.exec_pure, Prod.mk.injEq, true_and] at h
    subst h
    exact ⟨fun hne => absurd hstatus hne, .unchanged hstatus⟩
  · rw [if_neg hstatus, Tx.exec_reads_bind_ok] at h
    obtain ⟨⟨⟩, hcheck, h⟩ := h
    exact ⟨fun _ => hcheck, .moved hstatus (finishSession_ok h)⟩

/-- Only the proof summaries, the heat and the failure counters have changed. That is the frame of
the evidence. -/
def EvidenceOnly (s s' : KeeperState β) : Prop :=
  s' = { s with
    proofCount := s'.proofCount
    proofs := s'.proofs
    dealHeatStates := s'.dealHeatStates
    dealProviderFailures := s'.dealProviderFailures }

/-- What a successful cancellation did: nothing to a session that was over, else the fee of an
expired session is back in the escrow and the session is canceled. -/
inductive Canceled (ctx : Ctx) (sessionId : Bytes) (session : RetrievalSession)
    (s : KeeperState β) : KeeperState β → Prop where
  | unchanged (hstatus : session.status = .completed ∨ session.status = .canceled) :
      Canceled ctx sessionId session s s
  | refunded {s₁ : KeeperState β} {deal : Deal}
      (hstatus : session.status ≠ .completed ∧ session.status ≠ .canceled)
      (hexp : isSessionExpired ctx session = true) (hfee : 0 < session.lockedFee)
      (hget : s.deals.get session.dealId.toNat = some deal) (hevidence : EvidenceOnly s s₁) :
      Canceled ctx sessionId session s
        (setSession (canceledSession ctx session) sessionId
          { s₁ with
            deals := s.deals.set session.dealId.toNat
              { deal with escrowBalance := deal.escrowBalance + session.lockedFee } })
  | free {s₁ : KeeperState β}
      (hstatus : session.status ≠ .completed ∧ session.status ≠ .canceled)
      (hexp : isSessionExpired ctx session = true) (hfee : session.lockedFee ≤ 0)
      (hevidence : EvidenceOnly s s₁) :
      Canceled ctx sessionId session s (setSession (canceledSession ctx session) sessionId s₁)

/-- What an accepted `CancelRetrievalSession` did: the sender owns the session, and `Canceled` says
what was given back. -/
theorem cancelRetrievalSession_ok {ctx : Ctx} {msg : MsgCancelRetrievalSession}
    {s s' : KeeperState β} {u : Unit}
    (h : (cancelRetrievalSession ctx msg).exec s = (.ok u, s')) :
    ∃ session, s.retrievalSessions.get msg.sessionId = some session ∧
      msg.creator = session.owner ∧ Canceled ctx msg.sessionId session s s' := by
  simp only [cancelRetrievalSession, Tx.exec_reads_bind_ok] at h
  obtain ⟨session, hsession, h⟩ := h
  obtain ⟨hget, howner⟩ := partySession_ok hsession
  refine ⟨session, hget, howner, ?_⟩
  -- a session that is over stays as it is; another one must have expired
  rw [Tx.exec_ite] at h
  by_cases hover : session.status = .completed ∨ session.status = .canceled
  · simp only [if_pos hover, Tx.exec_pure, Prod.mk.injEq, true_and] at h
    subst h
    exact .unchanged hover
  · simp only [if_neg hover, Tx.exec_failIf_bind_ok, not_not, Tx.exec_update_bind] at h
    obtain ⟨hexp, h⟩ := h
    have hevidence : EvidenceOnly s
        ((if session.status = .open then recordNonResponse ctx msg.creator session else id) s) := by
      split <;> rfl
    generalize (if session.status = .open then recordNonResponse ctx msg.creator session
      else id) s = s₁ at h hevidence
    -- a locked fee goes back to the escrow; the status is written in any case
    by_cases hfee : 0 < session.lockedFee
    · simp only [refundFee, if_pos hfee] at h
      rw [Tx.exec_bind_ok] at h
      obtain ⟨_, s₂, hrefund, hlast⟩ := h
      simp only [Tx.exec_reads_bind_ok, Tx.exec_update, orFail_eq_ok, Prod.mk.injEq,
        true_and] at hrefund hlast
      obtain ⟨deal, hdeal, rfl⟩ := hrefund
      subst hlast
      have hdeals : s₁.deals = s.deals := by rw [hevidence]
      rw [hdeals] at hdeal ⊢
      exact .refunded (not_or.mp hover) hexp hfee hdeal hevidence
    · simp only [refundFee, if_neg hfee, Tx.exec_pure_bind, Tx.exec_update, Prod.mk.injEq,
        true_and] at h
      subst h
      exact .free (not_or.mp hover) hexp (not_lt.mp hfee) hevidence

end NilStore.Chain
