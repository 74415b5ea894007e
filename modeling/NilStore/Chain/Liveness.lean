import NilStore.Chain.ChainedProof
import NilStore.Chain.EvmBridge

/-!
# `NilStore.Chain.Liveness`: `ProveLiveness`

The handler `ProveLiveness` of `keeper/msg_server.go`. A provider proves a deal with a system
proof, with one or many receipts signed by the owner, or with a session receipt over many
chunks. Receipts and sessions are charged to the deal's escrow; every success is rewarded and
sets the provider's proof status.

The handler reads the deal once and writes it back at the end. In between it writes to the
stores of receipt nonces and of heat only (`handleProof_keeps`), so `proveLiveness_ok` can say
what a successful run did to every other store.
-/

set_option autoImplicit false

namespace NilStore.Chain

open NilStore.Lib

variable {β : Type}

/-! ### Tier and reward -/

/-- A tier of a proof: its number, its share of the reward, and its name in the summary. The reward
multiplier is in units of `10 ^ -18`, as in `math.LegacyDec`. -/
structure Tier where
  tier : UInt32
  rewardMultiplier : Int
  tierName : String
deriving DecidableEq

/-- The tier of a proof by its latency in blocks. A negative latency is the best one. -/
def tierOfLatency (latency : Int) : Tier :=
  if latency ≤ 1 then ⟨0, 10 ^ 18, "Platinum"⟩
  else if latency ≤ 5 then ⟨1, 8 * 10 ^ 17, "Gold"⟩
  else if latency ≤ 10 then ⟨2, 5 * 10 ^ 17, "Silver"⟩
  else ⟨3, 0, "Fail"⟩

/-- The storage reward: the base reward, halved once for each interval, times the
multiplier. -/
def storageReward (height halvingInterval : UInt64) (rewardMultiplier : Int) : Int :=
  let decayFactor := (height / halvingInterval).toNat
  let decayedReward : Int := if 64 ≤ decayFactor then 0 else 1000000 / 2 ^ decayFactor
  decayedReward * rewardMultiplier / 10 ^ 18

/-- The bandwidth payment: one unit for each KiB, rounded up, and at least one. The rounding adds in
`uint64`, so it wraps at the top. -/
def bandwidthPayment (bandwidthBytes : UInt64) : Int :=
  let units := (bandwidthBytes + 1024 - 1) / 1024
  setUint64 (if units = 0 then 1 else units)

/-- Raise the reputation of a registered provider. Nobody else has one. -/
def raiseReputation (provider : Str) (s : KeeperState β) : KeeperState β :=
  match s.providers.get provider with
  | none => s
  | some p =>
      { s with
        providers := s.providers.set provider { p with reputationScore := p.reputationScore + 1 } }

/-- A proof in time raises the reputation. It does so before the proof is verified. -/
def rewardTier (tier : Tier) (provider : Str) : KeeperState β → KeeperState β :=
  if tier.tier < 3 then raiseReputation provider else id

/-! ### Who may prove -/

/-- The provider maps to a slot of the deal that is being repaired. Only a Mode 2 deal with a
profile and slots has any. -/
def slotRepairing (deal : Deal) (stripe : StripeParams) (provider : Str) : Bool :=
  stripe.mode == 2 && deal.mode2Profile.isSome && !deal.mode2Slots.isEmpty &&
    match providerSlotIndex deal provider with
    | none => false
    | some i => (deal.mode2Slots[i.toNat]?).any (·.status == .repairing)

/-! ### Receipts -/

/-- What a proof handler reads besides the state. The deal, the stripe and the params are looked up
once and are not read again. -/
structure ProofCall (β : Type) where
  env : Env β
  ctx : Ctx
  params : Params
  deal : Deal
  stripe : StripeParams
  msg : MsgProveLiveness

/-- The proof passes the verification, or the sender is told why not. Receipts need a proof that
verifies, so a failure ends the call. -/
def ProofCall.requireProof (c : ProofCall β) (proof : ChainedProof) : Except Fault Unit := do
  let ok ← (verifyLivenessProof c.env.kzgCtx c.deal c.stripe c.msg.creator proof).toExcept
    fun text => errUnauthorized ("triple proof verification error: " ++ text)
  rejectIf (¬ok) (errUnauthorized "invalid liveness proof")

/-- The checks of the envelope that receipts and session receipts share. Their errors differ in the
name of the receipt alone. -/
def ProofCall.checkEnvelope (c : ProofCall β) (name : String) (dealId epochId : UInt64)
    (provider filePath : Str) : Except Fault Unit := do
  rejectIf (dealId ≠ c.msg.dealId) (errInvalidRequest (name ++ ".deal_id must match msg.deal_id"))
  rejectIf (epochId ≠ c.msg.epochId)
    (errInvalidRequest (name ++ ".epoch_id must match msg.epoch_id"))
  rejectIf (provider ≠ c.msg.creator) (errUnauthorized (name ++ ".provider must match msg.creator"))
  rejectIf (trimSpace filePath = []) (errInvalidRequest (name ++ ".file_path is required"))
  rejectIf (filePath ≠ trimSpace filePath)
    (errInvalidRequest (name ++ ".file_path must be trimmed (no leading/trailing whitespace)"))

/-- The expiry and the nonce of a receipt. An expiry of zero means none, and the nonce is that of
the deal and the path. -/
def ProofCall.checkFresh (c : ProofCall β) (name : String) (expiresAt nonce : UInt64)
    (filePath : Str) (nonces : KVStore (Nat ×ₗ Str) UInt64) : Except Fault Unit := do
  rejectIf (expiresAt ≠ 0 ∧ c.ctx.height64 > expiresAt) (errUnauthorized (name ++ " expired"))
  rejectIf (nonce ≤ lastNonce nonces (join c.msg.dealId.toNat filePath))
    (errUnauthorized (name ++ " nonce must be strictly increasing"))

/-- The digest that an EVM owner signs for a receipt. Its domain is the one of the intents. -/
def ProofCall.digest (c : ProofCall β) (structHash : Bytes) : Bytes :=
  intentDigest c.env c.params structHash

/-- The message that an owner signs with a Cosmos key. Its texts are put in without a length or a
separator. -/
def receiptSignBytes (keccak256 : Bytes → Bytes) (receipt : RetrievalReceipt) : Bytes :=
  uint64ToBigEndian receipt.dealId ++ uint64ToBigEndian receipt.epochId ++
    utf8 receipt.provider ++ utf8 receipt.filePath ++ uint64ToBigEndian receipt.rangeStart ++
    uint64ToBigEndian receipt.rangeLen ++ uint64ToBigEndian receipt.bytesServed ++
    uint64ToBigEndian receipt.nonce ++ uint64ToBigEndian receipt.expiresAt ++
    hashChainedProof keccak256 receipt.proofDetails

/-- The owner's signature of a receipt: EIP-712 first, then the key of the owner's account. A
signature that recovers to somebody else is tried with the key as well. -/
def ProofCall.checkReceiptSignature (c : ProofCall β) (receipt : RetrievalReceipt) :
    Except Fault Unit := do
  let evmAddr := recoverEvmAddressFromDigest c.env
    (c.digest (hashRetrievalReceiptV3 c.env.keccak256 receipt)) receipt.userSignature
  if evmAddr.any fun addr => c.env.codec.accAddressString addr = c.deal.owner then
    return ()
  let ownerAddr ← orFail (c.env.codec.accAddressFromBech32 c.deal.owner)
    (errorf "invalid owner address")
  let account ← orFail (c.env.getAccount c.ctx ownerAddr)
    (errUnauthorized ("owner account " ++ fmtS c.deal.owner ++ " not found"))
  rejectIf (¬account.verifySignature.any fun verify =>
      verify (receiptSignBytes c.env.keccak256 receipt) receipt.userSignature)
    (errUnauthorized "invalid retrieval receipt signature")

/-- The checks of `verifyRetrievalReceipt`. They read the nonces and write nothing. -/
def ProofCall.checkReceipt (c : ProofCall β) (receipt : RetrievalReceipt)
    (nonces : KVStore (Nat ×ₗ Str) UInt64) : Except Fault Unit := do
  c.checkEnvelope "receipt" receipt.dealId receipt.epochId receipt.provider receipt.filePath
  rejectIf (receipt.rangeLen = 0) (errInvalidRequest "receipt.range_len must be non-zero")
  rejectIf (receipt.bytesServed ≠ receipt.rangeLen)
    (errInvalidRequest "receipt.bytes_served must equal receipt.range_len")
  c.checkFresh "retrieval receipt" receipt.expiresAt receipt.nonce receipt.filePath nonces
  c.requireProof receipt.proofDetails
  c.checkReceiptSignature receipt

/-- `verifyRetrievalReceipt`, with the bytes counted so far; the bytes after it. The nonce is stored
before the sum is checked. -/
def ProofCall.verifyRetrievalReceipt (c : ProofCall β) (bandwidthBytes : UInt64)
    (receipt : RetrievalReceipt) : Handler β UInt64 := do
  Tx.reads fun s => c.checkReceipt receipt s.receiptNoncesByDealFile
  Tx.update fun s =>
    { s with
      receiptNoncesByDealFile :=
        s.receiptNoncesByDealFile.set (join receipt.dealId.toNat receipt.filePath) receipt.nonce }
  Tx.failIf (bandwidthBytes > bandwidthBytes + receipt.bytesServed)
    (errInvalidRequest "receipt bytes overflow")
  Tx.update (incrementHeat c.ctx c.deal.id receipt.bytesServed false)
  return bandwidthBytes + receipt.bytesServed

/-- The loop over a batch of receipts. Each one sees the nonces that those before it have stored. -/
def ProofCall.verifyReceipts (c : ProofCall β) :
    (bandwidthBytes : UInt64) → List RetrievalReceipt → Handler β UInt64
  | bandwidthBytes, [] => pure bandwidthBytes
  | bandwidthBytes, receipt :: rest => do
      let bandwidthBytes ← c.verifyRetrievalReceipt bandwidthBytes receipt
      c.verifyReceipts bandwidthBytes rest

/-! ### Session receipts -/

/-- The checks of one chunk of a session. The index of the leaf must be new and in range, and both
the proof and the path must verify. -/
def ProofCall.checkChunk (c : ProofCall β) (receipt : DownloadSessionReceipt)
    (seenLeaves : List UInt32) (chunk : SessionChunkProof) : Except Fault Unit := do
  rejectIf (chunk.rangeLen = 0) (errInvalidRequest "session chunk range_len must be non-zero")
  rejectIf (chunk.leafIndex ≥ receipt.chunkCount.toUInt32)
    (errInvalidRequest "session chunk leaf_index out of bounds")
  rejectIf (chunk.leafIndex ∈ seenLeaves) (errInvalidRequest "duplicate session chunk leaf_index")
  c.requireProof chunk.proofDetails
  let leaf := hashSessionLeaf c.env.keccak256 chunk.rangeStart chunk.rangeLen
    (hashChainedProof c.env.keccak256 chunk.proofDetails)
  rejectIf (¬verifyKeccakMerklePath c.env.keccak256 (bytesToWidth 32 receipt.chunkLeafRoot) leaf
      chunk.leafIndex chunk.merklePath)
    (errUnauthorized "invalid session chunk merkle proof")

/-- The loop over the chunks of a session. `bandwidthBytes` and `totalBytes` start at zero and
grow together, so one counter does for both. -/
def ProofCall.verifyChunks (c : ProofCall β) (receipt : DownloadSessionReceipt) :
    (seenLeaves : List UInt32) → (totalBytes : UInt64) → List SessionChunkProof →
      Handler β UInt64
  | _, totalBytes, [] => pure totalBytes
  | seenLeaves, totalBytes, chunk :: rest => do
      Tx.ofExcept (c.checkChunk receipt seenLeaves chunk)
      Tx.failIf (totalBytes > totalBytes + chunk.rangeLen)
        (errInvalidRequest "session bytes overflow")
      Tx.update (incrementHeat c.ctx c.deal.id chunk.rangeLen false)
      c.verifyChunks receipt (chunk.leafIndex :: seenLeaves) (totalBytes + chunk.rangeLen) rest

/-- The checks of a session receipt before its chunks. Its signature must be one of an EVM owner. -/
def ProofCall.checkSessionReceipt (c : ProofCall β) (proof : RetrievalSessionProof)
    (nonces : KVStore (Nat ×ₗ Str) UInt64) : Except Fault Unit := do
  let receipt := proof.sessionReceipt
  c.checkEnvelope "session_receipt" receipt.dealId receipt.epochId receipt.provider
    receipt.filePath
  rejectIf (receipt.totalBytes = 0)
    (errInvalidRequest "session_receipt.total_bytes must be non-zero")
  rejectIf (receipt.chunkCount = 0)
    (errInvalidRequest "session_receipt.chunk_count must be non-zero")
  rejectIf (receipt.chunkLeafRoot.length ≠ 32)
    (errInvalidRequest "session_receipt.chunk_leaf_root must be 32 bytes")
  -- not expired, and a nonce above the last one for this file
  c.checkFresh "download session receipt" receipt.expiresAt receipt.nonce receipt.filePath nonces
  rejectIf (receipt.userSignature.length ≠ 65)
    (errUnauthorized "invalid user signature length (expected 65 bytes)")
  let evmAddr ← orFail
    (recoverEvmAddressFromDigest c.env
      (c.digest (hashDownloadSessionReceipt c.env.keccak256 receipt)) receipt.userSignature)
    (errUnauthorized "failed to recover EVM signer")
  rejectIf (c.env.codec.accAddressString evmAddr ≠ c.deal.owner)
    (errUnauthorized "session receipt signature does not match deal owner")
  rejectIf (UInt64.ofNat proof.chunks.length ≠ receipt.chunkCount)
    (errInvalidRequest "session_proof.chunks length must equal session_receipt.chunk_count")

/-- The case `SessionProof` of the switch. The chunks are verified one by one, and their bytes have
to add up to the total that was signed. -/
def ProofCall.verifySession (c : ProofCall β) (proof : RetrievalSessionProof) :
    Handler β UInt64 := do
  let receipt := proof.sessionReceipt
  Tx.reads fun s => c.checkSessionReceipt proof s.receiptNoncesByDealFile
  let totalBytes ← c.verifyChunks receipt [] 0 proof.chunks
  Tx.failIf (totalBytes ≠ receipt.totalBytes)
    (errInvalidRequest "session proof total_bytes mismatch")
  Tx.update fun s =>
    { s with
      receiptNoncesByDealFile :=
        s.receiptNoncesByDealFile.set (join receipt.dealId.toNat receipt.filePath) receipt.nonce }
  return totalBytes

/-! ### The switch on the proof type -/

/-- How the proof of a message ends, if it does not fail: a system proof that does not verify,
one that does, or bytes that were served. -/
inductive ProofOutcome where
  | rejected
  | system
  | served (bandwidthBytes : UInt64)
deriving DecidableEq

/-- A system proof; an error of the verification counts as a proof that does not verify. The sender
is then told of no error, and the failure is stored. -/
def ProofCall.verifySystemProof (c : ProofCall β) (proof : Option ChainedProof) :
    Except Fault ProofOutcome :=
  match proof with
  | none => .ok .rejected
  | some p =>
      match verifyLivenessProof c.env.kzgCtx c.deal c.stripe c.msg.creator p with
      | .verdict true => .ok .system
      | .verdict false => .ok .rejected
      | .failed _ => .ok .rejected
      | .panicked text => .error (.panic text)
      | .aborted => .error .abort

/-- `switch pt := msg.ProofType.(type)`. A proof type without its value is refused, but a system
proof without one is a proof that fails. -/
def ProofCall.handleProof (c : ProofCall β) : Handler β ProofOutcome :=
  match c.msg.proofType with
  | .systemProof proof => Tx.ofExcept (c.verifySystemProof proof)
  | .userReceipt none => throw (errInvalidRequest "receipt is required")
  | .userReceipt (some receipt) => do
      let bytes ← c.verifyRetrievalReceipt 0 receipt
      return .served bytes
  | .userReceiptBatch receipts => do
      Tx.failIf (receipts.getD [] = []) (errInvalidRequest "receipt batch is empty")
      let bytes ← c.verifyReceipts 0 (receipts.getD [])
      return .served bytes
  | .sessionProof none => throw (errInvalidRequest "session_proof is required")
  | .sessionProof (some proof) => do
      let bytes ← c.verifySession proof
      return .served bytes
  | .unset => throw (errInvalidRequest "invalid proof type")

/-! ### `ProveLiveness` -/

/-- What `ProveLiveness` answers: whether the proof passed, the tier it reached and the reward it
was credited. -/
structure MsgProveLivenessResponse where
  success : Bool
  tier : UInt32
  rewardAmount : Str
deriving DecidableEq

/-- What is charged to the escrow for an outcome. Only bytes that were served are paid. -/
def ProofOutcome.payment : ProofOutcome → Int
  | .served bytes => bandwidthPayment bytes
  | _ => 0

/-- Add to the rewards of a provider, when there is something to add. The coins are minted later,
when they are withdrawn. -/
def accumulateReward (provider : Str) (reward : Int) (s : KeeperState β) : KeeperState β :=
  if 0 < reward then
    { s with
      providerRewards :=
        s.providerRewards.set provider ((s.providerRewards.get provider).getD 0 + reward) }
  else s

/-- The writes at the end of a successful proof. The payment leaves the escrow in the books, and
becomes a reward together with the storage reward. -/
def ProofCall.settleProof (c : ProofCall β) (tier : Tier) (outcome : ProofOutcome) (reward : Int) :
    Handler β MsgProveLivenessResponse := do
  let escrow := c.deal.escrowBalance - outcome.payment
  Tx.failIf (outcome ≠ .system ∧ escrow < 0)
    (errInsufficientFunds ("deal " ++ toString c.msg.dealId ++ " escrow exhausted"))
  let totalReward := reward + outcome.payment
  Tx.update (accumulateReward c.msg.creator totalReward)
  Tx.update fun s =>
    { s with
      deals := s.deals.set c.msg.dealId.toNat { c.deal with escrowBalance := escrow }
      dealProviderStatus :=
        s.dealProviderStatus.set (join c.msg.dealId.toNat c.msg.creator) c.ctx.height64 }
  Tx.update (recordProofSummary c.ctx c.msg tier.tierName true)
  Tx.update (trackProviderHealth c.msg.dealId.toNat c.msg.creator true)
  return ⟨true, tier.tier, decimal totalReward⟩

/-- `ProveLiveness`. The tier is rewarded before the proof is looked at, and a proof that does not
verify is stored as a failure without an error. -/
def proveLiveness (env : Env β) (ctx : Ctx) (msg : MsgProveLiveness) :
    Handler β MsgProveLivenessResponse := do
  let deal ← Tx.reads fun s =>
    orFail (s.deals.get msg.dealId.toNat)
      (errNotFound ("deal with ID " ++ toString msg.dealId ++ " not found"))
  Tx.failIf (msg.creator ∉ deal.providers)
    (errUnauthorized ("provider " ++ fmtS msg.creator ++ " is not assigned to deal " ++
      toString msg.dealId))
  let stripe ← Tx.ofExcept
    ((stripeParamsForDeal deal).mapError fun text =>
      errInvalidRequest ("invalid service hint: " ++ text))
  Tx.failIf (slotRepairing deal stripe msg.creator)
    (errInvalidRequest "slot is repairing; liveness proofs are disabled")
  -- both are heights of blocks, which the source takes for `int64` values from 0 on: the difference
  -- cannot wrap
  let latency := (ctx.blockHeight : Int) - newInt64 deal.startBlock
  let tier := tierOfLatency latency
  -- the reward of the tier is written before the proof is verified
  Tx.update (rewardTier tier msg.creator)
  let params ← Tx.gets KeeperState.getParams
  Tx.failIf (params.halvingInterval = 0) (.panic "integer divide by zero")
  let call : ProofCall β := ⟨env, ctx, params, deal, stripe, msg⟩
  let outcome ← call.handleProof
  if outcome = .rejected then do
    Tx.update (trackProviderHealth msg.dealId.toNat msg.creator false)
    return ⟨false, 3, "0".toList⟩
  else
    call.settleProof tier outcome
      (storageReward ctx.height64 params.halvingInterval tier.rewardMultiplier)

/-! ### What a proof handler touches -/

/-- Nothing but the heat and the receipt nonces has changed. That is the frame of the receipts. -/
def HeatAndNonces (s s' : KeeperState β) : Prop :=
  s' = { s with
    dealHeatStates := s'.dealHeatStates
    receiptNoncesByDealFile := s'.receiptNoncesByDealFile }

/-- A step that changes nothing changes only heat and nonces. -/
theorem HeatAndNonces.refl (s : KeeperState β) : HeatAndNonces s s := rfl

/-- Steps that change only heat and nonces compose. -/
theorem HeatAndNonces.trans {a b c : KeeperState β} (hab : HeatAndNonces a b)
    (hbc : HeatAndNonces b c) : HeatAndNonces a c := by
  rw [HeatAndNonces] at hab hbc ⊢
  rw [hab] at hbc
  exact hbc

/-- Counting a proof into the heat of its deal changes nothing but the heat. -/
theorem heatAndNonces_incrementHeat (ctx : Ctx) (dealId : Nat) (bytes : UInt64) (failed : Bool)
    (s : KeeperState β) : HeatAndNonces s (incrementHeat ctx dealId bytes failed s) := rfl

/-- One receipt: it counts its bytes, and writes to heat and nonces only. -/
theorem verifyRetrievalReceipt_ok {c : ProofCall β} {bytes bytes' : UInt64}
    {receipt : RetrievalReceipt} {s s' : KeeperState β}
    (h : (c.verifyRetrievalReceipt bytes receipt).exec s = (.ok bytes', s')) :
    bytes' = bytes + receipt.bytesServed ∧ HeatAndNonces s s' := by
  simp only [ProofCall.verifyRetrievalReceipt, Tx.exec_reads_bind_ok, Tx.exec_update_bind,
    Tx.exec_failIf_bind_ok, Tx.exec_pure, Prod.mk.injEq, Except.ok.injEq] at h
  obtain ⟨-, -, -, rfl, rfl⟩ := h
  exact ⟨rfl, rfl⟩

/-- The bytes of a batch, added to a start. The handler has checked that the sum does not wrap. -/
def receiptBytes (bytes : UInt64) (receipts : List RetrievalReceipt) : UInt64 :=
  receipts.foldl (fun acc receipt => acc + receipt.bytesServed) bytes

/-- A batch: it counts the bytes of its receipts, and writes to heat and nonces only. -/
theorem verifyReceipts_ok {c : ProofCall β} {receipts : List RetrievalReceipt}
    {bytes bytes' : UInt64} {s s' : KeeperState β}
    (h : (c.verifyReceipts bytes receipts).exec s = (.ok bytes', s')) :
    bytes' = receiptBytes bytes receipts ∧ HeatAndNonces s s' := by
  induction receipts generalizing bytes s with
  | nil =>
      rw [ProofCall.verifyReceipts, Tx.exec_pure] at h
      cases h
      exact ⟨rfl, .refl _⟩
  | cons receipt rest ih =>
      rw [ProofCall.verifyReceipts, Tx.exec_bind_ok] at h
      obtain ⟨bytes₁, s₁, hone, hrest⟩ := h
      obtain ⟨rfl, hkeep⟩ := verifyRetrievalReceipt_ok hone
      obtain ⟨hbytes, hkeep'⟩ := ih hrest
      exact ⟨hbytes, hkeep.trans hkeep'⟩

/-- The bytes of the chunks of a session, added to a start. They are compared with the total of the
receipt. -/
def chunkBytes (bytes : UInt64) (chunks : List SessionChunkProof) : UInt64 :=
  chunks.foldl (fun acc chunk => acc + chunk.rangeLen) bytes

/-- The chunks of a session: their bytes are counted, and only heat is written. -/
theorem verifyChunks_ok {c : ProofCall β} {receipt : DownloadSessionReceipt}
    {chunks : List SessionChunkProof} {seen : List UInt32} {bytes bytes' : UInt64}
    {s s' : KeeperState β}
    (h : (c.verifyChunks receipt seen bytes chunks).exec s = (.ok bytes', s')) :
    bytes' = chunkBytes bytes chunks ∧ HeatAndNonces s s' := by
  induction chunks generalizing seen bytes s with
  | nil =>
      rw [ProofCall.verifyChunks, Tx.exec_pure] at h
      cases h
      exact ⟨rfl, .refl _⟩
  | cons chunk rest ih =>
      simp only [ProofCall.verifyChunks, Tx.exec_ofExcept_bind_ok, Tx.exec_failIf_bind_ok,
        Tx.exec_update_bind] at h
      obtain ⟨-, -, -, hrest⟩ := h
      obtain ⟨hbytes, hkeep⟩ := ih hrest
      exact ⟨hbytes, (heatAndNonces_incrementHeat _ _ _ _ s).trans hkeep⟩

/-- A session: the bytes of its chunks are counted, and heat and nonces are written. -/
theorem verifySession_ok {c : ProofCall β} {proof : RetrievalSessionProof} {bytes : UInt64}
    {s s' : KeeperState β} (h : (c.verifySession proof).exec s = (.ok bytes, s')) :
    bytes = chunkBytes 0 proof.chunks ∧ HeatAndNonces s s' := by
  simp only [ProofCall.verifySession, Tx.exec_reads_bind_ok] at h
  obtain ⟨-, -, h⟩ := h
  rw [Tx.exec_bind_ok] at h
  obtain ⟨total, s₁, hchunks, h⟩ := h
  simp only [Tx.exec_failIf_bind_ok, Tx.exec_update_bind, Tx.exec_pure, Prod.mk.injEq,
    Except.ok.injEq] at h
  obtain ⟨-, rfl, rfl⟩ := h
  obtain ⟨hbytes, hkeep⟩ := verifyChunks_ok hchunks
  exact ⟨hbytes, hkeep.trans rfl⟩

/-- The bytes that a proof message serves. A system proof serves none. -/
def ProofType.bandwidthBytes : ProofType → UInt64
  | .userReceipt (some receipt) => receiptBytes 0 [receipt]
  | .userReceiptBatch receipts => receiptBytes 0 (receipts.getD [])
  | .sessionProof (some proof) => chunkBytes 0 proof.chunks
  | _ => 0

/-- What a proof message is charged: nothing for a system proof, else for its bytes. It is read off
the message alone. -/
def ProofType.payment : ProofType → Int
  | .systemProof _ => 0
  | proofType => bandwidthPayment proofType.bandwidthBytes

/-- The switch: an accepted outcome is charged what its message says, and only heat and nonces
are written. -/
theorem handleProof_ok {c : ProofCall β} {outcome : ProofOutcome} {s s' : KeeperState β}
    (h : c.handleProof.exec s = (.ok outcome, s')) :
    (outcome ≠ .rejected → outcome.payment = c.msg.proofType.payment) ∧
      (outcome = .system → outcome.payment = 0) ∧ HeatAndNonces s s' := by
  -- one case for each kind of proof that a message can carry
  rw [ProofCall.handleProof] at h
  cases hpt : c.msg.proofType with
  | systemProof proof =>
      simp only [hpt, Tx.exec_ofExcept, Prod.mk.injEq] at h
      obtain ⟨hproof, rfl⟩ := h
      refine ⟨fun hne => ?_, fun hsys => by rw [hsys]; rfl, .refl s⟩
      -- A system proof that is not rejected ends as `.system`.
      cases proof with
      | none =>
          cases hproof
          exact absurd rfl hne
      | some p =>
          simp only [ProofCall.verifySystemProof] at hproof
          split at hproof <;> cases hproof
          · rfl
          · exact absurd rfl hne
          · exact absurd rfl hne
  | userReceipt receipt =>
      cases receipt with
      | none => simp [hpt] at h
      | some receipt =>
          simp only [hpt, Tx.exec_bind_ok, Tx.exec_pure, Prod.mk.injEq, Except.ok.injEq] at h
          obtain ⟨bytes, s₁, hone, rfl, rfl⟩ := h
          obtain ⟨rfl, hkeep⟩ := verifyRetrievalReceipt_ok hone
          exact ⟨fun _ => rfl, fun hsys => absurd hsys (by simp), hkeep⟩
  | userReceiptBatch receipts =>
      simp only [hpt, Tx.exec_failIf_bind_ok] at h
      obtain ⟨-, h⟩ := h
      simp only [Tx.exec_bind_ok, Tx.exec_pure, Prod.mk.injEq, Except.ok.injEq] at h
      obtain ⟨bytes, s₁, hall, rfl, rfl⟩ := h
      obtain ⟨rfl, hkeep⟩ := verifyReceipts_ok hall
      exact ⟨fun _ => rfl, fun hsys => absurd hsys (by simp), hkeep⟩
  | sessionProof proof =>
      cases proof with
      | none => simp [hpt] at h
      | some proof =>
          simp only [hpt, Tx.exec_bind_ok, Tx.exec_pure, Prod.mk.injEq, Except.ok.injEq] at h
          obtain ⟨bytes, s₁, hsession, rfl, rfl⟩ := h
          obtain ⟨rfl, hkeep⟩ := verifySession_ok hsession
          exact ⟨fun _ => rfl, fun hsys => absurd hsys (by simp), hkeep⟩
  | unset => simp [hpt] at h

/-! ### What a successful proof did -/

/-- No provider has changed but in its reputation. At most one has. -/
def ReputationOnly (s s' : KeeperState β) : Prop :=
  s'.providers = s.providers ∨
    ∃ key p score, s.providers.get key = some p ∧
      s'.providers = s.providers.set key { p with reputationScore := score }

/-- Rewarding a tier raises the provider's score and touches nothing else of the state. -/
theorem reputationOnly_rewardTier (tier : Tier) (provider : Str) (s : KeeperState β) :
    ReputationOnly s (rewardTier tier provider s) ∧
      rewardTier tier provider s =
        { s with providers := (rewardTier tier provider s).providers } := by
  rw [rewardTier]
  split
  · rw [raiseReputation]
    split
    · exact ⟨Or.inl rfl, rfl⟩
    · rename_i p hp
      exact ⟨Or.inr ⟨provider, p, _, hp, rfl⟩, rfl⟩
  · exact ⟨Or.inl rfl, rfl⟩

/-- A proof message that was answered without success: nothing but reputation, heat, receipt
nonces and the failure counter has changed. -/
structure LivenessRejected (s s' : KeeperState β) : Prop where
  reputation : ReputationOnly s s'
  frame : s' = { s with
    providers := s'.providers
    dealHeatStates := s'.dealHeatStates
    receiptNoncesByDealFile := s'.receiptNoncesByDealFile
    dealProviderFailures := s'.dealProviderFailures }

/-- A proof message that succeeded: the escrow has paid for the bytes, and the proof status of
the sender is the height of the block. -/
structure LivenessProved (ctx : Ctx) (msg : MsgProveLiveness) (deal : Deal) (s s' : KeeperState β) :
    Prop where
  reputation : ReputationOnly s s'
  affordable : msg.proofType.payment = 0 ∨ msg.proofType.payment ≤ deal.escrowBalance
  deals : s'.deals = s.deals.set msg.dealId.toNat
    { deal with escrowBalance := deal.escrowBalance - msg.proofType.payment }
  status : s'.dealProviderStatus =
    s.dealProviderStatus.set (join msg.dealId.toNat msg.creator) ctx.height64
  frame : s' = { s with
    providers := s'.providers
    dealHeatStates := s'.dealHeatStates
    receiptNoncesByDealFile := s'.receiptNoncesByDealFile
    dealProviderFailures := s'.dealProviderFailures
    providerRewards := s'.providerRewards
    deals := s'.deals
    dealProviderStatus := s'.dealProviderStatus
    proofCount := s'.proofCount
    proofs := s'.proofs }

/-- What settling an accepted proof did: the answer is a success, the escrow covered the payment of
a user proof, and the credit, the deal and the proof log changed as given. -/
theorem settleProof_ok {c : ProofCall β} {tier : Tier} {outcome : ProofOutcome} {reward : Int}
    {s s' : KeeperState β} {r : MsgProveLivenessResponse}
    (h : (c.settleProof tier outcome reward).exec s = (.ok r, s')) :
    r.success = true ∧
      (outcome ≠ .system → outcome.payment ≤ c.deal.escrowBalance) ∧
      s' = { s with
        providerRewards := s'.providerRewards
        deals := s.deals.set c.msg.dealId.toNat
          { c.deal with escrowBalance := c.deal.escrowBalance - outcome.payment }
        dealProviderStatus :=
          s.dealProviderStatus.set (join c.msg.dealId.toNat c.msg.creator) c.ctx.height64
        proofCount := s'.proofCount
        proofs := s'.proofs
        dealProviderFailures := s'.dealProviderFailures } := by
  simp only [ProofCall.settleProof, Tx.exec_failIf_bind_ok, Tx.exec_update_bind, Tx.exec_pure,
    Prod.mk.injEq, Except.ok.injEq, not_and, not_lt] at h
  obtain ⟨hescrow, rfl, rfl⟩ := h
  refine ⟨rfl, fun hne => by have := hescrow hne; omega, ?_⟩
  rw [accumulateReward]
  split <;> rfl

/-- What an accepted `ProveLiveness` did: the sender is an assigned provider whose slot is not
repairing, and the proof was either recorded as failed or settled. -/
theorem proveLiveness_ok {env : Env β} {ctx : Ctx} {msg : MsgProveLiveness}
    {s s' : KeeperState β} {r : MsgProveLivenessResponse}
    (h : (proveLiveness env ctx msg).exec s = (.ok r, s')) :
    ∃ deal stripe, s.deals.get msg.dealId.toNat = some deal ∧ msg.creator ∈ deal.providers ∧
      stripeParamsForDeal deal = .ok stripe ∧ slotRepairing deal stripe msg.creator = false ∧
      (r.success = false ∧ LivenessRejected s s' ∨
        r.success = true ∧ LivenessProved ctx msg deal s s') := by
  -- the checks before the switch only read, apart from the reward of the tier
  simp only [proveLiveness, Tx.exec_reads_bind_ok, Tx.exec_failIf_bind_ok,
    Tx.exec_ofExcept_bind_ok, Tx.exec_update_bind, Tx.exec_gets_bind, orFail_eq_ok, mapError_eq_ok,
    not_not, Bool.not_eq_true] at h
  obtain ⟨deal, hget, hmem, stripe, hstripe, hrep, -, h⟩ := h
  rw [Tx.exec_bind_ok] at h
  obtain ⟨outcome, s₂, hproof, h⟩ := h
  refine ⟨deal, stripe, hget, hmem, hstripe, hrep, ?_⟩
  generalize tierOfLatency ((ctx.blockHeight : Int) - newInt64 deal.startBlock) = tier at hproof h
  obtain ⟨hreputation, hraise⟩ := reputationOnly_rewardTier tier msg.creator s
  obtain ⟨hpay, hsystem, hkeep⟩ := handleProof_ok hproof
  -- The state in which the switch starts differs from `s` in the providers only.
  generalize rewardTier tier msg.creator s = s₁ at hraise hreputation hkeep
  rw [HeatAndNonces] at hkeep
  rw [hraise] at hkeep
  by_cases hrejected : outcome = .rejected
  · simp only [if_pos hrejected, Tx.exec_update_bind, Tx.exec_pure, Prod.mk.injEq,
      Except.ok.injEq] at h
    obtain ⟨rfl, rfl⟩ := h
    refine Or.inl ⟨rfl, ?_, ?_⟩
    · rw [hkeep]
      exact hreputation
    · rw [hkeep]
      rfl
  · rw [if_neg hrejected] at h
    obtain ⟨hsuccess, hescrow, hs'⟩ := settleProof_ok h
    simp only [hpay hrejected] at hescrow hs'
    have haffordable : msg.proofType.payment = 0 ∨ msg.proofType.payment ≤ deal.escrowBalance := by
      by_cases hsys : outcome = .system
      · exact Or.inl ((hpay hrejected).symm.trans (hsystem hsys))
      · exact Or.inr (hescrow hsys)
    refine Or.inr ⟨hsuccess, ?_, haffordable, ?_, ?_, ?_⟩
    · rw [hs', hkeep]
      exact hreputation
    · rw [hs', hkeep]
    · rw [hs', hkeep]
    · rw [hs', hkeep]

end NilStore.Chain
