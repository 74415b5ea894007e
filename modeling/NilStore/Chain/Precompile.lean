import NilStore.Chain.Liveness
import NilStore.Chain.Retrieval

/-!
# `NilStore.Chain.Precompile`: the EVM precompile

`precompiles/nilstore/nilstore.go`. A contract call is decoded into a `Call` and served by the
handlers of the message server, on the context of the running EVM transaction. There is no
rollback here: what a failing call has written stays in the state that `run` leaves.

Decoding the call data and packing the outputs is the ABI library's work. A call that does not
decode is an `Except.error`; packing values of the declared types does not fail.
-/

set_option autoImplicit false

namespace NilStore.Chain.Precompile

open NilStore.Lib

variable {β : Type}

/-- `openSessionInput`. The provider is a text, and is trimmed before it is used. -/
structure OpenSessionInput where
  dealId : UInt64
  provider : Str
  manifestRoot : Bytes
  startMduIndex : UInt64
  startBlobIndex : UInt32
  blobCount : UInt64
  nonce : UInt64
  expiresAt : UInt64
deriving DecidableEq

/-- `decodedChunk`. The proof is the same as in a message. -/
structure Chunk where
  rangeStart : UInt64
  rangeLen : UInt64
  proof : ChainedProof
deriving DecidableEq

/-- The methods with their decoded arguments. Decoding the call data is left to the ABI library. -/
inductive Call where
  | createDeal (durationBlocks : UInt64) (serviceHint : Str) (initialEscrow maxMonthlySpend : Nat)
  | updateDealContent (dealId : UInt64) (manifestRoot : Bytes) (sizeBytes : UInt64)
  | proveRetrievalBatch (dealId : UInt64) (provider filePath : Str) (nonce : UInt64)
      (chunks : List Chunk)
  | openRetrievalSession (session : OpenSessionInput)
  | openRetrievalSessions (sessions : List OpenSessionInput)
  | computeRetrievalSessions (sessions : List OpenSessionInput)
  | computeRetrievalSessionIds (sessions : List OpenSessionInput)
  | confirmRetrievalSession (sessionId : Bytes)
  | confirmRetrievalSessions (sessionIds : List Bytes)
deriving DecidableEq

/-- What a call returns. Amounts and ids are packed by the ABI library. -/
inductive Output where
  | ok
  | dealId (id : Nat)
  | sessionIds (ids : List Bytes)
  | sessions (providers : List Str) (ids : List Bytes)
deriving DecidableEq

/-- The message that opens one session of a call. The caller stands in for its creator. -/
def OpenSessionInput.toMsg (input : OpenSessionInput) (creator : Str) :
    MsgOpenRetrievalSession where
  creator := creator
  dealId := input.dealId
  provider := trimSpace input.provider
  manifestRoot := input.manifestRoot
  startMduIndex := input.startMduIndex
  startBlobIndex := input.startBlobIndex
  blobCount := input.blobCount
  nonce := input.nonce
  expiresAt := input.expiresAt

/-- The checks of one session of a call. They come before those of the handler, with texts of their
own. -/
def OpenSessionInput.check (input : OpenSessionInput) (method : String) : Except Fault Unit := do
  rejectIf (trimSpace input.provider = []) (errorf (method ++ ": invalid provider"))
  rejectIf (input.manifestRoot.length ≠ 48) (errorf (method ++ ": manifestRoot must be 48 bytes"))
  rejectIf (input.blobCount = 0) (errorf (method ++ ": blobCount must be > 0"))

/-- Open one session of a call. It uses the handler of the message. -/
def openSession (env : Env β) (ctx : Ctx) (creator : Str) (method : String)
    (input : OpenSessionInput) : Handler β Bytes := do
  Tx.ofExcept (input.check method)
  let sessionId ← openRetrievalSession env ctx (input.toMsg creator)
  Tx.failIf (sessionId.length ≠ 32) (errorf (method ++ ": invalid session id"))
  return sessionId

/-- The loop of `runOpenRetrievalSessions`. It stops at the first failure, and the sessions before
it are stored. -/
def openSessions (env : Env β) (ctx : Ctx) (creator : Str) :
    List OpenSessionInput → Handler β (List Bytes)
  | [] => pure []
  | input :: rest => do
      let sessionId ← openSession env ctx creator "openRetrievalSessions" input
      let sessionIds ← openSessions env ctx creator rest
      return sessionId :: sessionIds

/-- `runOpenRetrievalSession`. The caller is the owner of the deal. -/
def runOpenRetrievalSession (env : Env β) (ctx : Ctx) (caller : Bytes)
    (session : OpenSessionInput) : Handler β Output := do
  let sessionId ← openSession env ctx (env.codec.accAddressString caller) "openRetrievalSession"
    session
  return .sessionIds [sessionId]

/-- `runOpenRetrievalSessions`. An empty list is an error. -/
def runOpenRetrievalSessions (env : Env β) (ctx : Ctx) (caller : Bytes)
    (sessions : List OpenSessionInput) : Handler β Output := do
  Tx.failIf (sessions = []) (errorf "openRetrievalSessions: sessions is empty")
  let sessionIds ← openSessions env ctx (env.codec.accAddressString caller) sessions
  return .sessionIds sessionIds

/-- One session id of the two view methods. No deal is read, so an id comes out for sessions that
could not be opened. -/
def computeSessionId (env : Env β) (caller : Bytes) (method : String) (input : OpenSessionInput) :
    Except Fault Bytes := do
  rejectIf (trimSpace input.provider = []) (errorf (method ++ ": invalid provider"))
  let providerAddr ← orFail (env.codec.accAddressFromBech32 (trimSpace input.provider))
    (errorf (method ++ ": invalid provider"))
  rejectIf (input.manifestRoot.length ≠ 48) (errorf (method ++ ": manifestRoot must be 48 bytes"))
  rejectIf (input.blobCount = 0) (errorf (method ++ ": blobCount must be > 0"))
  (hashRetrievalSessionID env.keccak256 caller input.dealId providerAddr input.manifestRoot
    input.startMduIndex input.startBlobIndex input.blobCount input.nonce
    input.expiresAt).mapError fun text =>
      errorf (method ++ ": failed to compute session id: " ++ text)

/-- `runComputeRetrievalSessions` and `runComputeRetrievalSessionIds`, which return the same
data in two layouts. -/
def runCompute (env : Env β) (caller : Bytes) (method : String) (sessions : List OpenSessionInput) :
    Except Fault Output := do
  rejectIf (sessions = []) (errorf (method ++ ": sessions is empty"))
  let ids ← sessions.mapM (computeSessionId env caller method)
  return .sessions (sessions.map fun input => trimSpace input.provider) ids

/-- `runConfirmRetrievalSession`. The caller is the owner of the session. -/
def runConfirmRetrievalSession (env : Env β) (ctx : Ctx) (caller : Bytes) (sessionId : Bytes) :
    Handler β Output := do
  confirmRetrievalSession env ctx ⟨env.codec.accAddressString caller, sessionId⟩
  return .ok

/-- The loop of `runConfirmRetrievalSessions`. It stops at the first failure, and the confirmations
before it are stored. -/
def confirmSessions (env : Env β) (ctx : Ctx) (creator : Str) : List Bytes → Handler β Unit
  | [] => pure ()
  | sessionId :: rest => do
      confirmRetrievalSession env ctx ⟨creator, sessionId⟩
      confirmSessions env ctx creator rest

/-- `runConfirmRetrievalSessions`. An empty list is an error. -/
def runConfirmRetrievalSessions (env : Env β) (ctx : Ctx) (caller : Bytes)
    (sessionIds : List Bytes) : Handler β Output := do
  Tx.failIf (sessionIds = []) (errorf "confirmRetrievalSessions: sessionIds is empty")
  confirmSessions env ctx (env.codec.accAddressString caller) sessionIds
  return .ok

/-- `runCreateDeal`. Its amounts are unsigned, so they are there and not negative. -/
def runCreateDeal (env : Env β) (ctx : Ctx) (caller : Bytes) (durationBlocks : UInt64)
    (serviceHint : Str) (initialEscrow maxMonthlySpend : Nat) : Handler β Output := do
  Tx.failIf (durationBlocks = 0) (errorf "createDeal: durationBlocks must be > 0")
  let res ← createDeal env ctx
    { creator := env.codec.accAddressString caller
      durationBlocks := durationBlocks
      serviceHint := trimSpace serviceHint
      maxMonthlySpend := some maxMonthlySpend
      initialEscrowAmount := some initialEscrow }
  return .dealId res.dealId

/-- `runUpdateDealContent`. The root comes as bytes and is passed on in hex. -/
def runUpdateDealContent (env : Env β) (ctx : Ctx) (caller : Bytes) (dealId : UInt64)
    (manifestRoot : Bytes) (sizeBytes : UInt64) : Handler β Output := do
  Tx.failIf (manifestRoot.length ≠ 48)
    (errorf "updateDealContent: manifestRoot must be 48 bytes")
  Tx.failIf (sizeBytes = 0) (errorf "updateDealContent: sizeBytes must be > 0")
  updateDealContent env ctx
    { creator := env.codec.accAddressString caller
      dealId := dealId
      cid := "0x".toList ++ hexEncode manifestRoot
      size := sizeBytes }
  return .ok

/-! ### `proveRetrievalBatch` -/

/-- The leaf count that the precompile takes from the hint of the deal. A hint that cannot be read
counts as one without an `rs`. -/
def batchLeafCount (deal : Deal) : UInt64 :=
  match parseServiceHint deal.serviceHint with
  | .error _ => blobsPerMdu
  | .ok parsed =>
      match rsParamsFromHint parsed with
      | .ok (some rs) => rs.leafCount
      | _ => blobsPerMdu

/-- The checks of `runProveRetrievalBatch` before its chunks. The nonce is that of the deal and the
path, as for the receipts. -/
def checkBatch (env : Env β) (caller : Bytes) (dealId : UInt64) (provider filePath : Str)
    (nonce : UInt64) (chunks : List Chunk) (s : KeeperState β) : Except Fault Deal := do
  rejectIf (trimSpace provider = []) (errorf "proveRetrievalBatch: provider is required")
  rejectIf (trimSpace filePath = []) (errorf "proveRetrievalBatch: filePath is required")
  rejectIf (nonce = 0) (errorf "proveRetrievalBatch: nonce must be > 0")
  let deal ← orFail (s.deals.get dealId.toNat) (errorf "proveRetrievalBatch: deal not found")
  rejectIf (deal.owner ≠ env.codec.accAddressString caller)
    (errorf "proveRetrievalBatch: caller is not deal owner")
  rejectIf (provider ∉ deal.providers)
    (errorf "proveRetrievalBatch: provider is not assigned to deal")
  rejectIf (deal.manifestRoot.length ≠ 48)
    (errorf "proveRetrievalBatch: deal has no committed manifest_root")
  rejectIf (nonce ≤ lastNonce s.receiptNoncesByDealFile (join dealId.toNat filePath))
    (errorf "proveRetrievalBatch: nonce must be strictly increasing")
  rejectIf (chunks = []) (errorf "proveRetrievalBatch: chunks is empty")
  return deal

/-- The checks of one chunk, with the bytes counted so far. The sum must not wrap, and the proof
must verify. -/
def checkChunk (env : Env β) (deal : Deal) (bytesServed : UInt64) (chunk : Chunk) :
    Except Fault Unit := do
  rejectIf (chunk.rangeLen = 0) (errorf "proveRetrievalBatch: rangeLen must be > 0")
  rejectIf (bytesServed > bytesServed + chunk.rangeLen)
    (errorf "proveRetrievalBatch: bytes overflow")
  let ok ← (verifyBatchProof env.kzgCtx deal.manifestRoot
    (batchLeafCount deal) chunk.proof).toExcept
    fun text => errorf ("proveRetrievalBatch: triple proof verification error: " ++ text)
  rejectIf (¬ok) (errorf "proveRetrievalBatch: invalid triple proof")

/-- The loop over the chunks. Heat is written for each of them, and stays when a later one fails. -/
def proveChunks (env : Env β) (ctx : Ctx) (deal : Deal) :
    (bytesServed : UInt64) → List Chunk → Handler β UInt64
  | bytesServed, [] => pure bytesServed
  | bytesServed, chunk :: rest => do
      Tx.ofExcept (checkChunk env deal bytesServed chunk)
      Tx.update (incrementHeat ctx deal.id chunk.rangeLen false)
      proveChunks env ctx deal (bytesServed + chunk.rangeLen) rest

/-- `runProveRetrievalBatch`. The caller answers for what was served, so no signature is checked. -/
def runProveRetrievalBatch (env : Env β) (ctx : Ctx) (caller : Bytes) (dealId : UInt64)
    (provider filePath : Str) (nonce : UInt64) (chunks : List Chunk) : Handler β Output := do
  let deal ← Tx.reads fun s => checkBatch env caller dealId provider filePath nonce chunks s
  let bytesServed ← proveChunks env ctx deal 0 chunks
  let payment := bandwidthPayment bytesServed
  Tx.failIf (deal.escrowBalance - payment < 0) (errorf "proveRetrievalBatch: escrow exhausted")
  Tx.update fun s =>
    { s with
      deals := s.deals.set dealId.toNat
        { deal with escrowBalance := deal.escrowBalance - payment }
      providerRewards :=
        s.providerRewards.set provider ((s.providerRewards.get provider).getD 0 + payment)
      receiptNoncesByDealFile :=
        s.receiptNoncesByDealFile.set (join dealId.toNat filePath) nonce
      dealProviderStatus :=
        s.dealProviderStatus.set (join dealId.toNat provider) ctx.height64 }
  return .ok

/-! ### `Run` -/

/-- The switch of `Precompile.Run`. The two views write nothing. -/
def serve (env : Env β) (ctx : Ctx) (caller : Bytes) : Call → Handler β Output
  | .createDeal durationBlocks serviceHint initialEscrow maxMonthlySpend =>
      runCreateDeal env ctx caller durationBlocks serviceHint initialEscrow maxMonthlySpend
  | .updateDealContent dealId manifestRoot sizeBytes =>
      runUpdateDealContent env ctx caller dealId manifestRoot sizeBytes
  | .proveRetrievalBatch dealId provider filePath nonce chunks =>
      runProveRetrievalBatch env ctx caller dealId provider filePath nonce chunks
  | .openRetrievalSession session => runOpenRetrievalSession env ctx caller session
  | .openRetrievalSessions sessions => runOpenRetrievalSessions env ctx caller sessions
  | .computeRetrievalSessions sessions =>
      Tx.ofExcept (runCompute env caller "computeRetrievalSessions" sessions)
  | .computeRetrievalSessionIds sessions =>
      Tx.ofExcept (runCompute env caller "computeRetrievalSessionIds" sessions)
  | .confirmRetrievalSession sessionId => runConfirmRetrievalSession env ctx caller sessionId
  | .confirmRetrievalSessions sessionIds => runConfirmRetrievalSessions env ctx caller sessionIds

/-- A call of the precompile: who calls, whether read-only, and the decoded call data. Call data
that cannot be decoded has a text instead. -/
structure Input where
  readonly : Bool
  caller : Bytes
  call : Except String Call

/-- `Precompile.Run`. What a failed call has written is not rolled back here. -/
def run (env : Env β) (ctx : Ctx) (input : Input) : Handler β Output := do
  Tx.failIf input.readonly (errorf "nilstore precompile: readonly calls are not supported")
  let call ← Tx.ofExcept (input.call.mapError errorf)
  serve env ctx input.caller call

end NilStore.Chain.Precompile
