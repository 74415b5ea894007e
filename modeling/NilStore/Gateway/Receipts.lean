import NilStore.Gateway.PlanSession
import NilStore.Gateway.RetrievalRequest
import NilStore.Lib.Tx

/-!
# `NilStore.Gateway.Receipts`: fetch sessions and signed receipts

A provider stores a fetch session for the bytes that it serves, and the client sends a signed
receipt back with its id. `nil_gateway/fetch_session.go` keeps the sessions in a `sync.Map`, and in
a bucket of the session database when there is one. `SpSubmitReceipt` and `SpSubmitReceipts` of
`nil_gateway/main.go` check a receipt against its session and submit it to the chain.

The handlers run as transactions that leave their writes when they fail. What they call outside is
`ReceiptEnv`: the JSON library, the temporary file, the key of the provider and the submission
itself. The errors of bbolt, which the code drops, are left out.
-/

set_option autoImplicit false

namespace NilStore.Gateway.Receipts

open NilStore.Lib NilStore.Chain

/-! ### `fetch_session.go` -/

/-- `fetchSession`: one fetch that was served and for which no receipt has come in yet. The zero
time is `none`. -/
structure FetchSession where
  dealId : UInt64
  epochId : UInt64
  owner : Str
  provider : Str
  filePath : Str
  rangeStart : UInt64
  rangeLen : UInt64
  bytesServed : UInt64
  proofHash : Str
  reqNonce : UInt64
  reqExpires : UInt64
  expiresAt : Option Nat
deriving DecidableEq

/-- `!s.ExpiresAt.IsZero() && time.Now().After(s.ExpiresAt)`. A session without a time never
expires. -/
def FetchSession.expired (s : FetchSession) (now : Nat) : Bool := s.expiresAt.any (· < now)

/-- `fetchSessionCache`, and the bucket of `sessionDB` when there is one. A value of the bucket that
does not decode is `none`. -/
structure FetchStore where
  sessionDB : Option (KVStore Str (Option FetchSession))
  cache : KVStore Str FetchSession

/-- The session in the cache, or in the bucket, which then goes into the cache. Its expiry is not
looked at here. -/
def loadCached (id : Str) (store : FetchStore) : Option FetchSession × FetchStore :=
  match store.cache.get id with
  | some s => (some s, store)
  | none =>
      match (store.sessionDB.bind fun bucket => bucket.get id).join with
      | some s => (some s, { store with cache := store.cache.set id s })
      | none => (none, store)

/-- `peekFetchSession`. An expired session is deleted from both places. -/
def peekFetchSession (now : Nat) (id : Str) (store : FetchStore) :
    Option FetchSession × FetchStore :=
  if id = [] then (none, store)
  else
    match loadCached id store with
    | (none, store) => (none, store)
    | (some s, store) =>
        if s.expired now then
          (none, ⟨store.sessionDB.map fun bucket => bucket.remove id, store.cache.remove id⟩)
        else (some s, store)

/-- `takeFetchSession`. With a database the cache does not count. -/
def takeFetchSession (now : Nat) (id : Str) (store : FetchStore) :
    Option FetchSession × FetchStore :=
  if id = [] then (none, store)
  else
    match store.sessionDB with
    | some bucket =>
        match bucket.get id with
        | none => (none, { store with cache := store.cache.remove id })
        | some value =>
            (value.filter fun s => !s.expired now, ⟨some (bucket.remove id), store.cache.remove id⟩)
    | none =>
        match store.cache.get id with
        | none => (none, store)
        | some s =>
          (if s.expired now then none else some s, { store with cache := store.cache.remove id })

/-! ### Requests -/

/-- `RetrievalReceipt` of the gateway: the proof is JSON that is not decoded yet. -/
structure RetrievalReceipt where
  dealId : UInt64
  epochId : UInt64
  provider : Str
  filePath : Str
  rangeStart : UInt64
  rangeLen : UInt64
  bytesServed : UInt64
  proofDetails : Str
  userSignature : Bytes
  nonce : UInt64
  expiresAt : UInt64
deriving DecidableEq

/-- `SignedReceiptEnvelope`: a receipt and the session that it is for. -/
structure SignedReceiptEnvelope where
  fetchSession : Str
  receipt : RetrievalReceipt
deriving DecidableEq

/-- The session that an envelope names. -/
def SignedReceiptEnvelope.sessionId (env : SignedReceiptEnvelope) : Str :=
  trimSpace env.fetchSession

/-- A request: whether it is an `OPTIONS` request, what `isGatewayAuthorized` says, and the body,
unless it cannot be read. -/
structure SubmitRequest where
  options : Bool
  authorized : Bool
  body : Option Bytes

/-- What the handlers call, and the clock at each entry. -/
structure ReceiptEnv where
  keccak256 : Bytes → Bytes
  unmarshalEnvelope : Bytes → Option SignedReceiptEnvelope
  unmarshalBatch : Bytes → Option (List SignedReceiptEnvelope)
  unmarshalArray : Bytes → Option (List SignedReceiptEnvelope)
  unmarshalProof : Str → Except String ChainedProof
  /-- `strconv.Quote`, for `%q`. -/
  quote : Str → String
  createTemp : Except String Unit
  marshalReceipt : RetrievalReceipt → Except String Bytes
  marshalBatch : List RetrievalReceipt → Except String Bytes
  writeTemp : Bytes → Except String Unit
  providerKeyName : Str
  cachedProviderAddress : Str
  resolveKeyAddress : Except String Str
  submitTxAndWait : Bytes → Except String Str
  now : Nat → Nat

/-- An answer that is no error. -/
inductive SubmitReply where
  | noContent
  | success (txHash : Str) (receiptCount : Nat)
deriving DecidableEq

/-! ### Checks -/

/-- The second texts of the errors for a receipt. -/
structure ReceiptHints where
  fetchSession : String
  provider : String
  filePath : String
  rangeLen : String
  bytesServed : String
  userSignature : String
  nonce : String
  proofDetails : String

/-- The checks of the fields, which come before the session is looked up. -/
def checkEnvelope (hints : ReceiptHints) (env : SignedReceiptEnvelope) : Except JsonError Unit := do
  let receipt := env.receipt
  rejectIf (trimSpace env.fetchSession = []) ⟨400, "fetch_session is required", hints.fetchSession⟩
  rejectIf (trimSpace receipt.provider = []) ⟨400, "provider is required", hints.provider⟩
  rejectIf (trimSpace receipt.filePath = []) ⟨400, "file_path is required", hints.filePath⟩
  rejectIf (receipt.rangeLen = 0) ⟨400, "range_len is required", hints.rangeLen⟩
  rejectIf (receipt.bytesServed ≠ receipt.rangeLen) ⟨400, "invalid receipt", hints.bytesServed⟩
  rejectIf (receipt.userSignature = []) ⟨400, "user_signature is required", hints.userSignature⟩
  rejectIf (receipt.nonce = 0) ⟨400, "nonce is required", hints.nonce⟩
  rejectIf (trimSpace receipt.proofDetails = [] ∨ trimSpace receipt.proofDetails = "null".toList)
    ⟨400, "proof_details is required", hints.proofDetails⟩

/-- The error of a receipt that is not for its session. -/
def mismatch (hint : String) : JsonError := ⟨400, "receipt does not match fetch session", hint⟩

/-- The checks of a receipt against its session. The proof is compared by its hash, and only when
the session has one. -/
def matchSession (env : ReceiptEnv) (session : FetchSession) (receipt : RetrievalReceipt) :
    Except JsonError Unit := do
  rejectIf (session.dealId ≠ receipt.dealId ∨ session.epochId ≠ receipt.epochId)
    (mismatch "deal_id/epoch_id mismatch")
  rejectIf (trimSpace session.provider ≠ trimSpace receipt.provider) (mismatch "provider mismatch")
  rejectIf (session.bytesServed ≠ receipt.bytesServed) (mismatch "bytes_served mismatch")
  rejectIf (trimSpace session.filePath ≠ trimSpace receipt.filePath) (mismatch "file_path mismatch")
  rejectIf (session.rangeStart ≠ receipt.rangeStart) (mismatch "range_start mismatch")
  rejectIf (session.rangeLen ≠ receipt.rangeLen) (mismatch "range_len mismatch")
  let chained ← (env.unmarshalProof receipt.proofDetails).mapError fun text =>
    ⟨400, "invalid proof_details", text⟩
  let proofHashHex := lowerHex (hashChainedProof env.keccak256 chained)
  rejectIf (trimSpace session.proofHash ≠ [] ∧ trimSpace session.proofHash ≠ trimSpace proofHashHex)
    (mismatch "proof_hash mismatch")

/-- The address of the provider's key: the cached one, or what the keyring says. -/
def localProviderAddr (env : ReceiptEnv) : Except JsonError Str :=
  if trimSpace env.cachedProviderAddress ≠ [] then .ok env.cachedProviderAddress
  else env.resolveKeyAddress.mapError fun text =>
    ⟨500, "failed to resolve provider key address", text⟩

/-- The part of both handlers before the body is decoded. An `OPTIONS` request has no body here. -/
def openRequest (req : SubmitRequest) : Except JsonError (Option Bytes) := do
  if req.options then return none
  rejectIf (req.authorized = false) ⟨403, "forbidden", "missing or invalid gateway auth"⟩
  let body ← orFail req.body ⟨400, "failed to read body", ""⟩
  return some body

/-- The submission to the chain. Its error comes too late for the session, which is gone by then. -/
def submit (env : ReceiptEnv) (receiptJSON : Bytes) : Except JsonError Str :=
  (env.submitTxAndWait receiptJSON).mapError fun text =>
    ⟨500, "submit-retrieval-proof failed", text⟩

/-! ### `SpSubmitReceipt` -/

end NilStore.Gateway.Receipts
