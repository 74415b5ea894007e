import NilStore.Chain.Eip712
import NilStore.Gateway.PlanSession
import NilStore.Lib.KVStore
import NilStore.Lib.Runs

/-!
# `NilStore.Gateway.RetrievalRequest`: signed retrieval requests

The owner of a deal signs a `RetrievalRequest`, and the gateway answers it once. Two functions see
to that. `verifyRetrievalRequestSignature` of `nil_gateway/main.go` recovers the signer and compares
the expiry with the clock, and `checkAndStoreRequestReplay` of `nil_gateway/fetch_session.go` looks
the nonce up in a bucket of the session database.

A time is a number of nanoseconds since 1970. The rest of the two handlers, which does not touch the
bucket, is one input: the error of the first check that fails, if one does.
-/

set_option autoImplicit false

namespace NilStore.Gateway

open NilStore.Lib NilStore.Chain

/-- What the handlers take from outside: hashes, the signature library, bech32, the text of the
errors of `hex.DecodeString`, and whether `json.Marshal` takes `time.Unix(sec, 0)`, which it does
not for a year that has not four digits. -/
structure RequestEnv where
  keccak256 : Bytes → Bytes
  sigToAddress : (digest : Bytes) → (sig : Bytes) → Except String Bytes
  bech32Encode : (hrp : Str) → (raw : Bytes) → Except String Str
  hexErrorText : (s : Str) → String
  marshalTime : (sec : Int) → Except String Unit
  /-- `NIL_CHAIN_ID`, parsed with `strconv.ParseInt`. -/
  chainIdSetting : Option Int
  requireRetrievalReqSig : Bool

/-- The fields of the message that the owner signs. -/
structure RetrievalRequest where
  dealId : UInt64
  filePath : Str
  rangeStart : UInt64
  rangeLen : UInt64
  nonce : UInt64
  expiresAt : UInt64
deriving DecidableEq

/-! ### The signature -/

/-- `eip712ChainID`. Without a setting, and with one that is not positive, it is the local chain. -/
def eip712ChainID (env : RequestEnv) : UInt64 :=
  match env.chainIdSetting with
  | some n => if n > 0 then .ofNat n.toNat else 31337
  | none => 31337

/-- The preimage of `HashRetrievalRequest`. The path enters by its hash, so all fields have a fixed
length. -/
def retrievalRequestPreimage (keccak256 : Bytes → Bytes) (req : RetrievalRequest) : Bytes :=
  keccak256String keccak256
      ("RetrievalRequest(uint64 deal_id,string file_path,uint64 range_start,uint64 range_len," ++
        "uint64 nonce,uint64 expires_at)") ++
    paddedBigBytes (setUint64 req.dealId) ++ keccak256 (utf8 req.filePath) ++
    paddedBigBytes (setUint64 req.rangeStart) ++ paddedBigBytes (setUint64 req.rangeLen) ++
    paddedBigBytes (setUint64 req.nonce) ++ paddedBigBytes (setUint64 req.expiresAt)

/-- `HashRetrievalRequest`. It is the struct hash of the message. -/
def hashRetrievalRequest (keccak256 : Bytes → Bytes) (req : RetrievalRequest) : Bytes :=
  keccak256 (retrievalRequestPreimage keccak256 req)

/-- The digest that the owner signs. The domain has the chain id of the gateway. -/
def requestDigest (env : RequestEnv) (req : RetrievalRequest) : Bytes :=
  computeEIP712Digest env.keccak256 (hashDomainSeparator env.keccak256 (eip712ChainID env))
    (hashRetrievalRequest env.keccak256 req)

/-- `hex.DecodeString`. The text of its error is left to the library. -/
def hexDecodeString (env : RequestEnv) (s : Str) : Except String Bytes :=
  orFail (hexDecode s) (env.hexErrorText s)

/-- `decodeHex`. One `0x` is taken off. -/
def decodeHex (env : RequestEnv) (s : Str) : Except String Bytes :=
  hexDecodeString env (trimPrefix s "0x".toList)

/-- `recoverEvmAddressFromDigest`. The recovery id is 0 or 1, or 27 or 28. -/
def recoverRequestSigner (env : RequestEnv) (digest sig : Bytes) : Except String Bytes := do
  rejectIf (digest.length ≠ 32) ("invalid digest length: " ++ toString digest.length)
  rejectIf (sig.length ≠ 65) ("invalid signature length: " ++ toString sig.length)
  let v := sig.getD 64 0
  let id := if v = 27 ∨ v = 28 then v - 27 else v
  rejectIf (id ≠ 0 ∧ id ≠ 1) ("invalid signature v: " ++ toString v)
  env.sigToAddress digest (sig.set 64 id)

/-- `evmHexToNilAddress`. Both addresses are made of the same 20 bytes. -/
def evmHexToNilAddress (env : RequestEnv) (hexAddr : Str) : Except String Str := do
  let raw ← hexDecodeString env (trimPrefix (toLower (trimSpace hexAddr)) "0x".toList)
  rejectIf (raw.length ≠ 20) ("invalid EVM address length: " ++ toString raw.length)
  env.bech32Encode "nil".toList raw

/-- The number of seconds in `time.Now().Unix()`, as `uint64`. -/
def unixSeconds (now : Nat) : UInt64 := .ofNat (now / 10 ^ 9)

/-- `verifyRetrievalRequestSignature` at a time. The message has the trimmed path. -/
def verifyRetrievalRequestSignature (env : RequestEnv) (now : Nat) (dealOwner : Str)
    (req : RetrievalRequest) (sigHex : Str) : Except String Unit := do
  rejectIf (trimSpace sigHex = []) "req_sig is required"
  rejectIf (req.expiresAt = 0) "req_expires_at is required"
  -- Allow a small clock skew, but never accept long-lived tickets.
  rejectIf (req.expiresAt + 30 < unixSeconds now) "request signature expired"
  rejectIf (req.expiresAt > unixSeconds now + 10 * 60)
    "request signature expires too far in the future"
  rejectIf (req.nonce = 0) "req_nonce is required"
  let req := { req with filePath := trimSpace req.filePath }
  rejectIf (req.filePath = []) "file_path is required"
  let sig ← (decodeHex env sigHex).mapError ("invalid req_sig: " ++ ·)
  rejectIf (sig.length ≠ 65) ("invalid req_sig length: " ++ toString sig.length)
  let evmAddr ← (recoverRequestSigner env (requestDigest env req) sig).mapError
    ("failed to recover request signer: " ++ ·)
  let nilAddr ← (evmHexToNilAddress env (lowerHex evmAddr)).mapError
    ("failed to map request signer to nil address: " ++ ·)
  rejectIf (trimSpace nilAddr ≠ trimSpace dealOwner) "request signer is not deal owner"

/-! ### The replay store -/

/-- The bucket `request_replays`: under each key the instant, in seconds, at which the entry
expires. -/
abbrev ReplayStore : Type := KVStore Str Int

/-- `fmt.Sprintf("%d|%s|%d", dealID, owner, nonce)`. An entry of the store is found under it. -/
def replayKey (dealId : UInt64) (owner : Str) (nonce : UInt64) : Str :=
  decimal dealId.toNat ++ '|' :: owner ++ '|' :: decimal nonce.toNat

/-- `now.Before(time.Unix(sec, 0))`. -/
def beforeInstant (now : Nat) (sec : Int) : Bool := (now : Int) < sec * 10 ^ 9

/-- The instant that `time.Unix(int64(expiresAt), 0)` is. It is negative from 2^63 on. -/
def expiryInstant (expiresAt : UInt64) : Int := newInt64 expiresAt

/-- `checkAndStoreRequestReplay` with a session database. The new entry takes the place of an
expired one. -/
def checkAndStoreRequestReplay (env : RequestEnv) (now : Nat) (dealId : UInt64) (owner : Str)
    (nonce expiresAt : UInt64) (store : ReplayStore) : Except String ReplayStore := do
  rejectIf (nonce = 0) "nonce is required"
  rejectIf (owner = []) "owner is required"
  rejectIf (expiresAt = 0) "expiresAt is required"
  -- an entry that has expired does not count any more
  rejectIf ((store.get (replayKey dealId owner nonce)).any (beforeInstant now)) "replay detected"
  env.marshalTime (expiryInstant expiresAt)
  return store.set (replayKey dealId owner nonce) (expiryInstant expiresAt)

/-! ### The two handlers -/

/-- The parts of an HTTP request that the handlers read. -/
structure HttpRequest where
  cid : Str
  header : String → Str
  query : String → Str

/-- A parameter: the header, or else the query. Both are trimmed. -/
def HttpRequest.param (r : HttpRequest) (header query : String) : Str :=
  if trimSpace (r.header header) = [] then trimSpace (r.query query)
    else trimSpace (r.header header)

/-- `validateNilfsFilePath`. The path that comes out is the trimmed one. -/
def validateNilfsFilePath (raw : Str) : Except String Str := do
  let filePath := trimSpace raw
  rejectIf (filePath = []) "file_path is required"
  rejectIf (hasPrefix filePath "/".toList) "file_path must be relative (no leading /)"
  rejectIf ('\\' ∈ filePath) "file_path must not contain \\\\ separators"
  rejectIf ('\x00' ∈ filePath) "file_path contains NUL byte"
  rejectIf (filePath.any fun c => c.toNat < 0x20 ∨ c.toNat = 0x7f)
    "file_path contains control characters"
  rejectIf ("..".toList ∈ filePath.splitOn '/') "file_path must not contain traversal segments (..)"
  return filePath

/-- `GatewayOpenSession`, and `GatewayFetch` with the id of an on-chain session, with the id of a
download session, and with neither. -/
inductive Endpoint where
  | openSession
  | fetchOnchain
  | fetchDownload
  | fetch
deriving DecidableEq

/-- Whether the handler asks for a signature. The fetches of a download session never ask for
one. -/
def Endpoint.requiresSig (env : RequestEnv) : Endpoint → Bool
  | .fetchDownload => false
  | _ => env.requireRetrievalReqSig

/-- Whether it comes to `checkAndStoreRequestReplay`. -/
def Endpoint.consumesNonce (env : RequestEnv) : Endpoint → Bool
  | .openSession => true
  | .fetch => env.requireRetrievalReqSig
  | .fetchOnchain | .fetchDownload => false

/-- The claimed owner, the message and the signature of a request. -/
structure Presented where
  owner : Str
  message : RetrievalRequest
  sig : Str
deriving DecidableEq

/-- A numeric parameter of the signed message. -/
def parseSigned (name : String) (raw : Str) : Except JsonError UInt64 :=
  orFail (parseUint raw) ⟨400, "invalid " ++ name, ""⟩

/-- The signed fields, in the order in which they are parsed. Without a signature the nonce and the
expiry are zero. -/
def readSigned (required : Bool) (dealId : UInt64) (filePath : Str) (r : HttpRequest) :
    Except JsonError RetrievalRequest :=
  let rawStart := r.param "X-Nil-Req-Range-Start" "req_range_start"
  let rawLen := r.param "X-Nil-Req-Range-Len" "req_range_len"
  if required then do
    rejectIf (r.param "X-Nil-Req-Sig" "req_sig" = []) ⟨400, "req_sig is required", ""⟩
    let nonce ← parseSigned "req_nonce" (r.param "X-Nil-Req-Nonce" "req_nonce")
    let expiresAt ← parseSigned "req_expires_at" (r.param "X-Nil-Req-Expires-At" "req_expires_at")
    let rangeStart ← parseSigned "req_range_start" rawStart
    let rangeLen ← parseSigned "req_range_len" rawLen
    return ⟨dealId, filePath, rangeStart, rangeLen, nonce, expiresAt⟩
  else .ok ⟨dealId, filePath, (parseUint rawStart).getD 0, (parseUint rawLen).getD 0, 0, 0⟩

/-- What a handler reads before it asks the chain. `GatewayFetch` without a session signs one
blob. -/
def readRequest (env : RequestEnv) (endpoint : Endpoint) (r : HttpRequest) :
    Except JsonError Presented := do
  rejectIf (trimSpace r.cid = []) ⟨400, "manifest_root path parameter is required", ""⟩
  let rawDealId := trimSpace (r.query "deal_id")
  let owner := trimSpace (r.query "owner")
  rejectIf (rawDealId = [] ∨
    owner = []) ⟨400, "deal_id and owner query parameters are required", ""⟩
  let filePath ← (validateNilfsFilePath (r.query "file_path")).mapError fun text =>
    ⟨400, "invalid file_path", if endpoint = .openSession then text else
      "List files via GET /gateway/list-files/<manifest_root>?deal_id=<id>&owner=<owner>"⟩
  let dealId ← parseSigned "deal_id" rawDealId
  let req ← readSigned (endpoint.requiresSig env) dealId filePath r
  rejectIf (endpoint = .fetch ∧ endpoint.requiresSig env ∧ req.rangeLen > blobSizeBytes)
    ⟨400, "range too large", "req_range_len must be <= " ++ toString blobSizeBytes⟩
  return ⟨owner, req, r.param "X-Nil-Req-Sig" "req_sig"⟩

/-- A request on its way through a handler. `dealOwner` is what `fetchDealOwnerAndCID` answers, and
`guards` are the checks after the signature. The signature is checked at one time, and the nonce at
another. -/
structure Arrival where
  endpoint : Endpoint
  request : HttpRequest
  dealOwner : Except JsonError Str
  guards : Except JsonError Unit
  verifiedAt : Nat
  storedAt : Nat

/-- The owner and the message of a request for which both functions returned no error. -/
abbrev Honoured : Type := Str × RetrievalRequest

/-- The check of the signature, where there is one. -/
def checkSignature (env : RequestEnv) (a : Arrival) (dealOwner : Str) (p : Presented) :
    Except JsonError Unit :=
  if a.endpoint.requiresSig env then
    (verifyRetrievalRequestSignature env a.verifiedAt dealOwner p.message p.sig).mapError
      fun text => ⟨403, "forbidden: invalid retrieval request signature", text⟩
  else .ok ()

/-- The replay store after the request, where it comes to it. -/
def consumeNonce (env : RequestEnv) (a : Arrival) (p : Presented) (store : ReplayStore) :
    Except JsonError ReplayStore :=
  if a.endpoint.consumesNonce env then
    (checkAndStoreRequestReplay env a.storedAt p.message.dealId p.owner p.message.nonce
      p.message.expiresAt store).mapError fun text => ⟨409, "replay rejected", text⟩
  else .ok store

/-- The handler: the replay store afterwards, and what was honoured. The nonce is used up only after
all other checks. -/
def handleRequest (env : RequestEnv) (store : ReplayStore) (a : Arrival) :
    Except JsonError (ReplayStore × Option Honoured) := do
  let p ← readRequest env a.endpoint a.request
  let dealOwner ← a.dealOwner
  rejectIf (dealOwner = [] ∨ dealOwner ≠ p.owner) ⟨403, "forbidden: owner does not match deal", ""⟩
  checkSignature env a dealOwner p
  a.guards
  let store ← consumeNonce env a p store
  return (store, if a.endpoint.requiresSig env ∧ a.endpoint.consumesNonce env then
    some (p.owner, p.message) else none)

/-! ### Runs -/

/-- What happens to the gateway. Requests are handled one at a time. -/
inductive GatewayEvent where
  | request (a : Arrival)
  /-- The gateway stops and opens the same database again. -/
  | restart

/-- The replay store after an event. A request that is refused leaves it as it was. -/
def gatewayStep (env : RequestEnv) (store : ReplayStore) : GatewayEvent → ReplayStore
  | .request a =>
      match handleRequest env store a with
      | .ok (store', _) => store'
      | .error _ => store
  | .restart => store

/-- The signed request that an event honours. A request whose handler asks for no signature is
none. -/
def honouredAt (env : RequestEnv) (store : ReplayStore) : GatewayEvent → List Honoured
  | .request a =>
      match handleRequest env store a with
      | .ok (_, honoured) => honoured.toList
      | .error _ => []
  | .restart => []

/-- The signed requests that a run honours, first to last. -/
def honouredBy (env : RequestEnv) (store : ReplayStore) (es : List GatewayEvent) : List Honoured :=
  trace (gatewayStep env) (honouredAt env) store es

end NilStore.Gateway
