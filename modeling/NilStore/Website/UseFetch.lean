import NilStore.Lib.GoString
import NilStore.Lib.Grouping
import NilStore.Website.RangeChunker

/-!
# `NilStore.Website.UseFetch`: a download by the browser

`fetchFile` of `nil-website/src/hooks/useFetch.ts`. The chunks of the range are planned one by one
and put into groups by their providers. One session is opened for each group, the groups are fetched
one after the other, and what comes back is joined in this order.

The calls that leave the page are the fields of `FetchEnv`. The choice of an endpoint for them
(`directBase`, `p2pTarget`, `preference`) and the progress that is shown are left out.
-/

set_option autoImplicit false

namespace NilStore.Website

open NilStore.Lib

/-! ### Texts -/

/-- What `String.prototype.trim` takes for white space. -/
def isTrimmed (c : Char) : Bool :=
  let n := c.toNat
  (9 ≤ n ∧ n ≤ 13) ∨ n = 0x20 ∨ n = 0xA0 ∨ n = 0x1680 ∨ (0x2000 ≤ n ∧ n ≤ 0x200A) ∨ n = 0x2028 ∨
    n = 0x2029 ∨ n = 0x202F ∨ n = 0x205F ∨ n = 0x3000 ∨ n = 0xFEFF

/-- `String.prototype.trim`. -/
def trim (s : Str) : Str := ((s.dropWhile isTrimmed).reverse.dropWhile isTrimmed).reverse

/-- `normalizeDealId`. The digits stay as they were written. -/
def normalizeDealId (dealId : Str) : Except String Str :=
  let trimmed := trim dealId
  if trimmed = [] ∨ ¬trimmed.all Char.isDigit then .error "dealId must be a non-negative integer"
  else .ok trimmed

/-- `BigInt` of a text of digits. -/
def bigInt (digits : Str) : Nat := digits.foldl (fun n c => n * 10 + (c.toNat - '0'.toNat)) 0

/-! ### The calls -/

/-- `FetchInput`, without the base URL. -/
structure FetchInput where
  dealId : Str
  manifestRoot : Str
  owner : Str
  filePath : Str
  rangeStart : Option Nat
  rangeLen : Option Nat
  fileStartOffset : Option Nat
  fileSizeBytes : Option Nat
  mduSizeBytes : Option Nat
  blobSizeBytes : Option Nat

/-- The file that is asked for, after the checks of the input. -/
structure FileRef where
  manifestRoot : Str
  owner : Str
  dealId : Str
  filePath : Str
deriving DecidableEq

/-- `PlanRequest`. -/
structure PlanRequest where
  file : FileRef
  rangeStart : Nat
  rangeLen : Nat
deriving DecidableEq

/-- The fields of `GatewayPlanResponse` that are read. A number that is not there is zero. -/
structure GatewayPlanResponse where
  provider : Str
  startMduIndex : Nat
  startBlobIndex : Nat
  blobCount : Nat
deriving DecidableEq

/-- `PlannedChunk`: a chunk with the provider and the blobs that the gateway has planned for it. -/
structure PlannedChunk where
  rangeStart : Nat
  rangeLen : Nat
  provider : Str
  startMduIndex : Nat
  startBlobIndex : Nat
  blobCount : Nat
deriving DecidableEq

/-- A session to open: the blobs of one provider, with its nonce. -/
structure OpenRequest where
  dealId : Nat
  provider : Str
  manifestRoot : Str
  startMduIndex : Nat
  startBlobIndex : Nat
  blobCount : Nat
  nonce : Nat
  expiresAt : Nat
deriving DecidableEq

/-- `FetchRangeAuth`: the signature of a request and the range that it is for. -/
structure FetchRangeAuth where
  reqSig : Str
  reqNonce : Nat
  reqExpiresAt : Nat
  signedRangeStart : Nat
  signedRangeLen : Nat
deriving DecidableEq

/-- `FetchRangeRequest`: one chunk in one session. -/
structure FetchRangeRequest where
  file : FileRef
  rangeStart : Nat
  rangeLen : Nat
  sessionId : Str
  auth : Option FetchRangeAuth
  expectedProvider : Str

/-- What `fetchRange` throws: an error that asks for a signature (`shouldSignMetaAuth`), or
another. -/
inductive FetchError where
  | signatureWanted (text : String)
  | other (text : String)

/-- The text of an error of either kind. -/
def FetchError.text : FetchError → String
  | .signatureWanted text => text
  | .other text => text

/-- The transport, the wallet and the chain, as the page finds them. -/
structure FetchEnv where
  /-- `transport.plan`. -/
  plan : PlanRequest → Except String GatewayPlanResponse
  /-- `Date.now`, when the sessions are opened. -/
  openBaseNonce : Nat
  /-- `computeRetrievalSessionIds`: the providers and the sessions. -/
  computeRetrievalSessionIds : List OpenRequest → Except String (List Str × List Str)
  /-- `openRetrievalSessions`, with its receipt. -/
  openRetrievalSessions : List OpenRequest → Except String Unit
  /-- `transport.fetchRange`. -/
  fetchRange : FetchRangeRequest → Except FetchError Bytes
  /-- `signMetaAuth`, for a range of a file. -/
  signMetaAuth : PlanRequest → Except String FetchRangeAuth
  /-- `confirmRetrievalSessions`, with its receipt. -/
  confirmRetrievalSessions : List Str → Except String Unit
  /-- `/gateway/session-proof`, for a session and its provider. -/
  sessionProof : Str → Str → Except String Unit

/-! ### The plan of a download -/

section Plan

variable (input : FetchInput)

/-- `blobSizeBytes`, where zero is not a size. -/
def FetchInput.blobSize : Nat :=
  match input.blobSizeBytes with
  | none | some 0 => 128 * 1024
  | some n => n

/-- `mduSizeBytes`, where zero is not a size. -/
def FetchInput.mduSize : Nat :=
  match input.mduSizeBytes with
  | none | some 0 => 8 * 1024 * 1024
  | some n => n

/-- `wantRangeStart`. Without a value the range starts with the file. -/
def FetchInput.wantRangeStart : Nat := input.rangeStart.getD 0

/-- `effectiveRangeLen`. -/
def FetchInput.effectiveRangeLen : Except String Nat :=
  let wantRangeLen := input.rangeLen.getD 0
  let wantFileSize := input.fileSizeBytes.getD 0
  if wantRangeLen = 0 then do
    rejectIf (wantFileSize = 0) "fileSizeBytes is required for full downloads (rangeLen=0)"
    rejectIf (input.wantRangeStart ≥ wantFileSize) "rangeStart beyond EOF"
    return wantFileSize - input.wantRangeStart
  else .ok wantRangeLen

/-- The chunks of the range. Where the layout of the file is not known, the range is one chunk. -/
def FetchInput.chunks (rangeLen : Nat) : Except String (List FileRangeChunk) :=
  match input.fileStartOffset, input.fileSizeBytes, input.mduSizeBytes, input.blobSizeBytes with
  | some fileStartOffset, some fileSizeBytes, some mduSizeBytes, some blobSizeBytes =>
      planNilfsFileRangeChunks
        ⟨fileStartOffset, fileSizeBytes, input.wantRangeStart, rangeLen, mduSizeBytes,
          blobSizeBytes⟩
  | _, _, _, _ =>
      if rangeLen > input.blobSize then
        .error "range fetch > blob size requires fileStartOffset/fileSizeBytes/mduSizeBytes/blobSizeBytes"
      else .ok [⟨input.wantRangeStart, rangeLen⟩]

/-- The checks of the texts. They come before anything is asked of the gateway. -/
def FetchInput.fileRef : Except String FileRef := do
  let dealId ← normalizeDealId input.dealId
  let owner := trim input.owner
  rejectIf (owner = []) "owner is required"
  let filePath := trim input.filePath
  rejectIf (filePath = []) "filePath is required"
  let manifestRoot := trim input.manifestRoot
  rejectIf (¬hasPrefix manifestRoot "0x".toList) "manifestRoot must be 0x-prefixed hex bytes"
  return ⟨manifestRoot, owner, dealId, filePath⟩

end Plan

/-- The plan of a chunk, and the checks of the answer. -/
def planChunk (env : FetchEnv) (file : FileRef) (c : FileRangeChunk) :
    Except String PlannedChunk := do
  let planJson ← env.plan ⟨file, c.rangeStart, c.rangeLen⟩
  let provider := trim planJson.provider
  rejectIf (provider = []) "gateway plan did not return provider"
  rejectIf (planJson.startMduIndex = 0) "gateway plan did not return start_mdu_index"
  rejectIf (planJson.blobCount = 0) "gateway plan did not return blob_count"
  return ⟨c.rangeStart, c.rangeLen, provider, planJson.startMduIndex, planJson.startBlobIndex,
    planJson.blobCount⟩

/-- What is known before any session is opened. -/
structure DownloadPlan where
  file : FileRef
  rangeStart : Nat
  rangeLen : Nat
  leafCount : Nat
  plannedChunks : List PlannedChunk

/-- `fetchFile`, up to the plans of the chunks. No session is open yet. -/
def planDownload (env : FetchEnv) (input : FetchInput) : Except String DownloadPlan := do
  let file ← input.fileRef
  let rangeLen ← input.effectiveRangeLen
  let chunks ← input.chunks rangeLen
  let plannedChunks ← chunks.mapM (planChunk env file)
  return ⟨file, input.wantRangeStart, rangeLen, max 1 (input.mduSize / input.blobSize),
    plannedChunks⟩

/-! ### Groups and sessions -/

/-- A value of `providerGroups`: the chunks of a provider, and the blobs between the first and the
last. -/
structure ProviderGroup where
  provider : Str
  chunks : List PlannedChunk
  globalStart : Nat
  globalEnd : Nat

/-- Put a chunk into the group of its provider, which need not exist yet. The group spans from its
first to its last leaf. -/
def addToGroup (leafCount : Nat) (existing : Option ProviderGroup) (chunk : PlannedChunk) :
    ProviderGroup :=
  let globalStart := chunk.startMduIndex * leafCount + chunk.startBlobIndex
  let globalEnd := globalStart + chunk.blobCount - 1
  match existing with
  | some existing =>
      { existing with
        chunks := existing.chunks ++ [chunk]
        globalStart :=
          if globalStart < existing.globalStart then globalStart else existing.globalStart
        globalEnd := if globalEnd > existing.globalEnd then globalEnd else existing.globalEnd }
  | none => ⟨chunk.provider, [chunk], globalStart, globalEnd⟩

/-- `providerGroups`, in the order of the map. -/
def providerGroups (leafCount : Nat) (plannedChunks : List PlannedChunk) : List ProviderGroup :=
  (groupOn (·.provider) (addToGroup leafCount) plannedChunks).map Prod.snd

/-- The session of a group. Its blobs are counted through, over the MDUs. -/
def openRequest (openBaseNonce leafCount : Nat) (file : FileRef) (group : ProviderGroup)
    (index : Nat) :
    OpenRequest where
  dealId := bigInt file.dealId
  provider := group.provider
  manifestRoot := file.manifestRoot
  startMduIndex := group.globalStart / leafCount
  startBlobIndex := group.globalStart % leafCount
  blobCount := group.globalEnd - group.globalStart + 1
  nonce := openBaseNonce + index
  expiresAt := 0

/-- `openRequests`. -/
def openRequests (openBaseNonce leafCount : Nat) (file : FileRef) (groups : List ProviderGroup) :
    List OpenRequest :=
  groups.zipIdx.map fun (group, index) => openRequest openBaseNonce leafCount file group index

/-- `sessionsByProvider`. An answer without a provider or without a session is skipped, and the last
one for a provider counts. -/
def sessionsByProvider (computed : List Str × List Str) : List (Str × Str) :=
  (computed.1.zip computed.2).foldl (fun sessions (provider, sessionId) =>
    if trim provider = [] ∨ sessionId = [] then sessions
    else mapUpdate (trim provider) (fun _ => sessionId) sessions) []

/-- The session of a provider. The first one counts. -/
def sessionOf (sessions : List (Str × Str)) (provider : Str) : Option Str :=
  (sessions.find? (·.1 = provider)).map Prod.snd

/-! ### The fetch loop -/

/-- Fetch a chunk. If the request has to be signed, it is signed and sent again, and the signature
is kept for the chunks that follow. -/
def fetchChunk (env : FetchEnv) (signed : PlanRequest) (request : FetchRangeRequest)
    (metaAuth : Option FetchRangeAuth) : Except String (Bytes × Option FetchRangeAuth) :=
  match env.fetchRange { request with auth := metaAuth } with
  | .ok bytes => .ok (bytes, metaAuth)
  | .error (.signatureWanted text) =>
      if metaAuth.isSome then .error text
      else do
        let auth ← env.signMetaAuth signed
        let bytes ← (env.fetchRange { request with auth := some auth }).mapError FetchError.text
        return (bytes, some auth)
  | .error (.other text) => .error text

/-- Fetch a chunk of a group, and keep its bytes. A signature that was once asked for is kept
too. -/
def fetchPart (env : FetchEnv) (plan : DownloadPlan) (sessionId provider : Str)
    (state : List Bytes × Option FetchRangeAuth) (c : PlannedChunk) :
    Except String (List Bytes × Option FetchRangeAuth) := do
  let (buf, metaAuth) ← fetchChunk env ⟨plan.file, plan.rangeStart, plan.rangeLen⟩
    ⟨plan.file, c.rangeStart, c.rangeLen, sessionId, none, provider⟩ state.2
  return (state.1 ++ [buf], metaAuth)

/-- The loop over the chunks of a group. They are all fetched in the one session of their
provider. -/
def fetchGroup (env : FetchEnv) (plan : DownloadPlan) (sessions : List (Str × Str))
    (state : List Bytes × Option FetchRangeAuth) (group : ProviderGroup) :
    Except String (List Bytes × Option FetchRangeAuth) := do
  let sessionId ← orFail (sessionOf sessions group.provider)
    ("missing session for provider " ++ String.ofList group.provider)
  group.chunks.foldlM (fetchPart env plan sessionId group.provider) state

/-- `fetchFile`, from the plans of the chunks on. The sessions are confirmed and proved only after
all chunks have come. -/
def download (env : FetchEnv) (plan : DownloadPlan) : Except String Bytes := do
  let groups := providerGroups plan.leafCount plan.plannedChunks
  let requests := openRequests env.openBaseNonce plan.leafCount plan.file groups
  let computed ← env.computeRetrievalSessionIds requests
  let sessions := sessionsByProvider computed
  groups.forM fun group => rejectIf ((sessionOf sessions group.provider).isNone)
    ("computeRetrievalSessionIds did not return session for " ++ String.ofList group.provider)
  env.openRetrievalSessions requests
  let (parts, _) ← groups.foldlM (fetchGroup env plan sessions) ([], none)
  env.confirmRetrievalSessions (groups.filterMap fun group => sessionOf sessions group.provider)
  groups.forM fun group => do
    let sessionId ← orFail (sessionOf sessions group.provider)
      ("missing session for provider " ++ String.ofList group.provider)
    env.sessionProof sessionId group.provider
  -- `new Blob(parts)`
  return parts.flatten

/-- `fetchFile`: the bytes of the Blob, or the text of the error. -/
def fetchFile (env : FetchEnv) (input : FetchInput) : Except String Bytes := do
  let plan ← planDownload env input
  download env plan

end NilStore.Website
