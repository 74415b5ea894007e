import NilStore.Gateway.DownloadSession
import NilStore.Gateway.PlanSession

/-!
# `NilStore.Gateway.Fetch`: the range of a fetch

`GatewayFetch` of `nil_gateway/main.go` serves bytes of a file in one of several modes: with a
request signed for one chunk, within a download session, within an on-chain session with or without
a signed request, and unsigned. Each mode has its own rules for the range. This is the part of the
handler that finds the range, the bytes and the blob of the proof. Its other checks (owner,
signature, sessions, provider, proof) are inputs: the error of the first one that fails.

A range length of zero means that no length is given, and then the range goes on to the end of the
file.
-/

set_option autoImplicit false

namespace NilStore.Gateway

open NilStore.Lib NilStore.Chain

/-! ### What the handler reads -/

/-- `slabFileInfo`, and the witness count of its slab. The length of a record has 56 bits. -/
structure SlabFileInfo where
  startOffset : UInt64
  length : UInt64
  witnessCount : UInt64
  length_lt : length.toNat < 2 ^ 56

/-- The session that the request names: none, one of the chain, or a download of the gateway. -/
inductive FetchSession where
  | none
  | onchain
  | download (session : DownloadSession)

/-- A request to `GatewayFetch`, with the signed range where the mode asks for one. -/
structure FetchRequest where
  requireRetrievalReqSig : Bool
  session : FetchSession
  signedRangeStart : UInt64
  signedRangeLen : UInt64
  rangeHeader : Str

/-- The file as the handler finds it: the service hint of its deal, the record in the index of the
slab, and the record that `GetFileMetaByPath` reads. -/
structure FetchedFile where
  serviceHint : Except String Str
  info : Except FileMetaError SlabFileInfo
  fileMeta : Except FileMetaError FileMeta

/-- The stripe of the deal. It is found as for a plan. -/
def FetchedFile.stripe (file : FetchedFile) : StripeParams := planStripe file.serviceHint

/-- The checks that have nothing to do with the range, in their places. -/
structure FetchGuards where
  /-- Up to the sessions. -/
  access : Except JsonError Unit
  /-- `ensureMode2MduOnDisk`. -/
  reconstruct : Except JsonError Unit
  /-- The decoded reader. -/
  openReader : Except JsonError Unit
  /-- The provider, the proof, and the recording of what is served. -/
  proveAndRecord : Except JsonError Unit

namespace FetchRequest

/-- Whether a request belongs to a download session of the gateway. -/
def isDownloadSession (req : FetchRequest) : Bool :=
  match req.session with
  | .none => false
  | _ => true

/-- Whether a request belongs to a session opened on the chain. -/
def isOnchainSession (req : FetchRequest) : Bool :=
  match req.session with
  | .onchain => true
  | _ => false

/-- `requireReqSig`. A request of a download of the gateway need not be signed, one of a session of
the chain has to be. -/
def requireReqSig (req : FetchRequest) : Bool :=
  req.requireRetrievalReqSig && (!req.isDownloadSession || req.isOnchainSession)

end FetchRequest

/-! ### The `Range` header -/

/-- `parseHTTPRange`: the first byte and the number of bytes. -/
def parseHTTPRange (header : Str) : Except String (UInt64 × UInt64) := do
  let header := trimSpace header
  rejectIf (header = []) "empty Range"
  rejectIf (hasPrefix (toLower header) "bytes=".toList = false) "unsupported range unit"
  let spec := trimSpace (header.drop 6)
  rejectIf (spec = [] ∨ ',' ∈ spec) "multiple ranges not supported"
  let parts := spec.splitOn '-'
  rejectIf (parts.length ≠ 2) "invalid range format"
  let first := trimSpace (parts.getD 0 [])
  let last := trimSpace (parts.getD 1 [])
  rejectIf (first = [] ∨ last = []) "open-ended ranges not supported"
  let s ← orFail (parseUint first) "invalid range start"
  let e ← orFail (parseUint last) "invalid range end"
  rejectIf (e < s) "invalid range end before start"
  return (s, e - s + 1)

/-- The range of the header: zeros without one. -/
def rangeOfHeader (req : FetchRequest) : Except JsonError (UInt64 × UInt64) :=
  if req.rangeHeader = [] then .ok (0, 0)
  else (parseHTTPRange req.rangeHeader).mapError fun text => ⟨400, "invalid Range header", text⟩

/-! ### The rules of the modes -/

/-- The header of a chunk has to be there, with a length of at most one blob. -/
def checkChunk (req : FetchRequest) (missing : String) (headerLen : UInt64) :
    Except JsonError Unit := do
  rejectIf (req.rangeHeader = []) ⟨400, "Range header is required", missing⟩
  rejectIf (headerLen = 0) ⟨400, "invalid Range header", "range length must be non-zero"⟩
  rejectIf (headerLen > blobSizeBytes)
    ⟨400, "range too large", "range must be <= " ++ toString blobSizeBytes⟩

/-- The chunk lies within a signed range, or within that of a session. Both are checked alike. -/
def checkWithin (error name : String) (outerStart outerLen start len : UInt64) :
    Except JsonError Unit := do
  rejectIf (start < outerStart) ⟨400, error, "range_start before " ++ name ++ " start"⟩
  rejectIf (outerLen > 0 ∧ start + len < start) ⟨400, error, "range overflow"⟩
  rejectIf (outerLen > 0 ∧ outerStart + outerLen < outerStart) ⟨400, error,
    name ++ " range overflow"⟩
  rejectIf (outerLen > 0 ∧ start + len > outerStart + outerLen)
    ⟨400, error, "range exceeds " ++ name ++ " limit"⟩

/-- The check of a chunk of a session against the range that its owner has signed. -/
def checkSessionRange (req : FetchRequest) (start len : UInt64) : Except JsonError Unit :=
  match req.session with
  | .none => .ok ()
  | .onchain =>
      if req.requireReqSig then
        checkWithin "range outside signed request" "signed" req.signedRangeStart
          req.signedRangeLen start len
      else .ok ()
  | .download s => checkWithin "range outside session" "session" s.rangeStart s.rangeLen start len

/-- The rules for a request that is signed for one chunk. -/
def signedChunkRange (req : FetchRequest) (header : UInt64 × UInt64) :
    Except JsonError (UInt64 × UInt64) := do
  rejectIf (req.rangeHeader ≠ [] ∧ req.signedRangeLen = 0)
    ⟨400, "range must be signed", "include range_start/range_len in the signed retrieval request"⟩
  rejectIf (req.signedRangeLen > 0 ∧ req.rangeHeader ≠ [] ∧
      header ≠ (req.signedRangeStart, req.signedRangeLen))
    ⟨400, "range mismatch", "Range header must match signed request"⟩
  return (req.signedRangeStart, req.signedRangeLen)

/-- The rules for an unsigned request. Without a header the file has to fit into one blob. -/
def unsignedRange (req : FetchRequest) (file : FetchedFile) (header : UInt64 × UInt64) :
    Except JsonError (UInt64 × UInt64) :=
  if req.rangeHeader = [] then do
    let long := match file.info with
      | .ok info => decide (info.length > blobSizeBytes)
      | .error _ => false
    rejectIf (long = true) ⟨400, "Range header is required", "unsigned fetches must be chunked"⟩
    return (0, 0)
  else do
    checkChunk req "unsigned fetches must be chunked" header.2
    return header

/-- The requested range: `reqRangeStart` and `reqRangeLen`. Each kind of request has rules of its
own for it. -/
def requestedRange (req : FetchRequest) (file : FetchedFile) :
    Except JsonError (UInt64 × UInt64) := do
  let header ← rangeOfHeader req
  if req.isDownloadSession then do
    checkChunk req "download_session fetches must be chunked" header.2
    checkSessionRange req header.1 header.2
    return header
  else if req.requireRetrievalReqSig then signedChunkRange req header
  else unsignedRange req file header

/-! ### The bytes and their blob -/

/-- What the handler sends for an error of the index. Its hint, which names the path to list the
files, is left out. -/
def indexError (notExist : JsonError) : FileMetaError → JsonError
  | .notExist => notExist
  | .other _ => ⟨500, "failed to resolve file", ""⟩

/-- What the reader is opened for: the file, and a range of it. -/
@[ext] structure Segment where
  info : SlabFileInfo
  rangeStart : UInt64
  segmentLen : UInt64

/-- The offset of the first byte in the user data of the slab. -/
def Segment.absOffset (seg : Segment) : UInt64 := seg.info.startOffset + seg.rangeStart

/-- `resolveNilfsFileSegmentForFetch`. A range that is too long is cut at the end of the file, and a
length of 0 asks for all the rest. -/
def resolveNilfsFileSegmentForFetch (info : SlabFileInfo) (rangeStart rangeLen : UInt64) :
    Except String Segment := do
  rejectIf (rangeStart ≥ info.length) "rangeStart beyond EOF"
  let remaining := info.length - rangeStart
  return ⟨info, rangeStart, if rangeLen ≠ 0 ∧ rangeLen < remaining then rangeLen else remaining⟩

/-- The blob of the first byte; zero when it cannot be mapped. -/
def firstBlob (seg : Segment) : UInt32 :=
  match rawOffsetToEncodedBlobIndex (seg.absOffset % rawMduCapacityU64) with
  | .ok blobIndex => blobIndex
  | .error _ => 0

/-- The check that a range stays within one MDU and one blob. One proof covers no more than that. -/
def checkOneBlob (seg : Segment) : Except JsonError Unit := do
  let endAbs := seg.absOffset + seg.segmentLen - 1
  rejectIf (seg.absOffset / rawMduCapacityU64 ≠ endAbs / rawMduCapacityU64)
    ⟨400, "range crosses MDU boundary", "split into multiple requests"⟩
  rejectIf (rawOffsetToEncodedBlobIndex (endAbs % rawMduCapacityU64) ≠ .ok (firstBlob seg))
    ⟨400, "range crosses blob boundary", "split into multiple requests"⟩

/-- The check in Mode 2 before the MDU is reconstructed. -/
def checkMode2 (file : FetchedFile) (guards : FetchGuards) (rangeStart : UInt64) :
    Except JsonError Unit :=
  if file.stripe.mode = 2 then do
    let fileMeta ← file.fileMeta.mapError fun
      | .notExist => ⟨404, "file not found in deal", ""⟩
      | .other text => ⟨500, "failed to resolve file metadata", text⟩
    rejectIf (fileMeta.length = 0 ∨ rangeStart ≥ fileMeta.length) ⟨416, "range not satisfiable", ""⟩
    guards.reconstruct
  else .ok ()

/-- What is served: the bytes from `rangeStart` on, the blob for which the proof is made, and its
leaf. The session and the headers record `servedLen` as `RangeLen` and as `BytesServed`. -/
structure Served where
  info : SlabFileInfo
  rangeStart : UInt64
  servedLen : UInt64
  mduIndex : UInt64
  blobIndex : UInt32
  leafIndex : UInt64

/-- An unsigned request without a header. -/
def FetchRequest.implicitRange (req : FetchRequest) : Bool :=
  !req.requireRetrievalReqSig && !req.isDownloadSession && req.rangeHeader.isEmpty

/-- The leaf of a blob; the blob itself when it cannot be mapped. -/
def leafOrBlob (stripe : StripeParams) (blobIndex : UInt32) : UInt64 :=
  match leafIndexForBlobIndex blobIndex stripe with
  | .ok leafIndex => leafIndex
  | .error _ => blobIndex.toUInt64

/-- The limit on a signed chunk, the limit on a response without a range, and the check of the
blob. -/
def checkServedRange (req : FetchRequest) (rangeLen : UInt64) (seg : Segment) :
    Except JsonError Unit := do
  rejectIf (req.implicitRange = true ∧ seg.segmentLen > blobSizeBytes)
    ⟨400, "Range header is required", "unsigned fetches must be chunked"⟩
  -- Range requests must stay within a single physical MDU and blob for now.
  if rangeLen > 0 ∨ req.implicitRange = true then checkOneBlob seg else .ok ()

/-- `GatewayFetch`. The range is checked twice: as it was asked for, and as it lies in the slab. -/
def gatewayFetch (req : FetchRequest) (file : FetchedFile) (guards : FetchGuards) :
    Except JsonError Served := do
  rejectIf (req.requireReqSig = true ∧ req.isDownloadSession = false ∧
    req.signedRangeLen > blobSizeBytes)
    ⟨400, "range too large", "req_range_len must be <= " ++ toString blobSizeBytes⟩
  guards.access
  let range ← requestedRange req file
  checkMode2 file guards range.1
  let info ← file.info.mapError (indexError ⟨404, "file not found in deal", ""⟩)
  let seg ← (resolveNilfsFileSegmentForFetch info range.1 range.2).mapError fun _ =>
    ⟨500, "failed to resolve file", ""⟩
  guards.openReader
  rejectIf (seg.segmentLen = 0) ⟨416, "range not satisfiable", ""⟩
  checkServedRange req range.2 seg
  guards.proveAndRecord
  return ⟨info, seg.rangeStart, seg.segmentLen,
    1 + info.witnessCount + seg.absOffset / rawMduCapacityU64,
    firstBlob seg, leafOrBlob file.stripe (firstBlob seg)⟩

end NilStore.Gateway
