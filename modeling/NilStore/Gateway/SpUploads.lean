import NilStore.Core.Kzg
import NilStore.Core.Payload
import NilStore.Lib.FileTree
import NilStore.Lib.Runs
import NilStore.Lib.Tx

/-!
# `NilStore.Gateway.SpUploads`: direct uploads to a provider

`SpUploadMdu`, `SpUploadShard` and `SpUploadManifest` of `nil_gateway/main.go`. A client sends an
MDU, the shard of a slot or the manifest of a slab, and the provider stores it in the directory of
the deal and the manifest root. A file that is there with the right size counts as stored. Otherwise
the body goes into a temporary file, which is renamed at the end.

The three handlers check different headers, and then do the same with other sizes and texts:
`decodeMdu`, `decodeShard` and `decodeManifest` say what is to be stored, and `storeUpload` stores
it. The files are a `FileTree`. What the chain says about the deal and the random number of
`os.CreateTemp` come with the request, and the curve arithmetic of `parseManifestRoot` is a
parameter. Errors of the disk are left out, but for `CreateTemp`.
-/

set_option autoImplicit false

namespace NilStore.Gateway

open NilStore.Lib NilStore.Core

/-! ### Requests -/

/-- What `http.Error` sends. There is no JSON around the text. -/
structure PlainError where
  status : Nat
  text : String
deriving DecidableEq

/-- An answer that is no error: 204 to an `OPTIONS` request, or 200. -/
inductive UploadReply where
  | noContent
  | statusOk
deriving DecidableEq

/-- The three routes: for the MDUs of the metadata, the shards and the manifest. -/
inductive UploadEndpoint where
  | mdu
  | shard
  | manifest
deriving DecidableEq

/-- The headers `X-Nil-Deal-ID`, `X-Nil-Mdu-Index`, `X-Nil-Slot` and `X-Nil-Manifest-Root`, and the
body. A body that is sent in chunks has no length of its own. -/
structure UploadRequest where
  options : Bool
  dealId : Str
  mduIndex : Str
  slot : Str
  manifestRoot : Str
  body : Bytes
  chunked : Bool

/-- `r.ContentLength`. -/
def UploadRequest.contentLength (req : UploadRequest) : Int :=
  if req.chunked then -1 else req.body.length

/-- What `ensureDealExistsCached` says. The cache in front of the LCD is not seen here. -/
inductive DealCheck where
  | found
  | notFound
  | failed
deriving DecidableEq

/-- A request at its route, with what the handler is told from outside: the check of the deal, and
the number in the name of the temporary file, unless none can be made. -/
structure Upload where
  endpoint : UploadEndpoint
  req : UploadRequest
  deal : DealCheck
  random : Option UInt32

/-! ### `manifest_root.go` -/

/-- The key of `parseManifestRoot`. The point of `gnark-crypto` is read and written by
`normalizeG1`. -/
def parseManifestRoot (normalizeG1 : Bytes → Option Bytes) (raw : Str) : Option Str := do
  let trimmed := trimPrefix (trimSpace raw) "0x".toList
  if trimSpace raw = [] ∨ (utf8 trimmed).length ≠ 96 then none
  else
    let decoded ← hexDecode trimmed
    if decoded.length ≠ 48 then none
    else
      let normalized ← normalizeG1 decoded
      return hexEncode normalized

/-- `dealScopedDir`. Every manifest root has a directory of its own below that of the deal. -/
def dealScopedDir (uploadDir : Path) (dealId : UInt64) (key : Str) : Path :=
  uploadDir ++ ["deals".toList, decimal dealId.toNat, key]

/-! ### What is to be stored -/

/-- A request that has passed the checks. -/
structure PendingUpload where
  dealId : UInt64
  key : Str
  filename : Str
  /-- The limit of `http.MaxBytesReader`. -/
  limit : Nat
  /-- A file of this size is taken for the upload. -/
  present : Nat → Bool
  /-- A body of this size is stored. -/
  accepts : Nat → Bool
  sizeError : Nat → String

/-- `ensureDealExistsCached`, and its errors. A deal that is not there is told apart from a failed
lookup. -/
def ensureDeal : DealCheck → Except PlainError Unit
  | .found => .ok ()
  | .notFound => .error ⟨404, "deal not found"⟩
  | .failed => .error ⟨500, "failed to validate deal"⟩

section

variable (normalizeG1 : Bytes → Option Bytes)

/-- The checks of `SpUploadMdu`. The index is not parsed and goes into the file name as it is. -/
def decodeMdu (a : Upload) : Except PlainError PendingUpload := do
  let dealIdStr := trimSpace a.req.dealId
  let mduIndexStr := trimSpace a.req.mduIndex
  let clientManifestRoot := trimSpace a.req.manifestRoot
  rejectIf (dealIdStr = [] ∨ mduIndexStr = [])
    ⟨400, "X-Nil-Deal-ID and X-Nil-Mdu-Index headers are required"⟩
  let dealId ← orFail (parseUint dealIdStr) ⟨400, "invalid deal_id"⟩
  ensureDeal a.deal
  rejectIf (clientManifestRoot = []) ⟨400, "X-Nil-Manifest-Root header is required"⟩
  let key ← orFail (parseManifestRoot normalizeG1 clientManifestRoot) ⟨400, "invalid manifest root"⟩
  return {
    dealId := dealId
    key := key
    filename := "mdu_".toList ++ mduIndexStr ++ ".bin".toList
    limit := 10 * 2 ^ 20
    present := fun size => size = mduSize
    accepts := fun n => n = mduSize
    sizeError := fun n =>
      "invalid mdu size: got " ++ toString n ++ " bytes (want " ++ toString mduSize ++ ")" }

/-- The checks of `SpUploadShard`. The slot is parsed, the index is not. -/
def decodeShard (a : Upload) : Except PlainError PendingUpload := do
  let dealIdStr := trimSpace a.req.dealId
  let mduIndexStr := trimSpace a.req.mduIndex
  let slotStr := trimSpace a.req.slot
  let clientManifestRoot := trimSpace a.req.manifestRoot
  rejectIf (dealIdStr = [] ∨ mduIndexStr = [] ∨ slotStr = [])
    ⟨400, "X-Nil-Deal-ID, X-Nil-Mdu-Index, and X-Nil-Slot headers are required"⟩
  let dealId ← orFail (parseUint dealIdStr) ⟨400, "invalid deal_id"⟩
  let slot ← orFail (parseUint slotStr) ⟨400, "invalid slot"⟩
  -- the deal is looked up before the root is read
  ensureDeal a.deal
  rejectIf (clientManifestRoot = []) ⟨400, "X-Nil-Manifest-Root header is required"⟩
  let key ← orFail (parseManifestRoot normalizeG1 clientManifestRoot) ⟨400, "invalid manifest root"⟩
  return {
    dealId := dealId
    key := key
    filename :=
      "mdu_".toList ++ mduIndexStr ++ "_slot_".toList ++ decimal slot.toNat ++ ".bin".toList
    limit := 10 * 2 ^ 20
    -- without a content length, any size up to that of an MDU will do
    present := fun size => 0 < size ∧ size ≤ mduSize ∧
      (a.req.contentLength ≤ 0 ∨ size = a.req.contentLength)
    accepts := fun n => 0 < n ∧ n ≤ mduSize
    sizeError := fun n =>
      "invalid shard size: got " ++ toString n ++ " bytes (max " ++ toString mduSize ++ ")" }

/-- The checks of `SpUploadManifest`. There is one manifest in a slab, so the name is fixed. -/
def decodeManifest (a : Upload) : Except PlainError PendingUpload := do
  let dealIdStr := trimSpace a.req.dealId
  let clientManifestRoot := trimSpace a.req.manifestRoot
  rejectIf (dealIdStr = [] ∨ clientManifestRoot = [])
    ⟨400, "X-Nil-Deal-ID and X-Nil-Manifest-Root headers are required"⟩
  let dealId ← orFail (parseUint dealIdStr) ⟨400, "invalid deal_id"⟩
  ensureDeal a.deal
  let key ← orFail (parseManifestRoot normalizeG1 clientManifestRoot) ⟨400, "invalid manifest root"⟩
  return {
    dealId := dealId
    key := key
    filename := "manifest.bin".toList
    limit := 512 * 2 ^ 10
    present := fun size => size = blobSize
    accepts := fun n => n = blobSize
    sizeError := fun n =>
      "invalid manifest size: got " ++ toString n ++ " bytes (want " ++ toString blobSize ++ ")" }

end

/-! ### Storing -/

/-- The name that `os.CreateTemp` makes of the pattern `<filename>.tmp-*`. -/
def tempName (filename : Str) (random : UInt32) : Str :=
  filename ++ ".tmp-".toList ++ decimal random.toNat

/-- `os.CreateTemp`: a new file. The pattern has no path separator. -/
def createTemp (dir : Path) (filename : Str) (random : Option UInt32) :
    Tx FileTree PlainError Path := do
  Tx.failIf ('/' ∈ filename) ⟨500, "failed to create temp file"⟩
  let random ← Tx.ofExcept (orFail random ⟨500, "failed to create temp file"⟩)
  let tmpPath := dir ++ [tempName filename random]
  Tx.updateOr (fun t => if (t.get tmpPath).isSome then none else t.writeFile tmpPath [])
    ⟨500, "failed to create temp file"⟩
  return tmpPath

/-- What a deferred `os.Remove` leaves of a run. `committed` comes with the reply. -/
def removeUnlessCommitted (tmpPath : Path) (x : Tx FileTree PlainError (UploadReply × Bool)) :
    Tx FileTree PlainError UploadReply := fun t =>
  match x.exec t with
  | (.ok (reply, true), t') => (.ok reply, t')
  | (.ok (reply, false), t') => (.ok reply, t'.remove tmpPath)
  | (.error e, t') => (.error e, t'.remove tmpPath)

/-- The rename at the end. When it fails, a file in its place may do. -/
def commitUpload (u : PendingUpload) (tmpPath path : Path) :
    Tx FileTree PlainError (UploadReply × Bool) := fun t =>
  match t.rename tmpPath path with
  | some t' => (.ok (.statusOk, true), t')
  | none =>
      if (t.fileSize path).any u.present then (.ok (.statusOk, false), t)
      else (.error ⟨500, "failed to store file"⟩, t)

/-- The body goes into the temporary file, up to the limit. Its size is checked afterwards. -/
def copyBody (u : PendingUpload) (tmpPath : Path) (body : Bytes) : Tx FileTree PlainError Unit := do
  Tx.update fun t => t.set tmpPath (.file (body.take u.limit))
  Tx.failIf (u.limit < body.length) ⟨500, "failed to write file"⟩
  Tx.failIf (u.accepts body.length = false) ⟨400, u.sizeError body.length⟩

/-- The directory that an upload goes to. -/
def PendingUpload.dir (u : PendingUpload) (uploadDir : Path) : Path :=
  dealScopedDir uploadDir u.dealId u.key

/-- The path that an upload goes to. -/
def PendingUpload.path (u : PendingUpload) (uploadDir : Path) : Path :=
  FileTree.join (u.dir uploadDir) u.filename

/-- The handlers from the slab directory on. A file of the right size that is there already ends the
upload with success. -/
def storeUpload (uploadDir : Path) (random : Option UInt32) (body : Bytes) (u : PendingUpload) :
    Tx FileTree PlainError UploadReply := do
  let path := u.path uploadDir
  Tx.updateOr (fun t => t.mkdirAll (u.dir uploadDir)) ⟨500, "failed to create slab directory"⟩
  if ← Tx.gets fun t => (t.fileSize path).any u.present then return .statusOk
  let tmpPath ← createTemp (u.dir uploadDir) u.filename random
  removeUnlessCommitted tmpPath do
    copyBody u tmpPath body
    commitUpload u tmpPath path

/-! ### The handlers -/

section

variable (normalizeG1 : Bytes → Option Bytes) (uploadDir : Path)

/-- `SpUploadMdu`. Only whole MDUs are stored. -/
def spUploadMdu (a : Upload) : Tx FileTree PlainError UploadReply := do
  if a.req.options then return .noContent
  let u ← Tx.ofExcept (decodeMdu normalizeG1 a)
  storeUpload uploadDir a.random a.req.body u

/-- `SpUploadShard`. Any size up to that of an MDU is stored, but for zero. -/
def spUploadShard (a : Upload) : Tx FileTree PlainError UploadReply := do
  if a.req.options then return .noContent
  let u ← Tx.ofExcept (decodeShard normalizeG1 a)
  storeUpload uploadDir a.random a.req.body u

/-- `SpUploadManifest`. Only a body of one blob is stored. -/
def spUploadManifest (a : Upload) : Tx FileTree PlainError UploadReply := do
  if a.req.options then return .noContent
  let u ← Tx.ofExcept (decodeManifest normalizeG1 a)
  storeUpload uploadDir a.random a.req.body u

/-- The handler of the route. -/
def handleUpload (a : Upload) : Tx FileTree PlainError UploadReply :=
  match a.endpoint with
  | .mdu => spUploadMdu normalizeG1 uploadDir a
  | .shard => spUploadShard normalizeG1 uploadDir a
  | .manifest => spUploadManifest normalizeG1 uploadDir a

/-- The files after the requests, first to last. -/
def runUploads (t : FileTree) (as : List Upload) : FileTree :=
  run (fun t a => ((handleUpload normalizeG1 uploadDir a).exec t).2) t as

end

end NilStore.Gateway
