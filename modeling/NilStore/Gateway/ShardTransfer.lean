import NilStore.Gateway.DealProviders
import NilStore.Gateway.Reconstruct
import NilStore.Gateway.SpUploads
import NilStore.Gateway.Uploads
import NilStore.Lib.Decimal
import NilStore.Lib.Runs

/-!
# `NilStore.Gateway.ShardTransfer`: a slab goes to its providers, and a shard comes back

`mode2UploadArtifactsToProviders` of `nil_gateway/ingest_mode2.go` sends the files of a slab to the
providers of the deal: the metadata to every slot, and each shard to its slot. `SpFetchShard` of
`nil_gateway/main.go` sends a shard back to a gateway that asks for it with
`fetchShardFromProvider`.

The uploads go out side by side, and a provider handles the requests of others too. So what happens
is a history: the requests at all providers, in the order in which they are handled, each as one
step. A provider is named by its base URL and has a disk of its own. An upload is done when the
history has its request with an answer 200.
-/

set_option autoImplicit false

namespace NilStore.Gateway

open NilStore.Lib NilStore.Core NilStore.Chain

/-! ### Manifest roots and file names -/

/-- `ManifestRoot`: the bytes of a compressed point as `gnark-crypto` writes them. -/
structure ManifestRoot (normalizeG1 : Bytes → Option Bytes) where
  bytes : Bytes
  length_eq : bytes.length = 48
  normalized : normalizeG1 bytes = some bytes

section

variable {normalizeG1 : Bytes → Option Bytes} (root : ManifestRoot normalizeG1)

/-- `ManifestRoot.Key`. -/
def ManifestRoot.key : Str := hexEncode root.bytes

/-- `ManifestRoot.Canonical`. -/
def ManifestRoot.canonical : Str := canonicalRoot root.bytes

end

/-- `mdu_%d.bin`. -/
def mduFilename (mduIndex : UInt64) : Str :=
  "mdu_".toList ++ decimal mduIndex.toNat ++ ".bin".toList

/-- `mdu_%d_slot_%d.bin`. -/
def shardFilename (mduIndex slot : UInt64) : Str :=
  "mdu_".toList ++ decimal mduIndex.toNat ++ "_slot_".toList ++ decimal slot.toNat ++ ".bin".toList

/-! ### Uploads -/

/-- `uploadTask`. The route stands for the end of the URL, and `file` for the end of the path. -/
structure UploadTask where
  base : Str
  endpoint : UploadEndpoint
  file : Str
  maxBytes : Nat
  dealId : Str
  manifestRoot : Str
  mduIndex : Str
  slot : Str

section

variable {normalizeG1 : Bytes → Option Bytes} (root : ManifestRoot normalizeG1) (dealId : UInt64)

/-- The task for one MDU of the metadata. Every slot gets all of them. -/
def mduTask (base : Str) (mduIndex : UInt64) : UploadTask where
  base := base
  endpoint := .mdu
  file := mduFilename mduIndex
  maxBytes := 10 * 2 ^ 20
  dealId := decimal dealId.toNat
  manifestRoot := root.canonical
  mduIndex := decimal mduIndex.toNat
  slot := []

/-- The task for the manifest. Every slot gets it too. -/
def manifestTask (base : Str) : UploadTask where
  base := base
  endpoint := .manifest
  file := "manifest.bin".toList
  maxBytes := 512 * 2 ^ 10
  dealId := decimal dealId.toNat
  manifestRoot := root.canonical
  mduIndex := []
  slot := []

/-- The task for the shard of one user MDU. Only the slot of the shard gets it. -/
def shardTask (base : Str) (slabIndex slot : UInt64) : UploadTask where
  base := base
  endpoint := .shard
  file := shardFilename slabIndex slot
  maxBytes := 10 * 2 ^ 20
  dealId := decimal dealId.toNat
  manifestRoot := root.canonical
  mduIndex := decimal slabIndex.toNat
  slot := decimal slot.toNat

/-- The tasks for one slot, in the order in which they are listed. The uploads themselves may come
in any order. -/
def slotTasks (base : Str) (slot witnessCount userMdus : UInt64) : List UploadTask :=
  (List.range (witnessCount.toNat + 1)).map (fun mduIndex =>
    mduTask root dealId base (.ofNat mduIndex)) ++
    manifestTask root dealId base ::
      (List.range userMdus.toNat).map fun i =>
        shardTask root dealId base (1 + witnessCount + .ofNat i) slot

/-- The tasks of `mode2UploadArtifactsToProviders`, or the error that it stops at before. `skip`
says which slots the gateway holds itself. -/
def mode2UploadTasks (stripe : StripeParams) (providers : List Str) (skip : Nat → Bool)
    (slotBases : Nat → Str) (witnessCount userMdus : UInt64) : Except String (List UploadTask) := do
  rejectIf (stripe.mode ≠ 2 ∨ stripe.k = 0 ∨ stripe.m = 0 ∨ stripe.rows = 0) "deal is not Mode 2"
  rejectIf (witnessCount = 0 ∨ stripe.slotCount = 0) "invalid Mode 2 state"
  rejectIf (providers.length < stripe.slotCount.toNat) (notEnoughProviders stripe providers)
  return (List.range stripe.slotCount.toNat).flatMap fun slot =>
    if skip slot = true ∨ slotBases slot = [] then []
    else slotTasks root dealId (slotBases slot) (.ofNat slot) witnessCount userMdus

end

/-- The request that `uploadBlob` makes of a file in the slab's directory. A file over the limit is
not sent at all. -/
def uploadBlobRequest (dir : Str → Option Bytes) (task : UploadTask) :
    Except String UploadRequest := do
  let content ← orFail (dir task.file) "no such file or directory"
  rejectIf (0 < task.maxBytes ∧ task.maxBytes < content.length) "artifact too large"
  return {
    options := false
    dealId := task.dealId
    mduIndex := task.mduIndex
    slot := task.slot
    manifestRoot := task.manifestRoot
    body := content
    chunked := false }

/-! ### The providers -/

/-- A request that a provider handles. The base URL says whose disk it reaches. -/
structure Delivery where
  base : Str
  upload : Upload

/-- The disks of the providers, by their base URLs. -/
abbrev Disks := Str → FileTree

section

variable (normalizeG1 : Bytes → Option Bytes) (uploadDir : Path)

/-- The provider's answer. It depends on the disk of this provider alone. -/
def Delivery.reply (disks : Disks) (d : Delivery) : Except PlainError UploadReply :=
  ((handleUpload normalizeG1 uploadDir d.upload).exec (disks d.base)).1

/-- What a request leaves on the disks. No other provider's disk changes. -/
def handleDelivery (disks : Disks) (d : Delivery) : Disks :=
  Function.update disks d.base ((handleUpload normalizeG1 uploadDir d.upload).exec (disks d.base)).2

/-- The disks after the requests. -/
def runDeliveries (disks : Disks) (h : List Delivery) : Disks :=
  run (handleDelivery normalizeG1 uploadDir) disks h

/-- `uploadBlob` returns nil: the request is made, handled by the provider, and answered in the
200s. -/
def UploadTask.Done (dir : Str → Option Bytes) (disks : Disks) (h : List Delivery)
    (task : UploadTask) : Prop :=
  ∃ req, uploadBlobRequest dir task = .ok req ∧
    Occurs (fun past d => d.base = task.base ∧ d.upload.endpoint = task.endpoint ∧
      d.upload.req = req ∧
      d.reply normalizeG1 uploadDir (runDeliveries normalizeG1 uploadDir disks past) =
        .ok .statusOk) h

end

/-! ### Shards -/

/-- The query of a request to `/sp/shard`. All fields are texts still. -/
structure ShardQuery where
  options : Bool
  dealId : Str
  mduIndex : Str
  slot : Str
  manifestRoot : Str

/-- What a client gets of an error. `http.Error` ends the text with a line feed. -/
def PlainError.response (e : PlainError) : ShardResponse :=
  ⟨e.status, utf8 (e.text.toList ++ ['\n'])⟩

section

variable (normalizeG1 : Bytes → Option Bytes) (uploadDir : Path)

/-- The path that `SpFetchShard` opens. The index is parsed, but the text of it makes the name. -/
def shardPath (q : ShardQuery) : Except PlainError Path := do
  let dealIdStr := trimSpace q.dealId
  let mduIndexStr := trimSpace q.mduIndex
  let slotStr := trimSpace q.slot
  let rawManifestRoot := trimSpace q.manifestRoot
  rejectIf (dealIdStr = [] ∨ mduIndexStr = [] ∨ slotStr = [] ∨ rawManifestRoot = [])
    ⟨400, "deal_id, mdu_index, slot, and manifest_root are required"⟩
  let dealId ← orFail (parseUint dealIdStr) ⟨400, "invalid deal_id"⟩
  let _ ← orFail (parseUint mduIndexStr) ⟨400, "invalid mdu_index"⟩
  let slot ← orFail (parseUint slotStr) ⟨400, "invalid slot"⟩
  let key ← orFail (parseManifestRoot normalizeG1 rawManifestRoot) ⟨400, "invalid manifest_root"⟩
  -- the index stays as it was written
  return FileTree.join (dealScopedDir uploadDir dealId key)
    ("mdu_".toList ++ mduIndexStr ++ "_slot_".toList ++ decimal slot.toNat ++ ".bin".toList)

/-- `SpFetchShard`. Only a file is served, and a directory under the name counts as an error. -/
def spFetchShard (t : FileTree) (q : ShardQuery) : ShardResponse :=
  if q.options then ⟨204, []⟩
  else match shardPath normalizeG1 uploadDir q with
    | .error e => e.response
    | .ok path => match t.get path with
      | none => PlainError.response ⟨404, "shard not found"⟩
      | some .dir => PlainError.response ⟨500, "failed to stream shard"⟩
      | some (.file content) => ⟨200, content⟩

/-- The query of `fetchShardFromProvider`. -/
def fetchShardQuery (dealId : UInt64) (manifestRoot : Str) (mduIndex slot : UInt64) :
    ShardQuery where
  options := false
  dealId := decimal dealId.toNat
  mduIndex := decimal mduIndex.toNat
  slot := decimal slot.toNat
  manifestRoot := manifestRoot

/-- What a gateway gets that asks a slot for its shard, as long as the provider is there. -/
def shardAnswer (root : ManifestRoot normalizeG1) (dealId mduIndex : UInt64) (slotBases : Nat → Str)
    (disks : Disks) (reachable : Nat → Nat → Bool) (pass slot : Nat) : Option ShardResponse :=
  if reachable pass slot then
    some (spFetchShard normalizeG1 uploadDir (disks (slotBases slot))
      (fetchShardQuery dealId root.canonical mduIndex (.ofNat slot)))
  else none

end

end NilStore.Gateway
