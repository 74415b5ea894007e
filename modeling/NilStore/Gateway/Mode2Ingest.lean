import NilStore.Gateway.SlabIndex
import NilStore.Gateway.StripeParams
import NilStore.Gateway.Witness

/-!
# `NilStore.Gateway.Mode2Ingest`: the slabs that the gateway builds

`mode2BuildArtifacts` and `mode2BuildArtifactsAppend` of `nil_gateway/ingest_mode2.go`. The first
makes a slab of one file. The second reads a slab back, copies the shards of its user MDUs, and adds
the MDUs of a new file behind them. Both write the witness MDUs anew, set all the roots in MDU #0,
and commit to them.

A slab is what its directory holds: MDU #0, the witness MDUs in `mdu_1.bin` and so on, the shards of
the user MDUs in `mdu_<i>_slot_<s>.bin` after these, and the manifest. Shards are made, and roots
computed, by `nil_core`; here these functions are `SlabCrypto`, and no more is used of them than
that they are functions. The uploads to providers, the progress of the job, and errors of the disk
are left out.
-/

set_option autoImplicit false

namespace NilStore.Gateway

open NilStore.Lib NilStore.Core NilStore.Chain

/-! ### Slabs -/

/-- The functions of `crypto_ffi` that a build calls, and the check of `parseManifestRoot` that some
bytes are a compressed point. -/
structure SlabCrypto where
  expandPayloadRs : (payload : Bytes) → (k m : UInt64) → Except String (Bytes × List Bytes)
  computeMduRootFromWitnessFlat : Bytes → Except String Bytes
  computeMduMerkleRoot : Bytes → Except String Bytes
  computeManifestCommitment : List Bytes → Except String (Bytes × Bytes)
  isG1 : Bytes → Bool

/-- The directory of a Mode 2 slab. -/
structure Mode2Slab where
  mdu0 : Bytes
  witnessMdus : List Bytes
  userShards : List (List Bytes)
  manifest : Bytes

/-- `mdu_<slabIndex>_slot_<slot>.bin`. -/
def Mode2Slab.slotFile (slab : Mode2Slab) (slabIndex slot : Nat) : Option Bytes :=
  if slabIndex < 1 + slab.witnessMdus.length then none
  else (slab.userShards[slabIndex - (1 + slab.witnessMdus.length)]?).bind fun shards =>
    shards[slot]?

/-- `mode2IngestResult`, and the slab of its directory. -/
structure Mode2IngestResult where
  manifestRoot : Bytes
  slab : Mode2Slab
  fileSize : UInt64
  sizeBytes : UInt64
  witnessMdus : UInt64
  userMdus : UInt64

/-! ### The parts of a build -/

/-- The user MDUs of a file: one at least. -/
def userMdusOfFile (fileSize : UInt64) : UInt64 :=
  if fileSize > 0 then
    let userMdus := (fileSize + rawMduCapacityU64 - 1) / rawMduCapacityU64
    if userMdus = 0 then 1 else userMdus
  else 1

/-- What `io.ReadFull` reads for MDU `i`. -/
def fileChunk (file : Bytes) (i : Nat) : Bytes :=
  (file.drop (i * rawMduCapacity)).take rawMduCapacity

/-- The record path that is stored: at most 40 bytes. -/
def truncateRecordPath (fileRecordPath : Bytes) : Bytes :=
  if fileRecordPath.length > 40 then fileRecordPath.take 40 else fileRecordPath

/-- What is made of one chunk: the user MDU with its commitments, its root and its shards. -/
structure UserMdu where
  witnessFlat : Bytes
  root : Bytes
  shards : List Bytes

section

variable (crypto : SlabCrypto) (stripe : StripeParams)

/-- One chunk is expanded, and a shard is stored for each slot. An append knows how long the
commitments are. -/
def expandChunk (wanted : Option Nat) (file : Bytes) (i : Nat) : Except String UserMdu := do
  let (witnessFlat, shards) ← crypto.expandPayloadRs (fileChunk file i) stripe.k stripe.m
  rejectIf (wanted.any (· ≠ witnessFlat.length)) "unexpected witness_flat length"
  let root ← crypto.computeMduRootFromWitnessFlat witnessFlat
  rejectIf (shards.length < stripe.slotCount.toNat) "missing shard for slot"
  return ⟨witnessFlat, root, shards.take stripe.slotCount.toNat⟩

/-- `crypto_ffi.SetRoot`. The length of the root is checked before the library is called. -/
def cryptoFfiSetRoot (b : Mdu0Builder) (index : UInt64) (root : Bytes) :
    Except String Mdu0Builder :=
  if root.length ≠ 32 then .error "invalid root length"
  else (b.setRoot index root).mapError fun _ => "set root failed"

/-- The loops that set roots from an index on. The first error ends the build. -/
def setRoots (b : Mdu0Builder) (index : UInt64) : List Bytes → Except String Mdu0Builder
  | [] => .ok b
  | root :: roots => do
      let b ← cryptoFfiSetRoot b index root
      setRoots b (index + 1) roots

/-- The commitments of the MDUs of a new slab are there, and equally long. -/
def checkWitnessFlats (mdus : List UserMdu) : Except String Unit := do
  rejectIf (∃ mdu ∈ mdus, mdu.witnessFlat = []) "missing witness_flat"
  rejectIf (∃ mdu ∈ mdus, mdu.witnessFlat.length ≠ ((mdus.map (·.witnessFlat.length)).headD 0))
    "witness_flat length mismatch"

/-- The end of a build: the roots are committed to. The root of MDU 0 comes first, then the witness
MDUs, then the user MDUs. -/
def commitSlab (builder : Mdu0Builder) (witnessMdus : List Bytes)
    (witnessRoots userRoots : List Bytes)
    (userShards : List (List Bytes)) : Except String (Bytes × Mode2Slab) := do
  let mdu0Root ← crypto.computeMduMerkleRoot builder.buffer
  let (commitment, manifestBlob) ←
    crypto.computeManifestCommitment (mdu0Root :: (witnessRoots ++ userRoots))
  rejectIf (commitment.length ≠ 48 ∨ crypto.isG1 commitment = false) "invalid manifest root"
  return (commitment, ⟨builder.buffer, witnessMdus, userShards, manifestBlob⟩)

/-- The check of the stripe. -/
def checkMode2Stripe : Except String Unit :=
  rejectIf (stripe.mode ≠ 2 ∨ stripe.k = 0 ∨ stripe.m = 0 ∨ stripe.rows = 0) "deal is not Mode 2"

/-! ### The two builds -/

/-- `mode2BuildArtifacts`. The roots of the user MDUs are set before the witness MDUs exist, so
`setRoots` is called twice. -/
def mode2BuildArtifacts (file fileRecordPath : Bytes) : Except String Mode2IngestResult := do
  checkMode2Stripe stripe
  let fileSize := UInt64.ofNat file.length
  let userMdus := userMdusOfFile fileSize
  let builder := Mdu0Builder.newWithCommitments userMdus stripe.leafCount
  let witnessCount := builder.witnessMduCount
  let mdus ← (List.range userMdus.toNat).mapM (expandChunk crypto stripe none file)
  let builder ← setRoots builder witnessCount (mdus.map (·.root))
  checkWitnessFlats mdus
  let witnessMdus ← buildWitnessMdus witnessCount (mdus.flatMap (·.witnessFlat))
  let witnessRoots ← witnessMdus.mapM crypto.computeMduMerkleRoot
  let builder ← setRoots builder 0 witnessRoots
  -- a naive mapping: the one file starts at offset 0
  let builder ← (nilMdu0AppendFile builder (truncateRecordPath fileRecordPath) fileSize 0).mapError
    fun code => "append failed: " ++ toString code
  let records ← orFail builder.records "slice index out of range"
  let (manifestRoot, slab) ← commitSlab crypto builder witnessMdus witnessRoots (mdus.map (·.root))
    (mdus.map (·.shards))
  return ⟨manifestRoot, slab, fileSize, totalSizeBytesFromMdu0 records, witnessCount, userMdus⟩

/-- `LoadMdu0BuilderWithCommitments`. The roots and the records of the loaded slab stay where they
are. -/
def loadMdu0BuilderWithCommitments (data : Bytes) (maxUserMdus commitmentsPerMdu : UInt64) :
    Except String Mdu0Builder :=
  if data.length ≠ mduSize then .error "invalid size"
  else (Mdu0Builder.loadWithCommitments data maxUserMdus commitmentsPerMdu).mapError fun _ =>
    "failed to load builder"

/-- The shards of one user MDU, copied from the existing slab. -/
def copyShards (old : Mode2Slab) (slabIndex : Nat) : Except String (List Bytes) :=
  (List.range stripe.slotCount.toNat).mapM fun slot =>
    orFail (old.slotFile slabIndex slot) "failed to copy existing shard"

/-- `mode2BuildArtifactsAppend`, on the slab of the existing manifest root. The old shards are
copied, and the old commitments are read back from the witness MDUs. -/
def mode2BuildArtifactsAppend (old : Mode2Slab) (file fileRecordPath : Bytes) :
    Except String Mode2IngestResult := do
  checkMode2Stripe stripe
  let commitmentsPerMdu := stripe.leafCount
  -- loaded once for the records, with a count of user MDUs that does not matter
  let tmpBuilder ← loadMdu0BuilderWithCommitments old.mdu0 1 commitmentsPerMdu
  let oldRecords ← orFail tmpBuilder.records "slice index out of range"
  let oldUserMdus := userMdusUpTo (maxEnd (oldRecords.filter fun rec => !rec.isTombstone))
  rejectIf (oldUserMdus = 0) "existing Mode 2 slab has no user MDUs"
  let newFileSize := UInt64.ofNat file.length
  let newUserMdus := userMdusOfFile newFileSize
  let totalUserMdus := oldUserMdus + newUserMdus
  let oldWitnessCount := witnessMduCountOf oldUserMdus commitmentsPerMdu
  let witnessCount := witnessMduCountOf totalUserMdus commitmentsPerMdu
  let oldShards ← (List.range oldUserMdus.toNat).mapM fun userIdx =>
    copyShards stripe old (1 + oldWitnessCount.toNat + userIdx)
  let witnessBytesPerUser := (commitmentsPerMdu * 48).toNat
  let oldWitnessBytes ← recoverWitnessBytes
    (witnessDir old.witnessMdus) oldUserMdus commitmentsPerMdu
  let builder ← loadMdu0BuilderWithCommitments old.mdu0 totalUserMdus commitmentsPerMdu
  rejectIf (builder.witnessMduCount ≠ witnessCount) "witness_count mismatch"
  let newFileOffset := oldUserMdus * rawMduCapacityU64
  let builder ← (nilMdu0AppendFile builder (truncateRecordPath fileRecordPath) newFileSize
    newFileOffset).mapError fun code => "append file record failed: " ++ toString code
  let records ← orFail builder.records "slice index out of range"
  let mdus ← (List.range newUserMdus.toNat).mapM
    (expandChunk crypto stripe (some witnessBytesPerUser) file)
  let totalWitnessBytes := oldWitnessBytes ++ mdus.flatMap (·.witnessFlat)
  rejectIf (totalWitnessBytes.length ≠ totalUserMdus.toNat * witnessBytesPerUser)
    "witness bytes mismatch"
  let oldUserRoots ← (List.range oldUserMdus.toNat).mapM fun userIdx =>
    crypto.computeMduRootFromWitnessFlat
      (Gateway.slice totalWitnessBytes (userIdx * witnessBytesPerUser)
      (userIdx * witnessBytesPerUser + witnessBytesPerUser))
  let userRoots := oldUserRoots ++ mdus.map (·.root)
  -- the witness MDUs are written anew, since there may be more of them
  let witnessMdus ← buildWitnessMdus witnessCount totalWitnessBytes
  let witnessRoots ← witnessMdus.mapM crypto.computeMduMerkleRoot
  let builder ← setRoots builder 0 witnessRoots
  let builder ← setRoots builder witnessCount userRoots
  let (manifestRoot, slab) ← commitSlab crypto builder witnessMdus witnessRoots userRoots
    (oldShards ++ mdus.map (·.shards))
  return ⟨manifestRoot, slab, newFileSize, totalSizeBytesFromMdu0 records, witnessCount,
    totalUserMdus⟩

end

end NilStore.Gateway
