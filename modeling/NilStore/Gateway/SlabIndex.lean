import NilStore.Core.FileSlots
import NilStore.Gateway.PlanSession
import NilStore.Lib.LastWins

/-!
# `NilStore.Gateway.SlabIndex`: the readers of the file table

The gateway reads the table of MDU #0 in many places, each with a loop of its own over the records:
`loadSlabIndex` (`fetch_cache.go`), `ResolveFileByPath`, `GetFileMetaByPath` and `inferWitnessCount`
(`resolve.go`), `GatewayListFiles`, `GatewaySlab` and `totalSizeBytesFromMdu0` (`main.go`). A record
whose path starts with a zero byte is a tombstone, and the name of a file is its path without the
zero bytes at the end.

Here the directory of a slab is its MDU #0 and the names of its entries. The cache of
`loadSlabIndex`, which is for an unchanged MDU #0, is left out, and so are errors of the disk.
-/

set_option autoImplicit false

namespace NilStore.Gateway

open NilStore.Lib NilStore.Core

/-! ### Records -/

/-- A directory with an MDU #0: the bytes of that file, and the names of all files. -/
structure SlabDir where
  mdu0 : Bytes
  names : List Str

/-- `LoadMdu0Builder`. It takes the 64 commitments of an MDU without erasure coding. -/
def loadMdu0Builder (data : Bytes) (maxUserMdus : UInt64) : Except String Mdu0Builder :=
  if data.length ≠ mduSize then .error "invalid size"
  else (Mdu0Builder.loadWithCommitments data maxUserMdus 64).mapError fun _ =>
    "failed to load builder"

/-- `LoadMdu0Builder` for the records alone, and then these. A record that is not there would be a
panic. -/
def loadRecords (data : Bytes) : Except String (Mdu0Builder × List FileRecordV1) := do
  let b ← loadMdu0Builder data 1
  let records ← orFail b.records "slice index out of range"
  return (b, records)

/-- `bytes.TrimRight(rec.Path[:], "\x00")`. A path that fills the field has nothing trimmed. -/
def recordName (rec : FileRecordV1) : Bytes := (rec.path.reverse.dropWhile (· = 0)).reverse

/-- `slabFileInfo`. -/
structure NilfsFile where
  startOffset : UInt64
  length : UInt64
deriving DecidableEq

/-- What a reader takes from a record. The flags are no part of it. -/
def nilfsFile (rec : FileRecordV1) : NilfsFile := ⟨rec.startOffset, rec.fileLength⟩

/-! ### The witness count -/

/-- The end of the last file. The sum of a start and a length may wrap. -/
def maxEnd (records : List FileRecordV1) : UInt64 :=
  records.foldl (fun maxEnd rec =>
    let fileEnd := rec.startOffset + rec.fileLength
    if fileEnd > maxEnd then fileEnd else maxEnd) 0

/-- The user MDUs up to an end. -/
def userMdusUpTo (maxEnd : UInt64) : UInt64 :=
  if maxEnd > 0 then (maxEnd + rawMduCapacityU64 - 1) / rawMduCapacityU64 else 0

/-- How many roots of the table are not zero. -/
def totalRoots (b : Mdu0Builder) : Nat :=
  (List.range 65536).countP fun i => (b.getRoot i).any (· ≠ 0)

/-- The index in a name `mdu_<index>.bin`, as text. A shard has such a name too, with a text that is
no number. -/
def mduFileIndex (name : Str) : Option Str :=
  if hasPrefix name "mdu_".toList ∧ hasPrefix name.reverse ".bin".toList.reverse then
    let rest := name.drop 4
    some (rest.take (rest.length - 4))
  else none

/-- `strconv.Atoi` takes the text: a sign, and digits of an `int64`. -/
def isAtoi (s : Str) : Bool :=
  match s with
  | '-' :: digits => (parseUint digits).any fun n => n.toNat ≤ 2 ^ 63
  | '+' :: digits => (parseUint digits).any fun n => n.toNat < 2 ^ 63
  | digits => (parseUint digits).any fun n => n.toNat < 2 ^ 63

/-- `inferWitnessCount`. Tombstones have no part in the count. -/
def inferWitnessCount (names : List Str) (b : Mdu0Builder) (records : List FileRecordV1) :
    Except String UInt64 := do
  let userCount := userMdusUpTo (maxEnd (records.filter fun rec => !rec.isTombstone))
  if totalRoots b > 0 then
    rejectIf (UInt64.ofNat (totalRoots b) < userCount) "invalid root table"
    return UInt64.ofNat (totalRoots b) - userCount
  else
    let totalMdus := names.countP fun name => (mduFileIndex name).any isAtoi
    rejectIf (totalMdus = 0) "no MDUs found in slab"
    rejectIf (UInt64.ofNat (totalMdus - 1) < userCount) "invalid slab layout"
    return UInt64.ofNat (totalMdus - 1) - userCount

/-! ### The files -/

/-- `slabIndexEntry`. -/
structure SlabIndexEntry where
  witnessCount : UInt64
  files : KVStore Bytes NilfsFile

/-- `loadSlabIndex`. A later record takes the place of an earlier one of the same path. -/
def loadSlabIndex (dir : SlabDir) : Except String SlabIndexEntry := do
  let (b, records) ← loadRecords dir.mdu0
  let files := records.foldl (fun files rec =>
    if rec.isTombstone then files else files.set (recordName rec) (nilfsFile rec)) KVStore.empty
  let witnessCount ← inferWitnessCount dir.names b records
  return ⟨witnessCount, files⟩

/-- The loop that `ResolveFileByPath` and `GetFileMetaByPath` have in common. The last record of the
path wins. -/
def targetRec (records : List FileRecordV1) (filePath : Bytes) : Option FileRecordV1 :=
  records.foldl (fun target rec =>
    if rec.isTombstone then target else if recordName rec = filePath then some rec else target) none

/-- `GetFileMetaByPath`. It reads MDU #0 again, where the slab index reads it once. -/
def getFileMetaByPath (dir : SlabDir) (filePath : Bytes) : Except FileMetaError FileMeta := do
  let (b, records) ← (loadRecords dir.mdu0).mapError .other
  let target ← orFail (targetRec records filePath) .notExist
  let witnessCount ← (inferWitnessCount dir.names b records).mapError .other
  return ⟨target.startOffset, target.fileLength, witnessCount⟩

/-- `ResolveFileByPath`, up to its reader: the first user MDU, and the file that the reader is
opened for. -/
def resolveFileByPath (dir : SlabDir) (filePath : Bytes) :
    Except FileMetaError (UInt64 × NilfsFile) := do
  let (b, records) ← (loadRecords dir.mdu0).mapError .other
  let target ← orFail (targetRec records filePath) .notExist
  let witnessCount ← (inferWitnessCount dir.names b records).mapError .other
  return (1 + witnessCount, nilfsFile target)

/-- The files that `GatewayListFiles` sends, by their paths, and their `total_size_bytes`. -/
def gatewayListFiles (dir : SlabDir) : Except String (KVStore Bytes NilfsFile × UInt64) := do
  let (_, records) ← loadRecords dir.mdu0
  let latest := records.foldl (fun latest rec =>
    if rec.isTombstone then latest else latest.set (recordName rec) (nilfsFile rec)) KVStore.empty
  let total := latest.entries.foldl (fun total entry => total + entry.2.length) 0
  return (latest, total)

/-! ### Sizes -/

/-- `totalSizeBytesFromMdu0`. A path with two records is counted twice. -/
def totalSizeBytesFromMdu0 (records : List FileRecordV1) : UInt64 :=
  records.foldl (fun total rec => if rec.isTombstone then total else total + rec.fileLength) 0

/-- What `GatewaySlab` sends of the layout. The files are counted by their records. -/
structure SlabLayoutResponse where
  totalMdus : UInt64
  witnessMdus : UInt64
  userMdus : UInt64
  fileRecords : UInt32
  fileCount : UInt32
  totalSizeBytes : UInt64

/-- The MDUs and the witness MDUs of `GatewaySlab`: from the roots, or from the files if there are
none. -/
def slabMdus (names : List Str) (b : Mdu0Builder) (userMdus : UInt64) :
    Except String (UInt64 × UInt64) := do
  let roots := UInt64.ofNat (totalRoots b)
  if roots > 0 then
    rejectIf (roots < userMdus) "invalid slab layout: root table < user mdus"
    return (1 + (roots - userMdus) + userMdus, roots - userMdus)
  else
    let idxSet := (names.filterMap fun name => (mduFileIndex name).bind parseUint).dedup
    rejectIf (idxSet = []) "slab not found"
    rejectIf (0 ∉ idxSet) "invalid slab layout: mdu_0.bin missing"
    let totalMdus := idxSet.foldl (fun maxIdx idx => if idx > maxIdx then idx else maxIdx) 0 + 1
    rejectIf (UInt64.ofNat idxSet.length ≠ totalMdus)
      "invalid slab layout: non-contiguous mdu files"
    rejectIf (totalMdus < 1) "invalid slab layout"
    rejectIf (totalMdus - 1 < userMdus) "invalid slab layout: file table exceeds user mdus"
    return (totalMdus, totalMdus - 1 - userMdus)

/-- `GatewaySlab`. Its user MDUs are those of all the records, tombstones too. -/
def gatewaySlab (dir : SlabDir) : Except String SlabLayoutResponse := do
  let (b, records) ← loadRecords dir.mdu0
  let (fileCount, totalSize) := records.foldl (fun (count, total) rec =>
    if rec.isTombstone then (count, total) else (count + 1, total + rec.fileLength))
      ((0 : UInt32), 0)
  let userMdus := userMdusUpTo (maxEnd records)
  let (totalMdus, witnessMdus) ← slabMdus dir.names b userMdus
  return ⟨totalMdus, witnessMdus, userMdus, b.recordCount, fileCount, totalSize⟩

/-! ### The loops as maps -/

/-- The files of a table, in the order of their records. -/
def liveFiles (records : List FileRecordV1) : List (Bytes × NilfsFile) :=
  (records.filter fun rec => !rec.isTombstone).map fun rec => (recordName rec, nilfsFile rec)

/-- A loop that leaves out the tombstones is a loop over the files. -/
theorem foldl_live {σ : Type} (f : σ → FileRecordV1 → σ) (s : σ) (records : List FileRecordV1) :
    records.foldl (fun s rec => if rec.isTombstone then s else f s rec) s =
      (records.filter fun rec => !rec.isTombstone).foldl f s := by
  rw [List.foldl_filter]
  congr 1
  funext s rec
  cases rec.isTombstone <;> rfl

/-- The map of `loadSlabIndex` and of `GatewayListFiles`. -/
theorem files_eq_mapOf (records : List FileRecordV1) :
    records.foldl (fun files rec =>
      if rec.isTombstone then files else files.set (recordName rec) (nilfsFile rec)) KVStore.empty =
      mapOf (liveFiles records) := by
  have hlive := foldl_live
    (fun (files : KVStore Bytes NilfsFile) rec => files.set (recordName rec) (nilfsFile rec))
    KVStore.empty records
  rw [hlive, mapOf, liveFiles, List.foldl_map]

/-- The file that the loop of `GetFileMetaByPath` finds. -/
theorem map_targetRec (records : List FileRecordV1) (filePath : Bytes) :
    (targetRec records filePath).map nilfsFile = lastValue filePath (liveFiles records) := by
  -- from any target: the last record of that name, or the target
  have hfold : ∀ (live : List FileRecordV1) (target : Option FileRecordV1),
      (live.foldl (fun target rec =>
        if recordName rec = filePath then some rec else target) target).map
        nilfsFile = (lastValue filePath (live.map fun rec => (recordName rec, nilfsFile rec))).or
          (target.map nilfsFile) := by
    intro live
    induction live with
    | nil => exact fun target => rfl
    | cons rec live ih =>
        intro target
        rw [List.foldl_cons, ih, List.map_cons, lastValue, Option.or_assoc]
        congr 1
        by_cases hname : recordName rec = filePath
        · rw [if_pos hname, if_pos hname]
          rfl
        · rw [if_neg hname, if_neg hname]
          rfl
  have hlive := foldl_live
    (fun (target : Option FileRecordV1) rec =>
      if recordName rec = filePath then some rec else target)
    none records
  rw [targetRec, hlive, hfold, liveFiles]
  exact Option.or_none

/-- A total is the sum of the lengths, modulo `2 ^ 64`. -/
theorem toNat_foldl_length {α : Type} (len : α → UInt64) (l : List α) (total : UInt64) :
    (l.foldl (fun total x => total + len x) total).toNat =
      (total.toNat + (l.map fun x => (len x).toNat).sum) % 2 ^ 64 := by
  induction l generalizing total with
  | nil => exact (Nat.mod_eq_of_lt total.toNat_lt).symm
  | cons x l ih =>
      rw [List.foldl_cons, ih, UInt64.toNat_add, List.map_cons, List.sum_cons, Nat.mod_add_mod,
        Nat.add_assoc]

end NilStore.Gateway
