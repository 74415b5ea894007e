import NilStore.Core.Payload
import NilStore.Lib.Filling
import NilStore.Lib.JsNumber
import NilStore.Lib.KVStore
import NilStore.Website.NilfsLocal

/-!
# `NilStore.Website.OpfsFetch`: files out of the browser's own slab

The browser keeps the MDUs of a deal in a directory of its private file system
(`nil-website/src/lib/storage/OpfsAdapter.ts`), and `readNilfsFileFromOpfs` of
`nil-website/src/lib/nilfsOpfsFetch.ts` reads a range of a file out of them. It is told neither the
layout of the slab nor where a payload ends. It counts the MDUs in the directory, and takes the
greatest end of a listed file for the end of the data.

The sizes are JavaScript numbers. They stay far below `2 ^ 53`, where arithmetic on integers is
exact, and the quotients that are rounded down or up are those of integers.
-/

set_option autoImplicit false

namespace NilStore.Website

open NilStore.Lib NilStore.Core

/-! ### The directory of a deal -/

/-- The files of a deal's directory, by their names. -/
abbrev DealDirectory := KVStore Str Bytes

/-- The name of an MDU. It is the one that the gateway gives to the file. -/
def mduName (mduIndex : Nat) : Str := "mdu_".toList ++ decimal mduIndex ++ ".bin".toList

/-- `writeMdu`. What was there under the name is replaced. -/
def writeMdu (dir : DealDirectory) (mduIndex : Nat) (data : Bytes) : DealDirectory :=
  dir.set (mduName mduIndex) data

/-- `readMdu`. A file that is not there is no error yet. -/
def readMdu (dir : DealDirectory) (mduIndex : Nat) : Option Bytes := dir.get (mduName mduIndex)

/-- `writeShard`. The name has the index of the MDU and the slot. -/
def writeShard (dir : DealDirectory) (mduIndex slot : Nat) (data : Bytes) : DealDirectory :=
  dir.set ("mdu_".toList ++ decimal mduIndex ++ "_slot_".toList ++ decimal slot ++
    ".bin".toList) data

/-- `writeManifestRoot`. The file is named like no MDU, so it is not counted as one. -/
def writeManifestRoot (dir : DealDirectory) (manifestRoot : Str) : DealDirectory :=
  dir.set "manifest_root.txt".toList (utf8 (trim manifestRoot))

/-- `writeManifestBlob`. It is named like no MDU either. -/
def writeManifestBlob (dir : DealDirectory) (manifestBlob : Bytes) : DealDirectory :=
  dir.set "manifest.bin".toList manifestBlob

/-- `cachedFileNameForPath`. The hash is a parameter, and a path may have any characters. -/
def cachedFileNameForPath (sha256 : Bytes → Bytes) (filePath : Str) : Str :=
  "filecache_".toList ++ hexEncode (sha256 (utf8 filePath)) ++ ".bin".toList

/-- `writeCachedFile`. The file is kept decoded, next to the MDUs. -/
def writeCachedFile (sha256 : Bytes → Bytes) (dir : DealDirectory) (filePath : Str) (data : Bytes) :
    DealDirectory :=
  dir.set (cachedFileNameForPath sha256 filePath) data

/-- `deleteCachedFile`. It is no error when there is none. -/
def deleteCachedFile (sha256 : Bytes → Bytes) (dir : DealDirectory) (filePath : Str) :
    DealDirectory :=
  dir.remove (cachedFileNameForPath sha256 filePath)

/-- A shard of a user MDU, with the index of the MDU in the slab. -/
structure SlabShard where
  slabIndex : Nat
  slot : Nat
  data : Bytes

/-- `persist` of `FileSharder.tsx`, which saves a committed slab: MDU #0, the witness MDUs and the
user MDUs, and then the shards. It looks whether it is cancelled before it writes an MDU, and
returns then: such a run is one with the MDUs before that and no shards. The loop over the shards
does not look, so a run that gets there writes all of them. -/
def persist (dir : DealDirectory) (manifestRoot : Str) (manifestBlob : Option Bytes)
    (mdus : List Bytes) (shards : List SlabShard) : DealDirectory :=
  let dir := writeManifestRoot dir manifestRoot
  let dir := (manifestBlob.map (writeManifestBlob dir)).getD dir
  let dir := mdus.zipIdx.foldl (fun dir e => writeMdu dir e.2 e.1) dir
  shards.foldl (fun dir s => writeShard dir s.slabIndex s.slot s.data) dir

/-- What the page does to the directory: it stores a slab, or keeps and drops a decoded file. -/
inductive DirEvent where
  | persist (manifestRoot : Str) (manifestBlob : Option Bytes) (mdus : List Bytes)
    (shards : List SlabShard)
  | writeCachedFile (filePath : Str) (data : Bytes)
  | deleteCachedFile (filePath : Str)

/-- One event. Nothing else is changed by it. -/
def DirEvent.apply (sha256 : Bytes → Bytes) (dir : DealDirectory) : DirEvent → DealDirectory
  | .persist manifestRoot manifestBlob mdus shards =>
      Website.persist dir manifestRoot manifestBlob mdus shards
  | .writeCachedFile filePath data => Website.writeCachedFile sha256 dir filePath data
  | .deleteCachedFile filePath => Website.deleteCachedFile sha256 dir filePath

/-- `listDealFiles`. All names are listed, those of the shards too. -/
def listDealFiles (dir : DealDirectory) : List Str := dir.entries.map (·.1)

/-! ### The layout -/

/-- `Number.isFinite`. -/
def isFinite : JsNumber → Bool
  | .finite _ => true
  | _ => false

/-- `parseMduIndex`: the number in a name `mdu_<digits>.bin`, unless it is infinite. -/
def parseMduIndex (fileName : Str) : Option JsNumber :=
  if hasPrefix fileName "mdu_".toList then
    let rest := fileName.drop 4
    let digits := rest.take (rest.length - 4)
    if rest.drop (rest.length - 4) = ".bin".toList ∧ digits ≠ [] ∧ digits.all Char.isDigit then
      let idx := JsNumber.ofRat (bigInt digits) false
      if isFinite idx then some idx else none
    else none
  else none

/-- `inferMaxEnd`. A file of the list has a start that is not negative, and the sum is rounded. -/
def inferMaxEnd (files : List NilfsFileEntry) : Nat :=
  files.foldl (fun maxEnd f =>
    if f.sizeBytes ≤ 0 then maxEnd
    else
      let fileEnd := toBinary64 (f.startOffset + f.sizeBytes)
      if fileEnd > maxEnd then fileEnd else maxEnd) 0

/-- What `inferWitnessCountFromOpfs` finds out. -/
structure LocalLayout where
  witnessCount : Nat
  slabStartIdx : Nat
  totalMdus : Nat
  userCount : Nat
  maxEnd : Nat
deriving DecidableEq

/-- `inferWitnessCountFromOpfs`. What is neither MDU #0 nor needed for the files counts as
witness. -/
def inferWitnessCountFromOpfs (dir : DealDirectory) (files : List NilfsFileEntry) :
    Except String LocalLayout := do
  let totalMdus := (listDealFiles dir).countP fun name => (parseMduIndex name).isSome
  rejectIf (totalMdus = 0) "no MDUs found in OPFS"
  let maxEnd := inferMaxEnd files
  let userCount := (maxEnd + mduPayloadBytes - 1) / mduPayloadBytes
  let witnessCount : Int := (totalMdus : Int) - 1 - userCount
  rejectIf (witnessCount < 0)
    ("invalid slab layout: mdus=" ++ toString totalMdus ++ " userCount=" ++ toString userCount)
  .ok ⟨witnessCount.toNat, 1 + witnessCount.toNat, totalMdus, userCount, maxEnd⟩

/-! ### Reading -/

/-- What one step of `decodeRawSliceFromMdu` copies: the rest of the scalar at the cursor. The
payload of the scalar in which the valid data ends is right-aligned. -/
def scalarPiece (mdu : Bytes) (rawValidLen cursor remaining : Nat) : Nat × Bytes :=
  let rem := rawValidLen % scalarPayloadBytes
  let fullScalars := rawValidLen / scalarPayloadBytes
  let lastPartialLen := if rem = 0 then scalarPayloadBytes else rem
  let scalarIdx := cursor / scalarPayloadBytes
  let offsetInScalar := cursor % scalarPayloadBytes
  let isPartialScalar := rem ≠ 0 ∧ scalarIdx = fullScalars
  let scalarLen := if isPartialScalar then lastPartialLen else scalarPayloadBytes
  let take := min remaining (scalarLen - offsetInScalar)
  let scalarBase := scalarIdx * scalarBytes
  let payloadStart := scalarBase + (if isPartialScalar then scalarBytes - lastPartialLen else 1)
  (take, slice mdu (payloadStart + offsetInScalar) take)

/-- `decodeRawSliceFromMdu`. The bytes are copied scalar by scalar. -/
def decodeRawSliceFromMdu (mdu : Bytes) (rawStart rawLen rawValidLen : Nat) : Except String Bytes :=
  if rawLen ≤ 0 then .ok []
  else if rawStart + rawLen > rawValidLen then .error "raw range exceeds valid data length"
  else
    fillLoop (fun cursor remaining => .ok (scalarPiece mdu rawValidLen cursor remaining))
      "does not end"
      rawLen rawStart rawLen 0 (List.replicate rawLen 0)

/-- What one step of `readNilfsFileFromOpfs` copies: the rest of the MDU at the cursor. -/
def mduPiece (dir : DealDirectory) (slabStartIdx maxEnd cursor remaining : Nat) :
    Except String (Nat × Bytes) := do
  let userMduIdx := cursor / mduPayloadBytes
  let offsetInMdu := cursor % mduPayloadBytes
  let mduBase := userMduIdx * mduPayloadBytes
  let rawValidLen := min mduPayloadBytes (maxEnd - mduBase)
  rejectIf (rawValidLen = 0) "slab has no data for requested offset"
  rejectIf (rawValidLen ≤ offsetInMdu) "requested offset beyond valid slab data"
  let take := min remaining (rawValidLen - offsetInMdu)
  let slabMduIndex := slabStartIdx + userMduIdx
  let mdu ← orFail (readMdu dir slabMduIndex)
    ("missing local MDU: mdu_" ++ toString slabMduIndex ++ ".bin")
  let decoded ← decodeRawSliceFromMdu mdu offsetInMdu take rawValidLen
  .ok (take, decoded)

/-- `readNilfsFileFromOpfs`, for a range that is given by integers. The range is cut at the end of
the file. -/
def readNilfsFileFromOpfs (dir : DealDirectory) (file : NilfsFileEntry)
    (allFiles : List NilfsFileEntry) (rangeStart rangeLen : Nat) : Except String Bytes := do
  rejectIf (rangeStart ≥ file.sizeBytes) "rangeStart beyond EOF"
  let maxLen := file.sizeBytes - rangeStart
  let length := if rangeLen > 0 then min maxLen rangeLen else maxLen
  let layout ← inferWitnessCountFromOpfs dir allFiles
  fillLoop (mduPiece dir layout.slabStartIdx layout.maxEnd) "does not end" length
    (file.startOffset + rangeStart) length 0 (List.replicate length 0)

end NilStore.Website
