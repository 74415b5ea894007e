import NilStore.Lib.Tx

/-!
# `NilStore.Website.RangeChunker`: the chunks of a download

`nil-website/src/lib/rangeChunker.ts`. A range of a file is cut at the borders of blobs and MDUs.
The end of a blob is found by binary search. Numbers are natural numbers here: `Number` is exact on
the offsets and sizes that come up.
-/

set_option autoImplicit false

namespace NilStore.Website

open NilStore.Lib

/-- `NILFS_SCALAR_BYTES`. A scalar of an MDU takes this many bytes. -/
def nilfsScalarBytes : Nat := 32

/-- `NILFS_SCALAR_PAYLOAD_BYTES`. The first byte of a scalar is padding. -/
def nilfsScalarPayloadBytes : Nat := 31

/-- `FileRangeChunk`: a piece of a range, counted from the start of the file. -/
structure FileRangeChunk where
  rangeStart : Nat
  rangeLen : Nat
deriving DecidableEq

/-- `rawMduCapacityFromMduSize`. It is the payload of the scalars of an MDU. -/
def rawMduCapacityFromMduSize (mduSizeBytes : Nat) : Nat :=
  mduSizeBytes / nilfsScalarBytes * nilfsScalarPayloadBytes

/-- `encodedPosFromRawOffset`. Each scalar up to this one has a byte of padding. -/
def encodedPosFromRawOffset (rawOffsetInMdu : Nat) : Nat :=
  let scalarIdx := rawOffsetInMdu / nilfsScalarPayloadBytes
  rawOffsetInMdu + scalarIdx + 1

/-- `rawOffsetToEncodedBlobIndex`. The blobs are counted in the encoded MDU. -/
def rawOffsetToEncodedBlobIndex (rawOffsetInMdu blobSizeBytes : Nat) : Except String Nat :=
  if blobSizeBytes = 0 then .error "invalid blobSizeBytes"
  else .ok (encodedPosFromRawOffset rawOffsetInMdu / blobSizeBytes)

/-- The loop of `nextBlobBoundaryRawOffsetInMdu`, which narrows `lo` and `hi`. It returns `hi`. -/
def searchBlobBoundary (blobIdx blobSizeBytes lo hi : Nat) : Except String Nat :=
  if lo + 1 < hi then do
    let mid := (lo + hi) / 2
    let midBlob ← rawOffsetToEncodedBlobIndex mid blobSizeBytes
    if midBlob = blobIdx then searchBlobBoundary blobIdx blobSizeBytes mid hi
    else searchBlobBoundary blobIdx blobSizeBytes lo mid
  else .ok hi
termination_by hi - lo

/-- `nextBlobBoundaryRawOffsetInMdu`. In the last blob it is the end of the MDU. -/
def nextBlobBoundaryRawOffsetInMdu (rawOffsetInMdu rawMduCapacity blobSizeBytes : Nat) :
    Except String Nat :=
  let start := rawOffsetInMdu
  if start ≥ rawMduCapacity then .ok rawMduCapacity
  else do
    let blobIdx ← rawOffsetToEncodedBlobIndex start blobSizeBytes
    -- Find the first raw offset where the blob index changes (monotone in rawOffset).
    let hi ← searchBlobBoundary blobIdx blobSizeBytes start rawMduCapacity
    let hiBlob ← rawOffsetToEncodedBlobIndex hi blobSizeBytes
    if hiBlob = blobIdx then return rawMduCapacity else return hi

/-- The options of `planNilfsFileRangeChunks`. -/
structure ChunkOpts where
  fileStartOffset : Nat
  fileSizeBytes : Nat
  rangeStart : Nat
  rangeLen : Nat
  mduSizeBytes : Nat
  blobSizeBytes : Nat
deriving DecidableEq

/-- The length of the next chunk, at an offset of the slab. -/
def nextChunkLen (rawMduCapacity blobSizeBytes absOffset remaining : Nat) : Except String Nat := do
  let offsetInMdu := absOffset % rawMduCapacity
  let mduRemaining := rawMduCapacity - offsetInMdu
  let blobBoundary ← nextBlobBoundaryRawOffsetInMdu offsetInMdu rawMduCapacity blobSizeBytes
  let blobRemaining := blobBoundary - offsetInMdu
  return min (min (min remaining mduRemaining) blobRemaining) blobSizeBytes

/-- The loop of `planNilfsFileRangeChunks`. A chunk that is not positive ends it with an error. -/
def planChunksFrom (fileStartOffset rawMduCapacity blobSizeBytes cursor remaining : Nat) :
    Except String (List FileRangeChunk) :=
  if remaining > 0 then do
    let chunkLen ← nextChunkLen rawMduCapacity blobSizeBytes (fileStartOffset + cursor) remaining
    if chunkLen = 0 then throw "failed to derive a positive chunk length"
    else do
      let rest ← planChunksFrom fileStartOffset rawMduCapacity blobSizeBytes (cursor + chunkLen)
        (remaining - chunkLen)
      return ⟨cursor, chunkLen⟩ :: rest
  else .ok []
termination_by remaining

/-- `planNilfsFileRangeChunks`. The range is cut at the end of the file before it is divided. -/
def planNilfsFileRangeChunks (opts : ChunkOpts) : Except String (List FileRangeChunk) := do
  rejectIf (opts.fileSizeBytes = 0) "fileSizeBytes must be > 0"
  rejectIf (opts.rangeLen = 0) "rangeLen must be > 0"
  rejectIf (opts.rangeStart ≥ opts.fileSizeBytes) "rangeStart beyond EOF"
  let rawMduCapacity := rawMduCapacityFromMduSize opts.mduSizeBytes
  rejectIf (rawMduCapacity = 0) "invalid mduSizeBytes"
  let maxLen := min opts.rangeLen (opts.fileSizeBytes - opts.rangeStart)
  planChunksFrom opts.fileStartOffset rawMduCapacity opts.blobSizeBytes opts.rangeStart maxLen

end NilStore.Website
