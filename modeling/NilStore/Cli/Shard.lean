import NilStore.Core.Utils

/-!
# `NilStore.Cli.Shard`: the shards of `nil_cli/src/main.rs`

`run_shard` cuts a file into MDUs. In raw mode a chunk is an MDU already. Otherwise `encode_to_mdu`
packs 31 bytes into each scalar, by way of big integers. For the sample proofs it draws an offset in
the file and computes the coordinates of the scalar that it opens. Commitments and proofs of the
MDUs do not look at the coordinates, so what is here of a sample proof is the scalar that it is
about.
-/

set_option autoImplicit false

namespace NilStore.Cli

open NilStore.Lib NilStore.Core

/-- `encode_to_mdu`; `none` where a scalar is too large and it panics. -/
def encodeToMdu (rawData : Bytes) : Option Bytes := do
  let frs := (rawData.toChunks 31).map ofBeBytes
  let blobs ← frsToBlobs frs
  let mdu := blobs.flatten
  return if mdu.length < mduSize then mdu ++ List.replicate (mduSize - mdu.length) 0 else mdu

/-- The chunks of `run_shard`, one for each MDU. -/
def rawChunks (raw : Bool) (rawData : Bytes) : Except String (List Bytes) :=
  let chunkSize := 31
  let mduCapacity := 64 * 4096 * chunkSize
  if raw then
    if rawData.length % mduSize ≠ 0 then .error "Raw input must be multiple of 8MB"
    else .ok (rawData.toChunks mduSize)
  else .ok (rawData.toChunks mduCapacity)

/-- The encoded MDUs of the chunks. -/
def encodedMdus (raw : Bool) (chunks : List Bytes) : Option (List Bytes) :=
  chunks.mapM fun rawChunk => if raw then some rawChunk else encodeToMdu rawChunk

/-- The coordinates of a sample. -/
structure SampleCoords where
  mduIdx : Nat
  blobIdx : Nat
  symbolIdxInBlob : Nat
deriving DecidableEq

/-- The coordinates that `run_shard` computes for an offset in the file. -/
def sampleCoords (byteOffset : Nat) : SampleCoords :=
  let chunkSize := 31
  let mduCapacity := 64 * 4096 * chunkSize
  let mduIdx := byteOffset / mduCapacity
  let offsetInMduRaw := byteOffset % mduCapacity
  let blobIdx := offsetInMduRaw / (4096 * chunkSize)
  let offsetInBlobRaw := offsetInMduRaw % (4096 * chunkSize)
  ⟨mduIdx, blobIdx, offsetInBlobRaw / chunkSize⟩

/-- The scalar that the sample proof opens; `none` where the indexing panics, or where the blob has
no such scalar. An MDU has 64 commitments. -/
def sampleWord (mdus : List Bytes) (c : SampleCoords) : Option Bytes :=
  match mdus[c.mduIdx]? with
  | none => none
  | some mdu =>
      let blobStart := c.blobIdx * blobSize
      if c.blobIdx ≥ blobsPerMdu ∨ blobStart + blobSize > mdu.length ∨
        c.symbolIdxInBlob ≥ scalarsPerBlob then none
      else some (wordAt scalarBytes c.symbolIdxInBlob ((mdu.drop blobStart).take blobSize))

/-! ### The encoder -/

/-- `encode_to_mdu` packs a payload as the Rust core does. It makes field elements of chunks of 31
bytes and writes them as 32; the core pads each chunk on the left. For chunks that are this short
both give the same 32 bytes. -/
theorem encodeToMdu_eq {rawData : Bytes} (h : rawData.length ≤ mduPayloadBytes) :
    encodeToMdu rawData = some (payloadMdu rawData) := by
  have hchunks : ∀ chunk ∈ rawData.toChunks 31, chunk.length ≤ 31 := by
    intro chunk hchunk
    obtain ⟨i, hi⟩ := List.mem_iff_getElem?.mp hchunk
    rw [getElem?_toChunks (by decide)] at hi
    split at hi
    · cases hi
      exact List.length_take_le _ _
    · cases hi
  have hfrs : ∀ fr ∈ (rawData.toChunks 31).map ofBeBytes, fr < 256 ^ 32 := by
    intro fr hfr
    obtain ⟨chunk, hchunk, rfl⟩ := List.mem_map.mp hfr
    refine Nat.lt_of_lt_of_le (ofBeBytes_lt chunk) (Nat.pow_le_pow_right (by decide) ?_)
    exact (hchunks chunk hchunk).trans (by decide)
  -- the elements are grouped in blobs, the last one filled with zeros
  obtain ⟨blobs, k, hblobs, hflat, hcount⟩ := frsToBlobs_eq hfrs
  -- a number of 31 bytes, written in 32, is the chunk with zeros before it
  have hwords : ((rawData.toChunks 31).map ofBeBytes).map (beBytes 32) =
      (rawData.toChunks 31).map (alignRight 0 32) := by
    rw [List.map_map]
    refine List.map_congr_left fun chunk hchunk => ?_
    exact beBytes_ofBeBytes_alignRight ((hchunks chunk hchunk).trans (by decide))
  have hlengths : ∀ word ∈ (rawData.toChunks 31).map (alignRight 0 32), word.length = 32 :=
    length_of_mem_packed (by decide) (by decide)
  -- At most 262144 chunks, so at most 64 blobs.
  have hroom : (rawData.toChunks 31).length ≤ scalarsPerMdu := by
    by_contra hlong
    have hnone : (rawData.toChunks 31)[scalarsPerMdu]? = none := by
      rw [getElem?_toChunks (by decide), if_neg]
      rw [scalarsPerMdu]
      rw [mduPayloadBytes] at h
      omega
    have hle := List.getElem?_eq_none_iff.mp hnone
    omega
  rw [hwords] at hflat
  rw [List.length_map] at hcount
  have hsize : 32 * (rawData.toChunks 31).length + k ≤ mduSize := by
    rw [hcount, blobSize, mduSize]
    rw [scalarsPerMdu] at hroom
    omega
  have hlong : blobs.flatten.length = 32 * (rawData.toChunks 31).length + k := by
    rw [hflat, List.length_append, length_flatten_words hlengths, List.length_map,
      List.length_replicate]
  have hfill : payloadMdu rawData =
      blobs.flatten ++ List.replicate (mduSize - blobs.flatten.length) 0 := by
    have hrest : 32 * scalarsPerMdu - 32 * (rawData.toChunks 31).length =
        k + (mduSize - (32 * (rawData.toChunks 31).length + k)) := by
      rw [scalarsPerMdu]
      rw [mduSize] at hsize ⊢
      omega
    simp only [payloadMdu, packRight, scalarBytes, scalarPayloadBytes]
    rw [length_flatten_words hlengths, List.length_map, hrest, hlong, hflat, List.append_assoc,
      List.replicate_append_replicate]
  rw [encodeToMdu, hblobs, Option.bind_eq_bind, Option.bind_some, hfill]
  simp only
  split
  · rfl
  · rename_i hfull
    rw [Nat.sub_eq_zero_of_le (Nat.le_of_not_lt hfull), List.replicate_zero, List.append_nil]
    rfl

end NilStore.Cli
