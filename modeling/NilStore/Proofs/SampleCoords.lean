import NilStore.Cli.Shard
import Mathlib.Data.List.Perm.Subperm

/-!
# `NilStore.Proofs.SampleCoords`: which samples of `nil_cli` hit their byte

`run_shard` takes the stride of packed scalars, 31 bytes, in both of its modes. Over a whole file
the coordinates are those of scalar `byteOffset / 31` (`sampleCoords_flat`). For packed MDUs this is
the scalar that holds the byte. A raw MDU holds it in word `byteOffset / 32`, so only the first
samples are right (`sample_hits_iff`), and past the last scalar of the last MDU there is no
commitment to index.
-/

set_option autoImplicit false

namespace NilStore.Cli

open NilStore.Lib NilStore.Core

/-- The sample at the offset is as it should be: its coordinates are in range, no indexing panics,
and the scalar at the coordinates contains the byte at the offset, whatever the byte is. -/
def SampleHits (raw : Bool) (rawData : Bytes) (byteOffset : Nat) : Prop :=
  ∀ b chunks, rawChunks raw (rawData.set byteOffset b) = .ok chunks →
    (sampleCoords byteOffset).mduIdx < chunks.length ∧
      (sampleCoords byteOffset).blobIdx < blobsPerMdu ∧
      (sampleCoords byteOffset).symbolIdxInBlob < scalarsPerBlob ∧
      ∃ mdus word, encodedMdus raw chunks = some mdus ∧
        sampleWord mdus (sampleCoords byteOffset) = some word ∧ b ∈ word

/-! ### The coordinates -/

/-- The scalar of the coordinates in its MDU. -/
def SampleCoords.scalarIdx (c : SampleCoords) : Nat :=
  c.blobIdx * scalarsPerBlob + c.symbolIdxInBlob

/-- The coordinates count scalars of 31 bytes, over all MDUs. -/
theorem sampleCoords_flat (byteOffset : Nat) :
    (sampleCoords byteOffset).mduIdx = byteOffset / mduPayloadBytes ∧
      (sampleCoords byteOffset).scalarIdx = byteOffset % mduPayloadBytes / 31 ∧
      (sampleCoords byteOffset).mduIdx * scalarsPerMdu + (sampleCoords byteOffset).scalarIdx =
        byteOffset / 31 ∧
      (sampleCoords byteOffset).blobIdx < blobsPerMdu ∧
      (sampleCoords byteOffset).symbolIdxInBlob < scalarsPerBlob := by
  have hmdu : (sampleCoords byteOffset).mduIdx = byteOffset / 8126464 := rfl
  have hblob : (sampleCoords byteOffset).blobIdx = byteOffset % 8126464 / 126976 := rfl
  have hsymbol : (sampleCoords byteOffset).symbolIdxInBlob = byteOffset % 8126464 % 126976 / 31 :=
    rfl
  rw [SampleCoords.scalarIdx, hmdu, hblob, hsymbol, mduPayloadBytes, scalarsPerMdu,
    scalarsPerBlob, blobsPerMdu]
  refine ⟨rfl, ?_, ?_, ?_, ?_⟩ <;> omega

/-- The scalar that is read from an MDU. The coordinates are in range, so no check fails. -/
theorem sampleWord_eq {mdus : List Bytes} {mdu : Bytes} {c : SampleCoords}
    (hmdu : mdus[c.mduIdx]? = some mdu)
    (hlength : mdu.length = mduSize) (hblob : c.blobIdx < blobsPerMdu)
    (hsymbol : c.symbolIdxInBlob < scalarsPerBlob) :
    sampleWord mdus c = some (wordAt scalarBytes c.scalarIdx mdu) := by
  have hroom : c.blobIdx * blobSize + blobSize ≤ mdu.length := by
    rw [hlength, blobSize, mduSize]
    rw [blobsPerMdu] at hblob
    omega
  -- a word of the blob is a word of the MDU
  have hword : wordAt scalarBytes c.symbolIdxInBlob
      ((mdu.drop (c.blobIdx * blobSize)).take blobSize) =
      wordAt scalarBytes c.scalarIdx mdu := by
    have hsize : scalarBytes * scalarsPerBlob = blobSize := by decide
    have hblobWord : (mdu.drop (c.blobIdx * blobSize)).take blobSize =
        wordAt blobSize c.blobIdx mdu := by
      rw [wordAt, Nat.mul_comm]
    rw [SampleCoords.scalarIdx, ← wordAt_wordAt hsymbol, hsize, hblobWord]
  have hok : ¬(c.blobIdx ≥ blobsPerMdu ∨ c.blobIdx * blobSize + blobSize > mdu.length ∨
      c.symbolIdxInBlob ≥ scalarsPerBlob) := by
    omega
  rw [sampleWord, hmdu]
  simp only
  rw [if_neg hok, hword]

/-! ### Packed MDUs -/

/-- Chunks that fit are packed into one MDU each. -/
theorem encodedMdus_packed {chunks : List Bytes}
    (h : ∀ chunk ∈ chunks, chunk.length ≤ mduPayloadBytes) :
    encodedMdus false chunks = some (chunks.map payloadMdu) := by
  rw [encodedMdus]
  induction chunks with
  | nil => rfl
  | cons chunk rest ih =>
      rw [List.mapM_cons, ih fun c hc => h c (List.mem_cons_of_mem _ hc), if_neg (by decide),
        encodeToMdu_eq (h chunk List.mem_cons_self)]
      rfl

/-- Chunks of the raw form are taken as they are. -/
theorem encodedMdus_raw (chunks : List Bytes) : encodedMdus true chunks = some chunks := by
  rw [encodedMdus]
  induction chunks with
  | nil => rfl
  | cons chunk rest ih =>
      rw [List.mapM_cons, ih]
      rfl

/-- The byte at an offset is in the scalar that packs its chunk of 31. -/
theorem mem_alignRight_chunk {l : Bytes} {p : Nat} {b : UInt8} (h : l[p]? = some b) :
    b ∈ alignRight 0 32 ((l.drop (31 * (p / 31))).take 31) := by
  have hplace : 31 * (p / 31) + p % 31 = p := Nat.div_add_mod p 31
  have hmem : ((l.drop (31 * (p / 31))).take 31)[p % 31]? = some b := by
    rw [List.getElem?_take_of_lt (Nat.mod_lt p (by decide)), List.getElem?_drop, hplace, h]
  exact List.mem_append_right _ (List.mem_of_getElem? hmem)

/-- Every sample of a packed file hits. The coordinates are computed from the payload bytes, as the
packer lays them out. -/
theorem sample_hits_packed {rawData : Bytes} {byteOffset : Nat} (h : byteOffset < rawData.length) :
    SampleHits false rawData byteOffset := by
  intro b chunks hchunks
  obtain ⟨hmdu, hscalar, -, hblob, hsymbol⟩ := sampleCoords_flat byteOffset
  cases hchunks
  generalize hdata : rawData.set byteOffset b = data
  -- the byte, the chunk it is in, and its place there
  have hbyte : data[byteOffset]? = some b := by rw [← hdata, List.getElem?_set_self h]
  have hplace : mduPayloadBytes * (byteOffset / mduPayloadBytes) + byteOffset % mduPayloadBytes =
      byteOffset :=
    Nat.div_add_mod _ _
  have hmod : byteOffset % mduPayloadBytes < mduPayloadBytes := Nat.mod_lt _ (by decide)
  have hlt : mduPayloadBytes * (byteOffset / mduPayloadBytes) < data.length := by
    have hlong := (List.getElem?_eq_some_iff.mp hbyte).1
    omega
  have hchunk : (data.toChunks mduPayloadBytes)[byteOffset / mduPayloadBytes]? =
      some ((data.drop (mduPayloadBytes * (byteOffset / mduPayloadBytes))).take
        mduPayloadBytes) := by
    rw [getElem?_toChunks (by decide), if_pos hlt]
  -- every chunk fits into an MDU
  have hchunks : ∀ chunk ∈ data.toChunks mduPayloadBytes, chunk.length ≤ mduPayloadBytes := by
    intro chunk hmem
    obtain ⟨i, hi⟩ := List.mem_iff_getElem?.mp hmem
    rw [getElem?_toChunks (by decide)] at hi
    split at hi
    · cases hi
      exact List.length_take_le _ _
    · cases hi
  have hindex : (sampleCoords byteOffset).mduIdx < (data.toChunks mduPayloadBytes).length := by
    rw [hmdu]
    exact (List.getElem?_eq_some_iff.mp hchunk).1
  have hread : ((data.toChunks mduPayloadBytes).map payloadMdu)[(sampleCoords byteOffset).mduIdx]? =
      some (payloadMdu
        ((data.drop (mduPayloadBytes * (byteOffset / mduPayloadBytes))).take mduPayloadBytes)) := by
    rw [hmdu, List.getElem?_map, hchunk, Option.map_some]
  refine ⟨hindex, hblob, hsymbol, _, _, encodedMdus_packed hchunks,
    sampleWord_eq hread (length_payloadMdu (List.length_take_le _ _)) hblob hsymbol, ?_⟩
  have hscalars : (sampleCoords byteOffset).scalarIdx < scalarsPerMdu := by
    rw [SampleCoords.scalarIdx, scalarsPerMdu]
    rw [blobsPerMdu] at hblob
    rw [scalarsPerBlob] at hsymbol ⊢
    omega
  -- The byte of the file is that of the chunk, and its scalar is the one of the coordinates.
  have hinner : ((data.drop (mduPayloadBytes * (byteOffset / mduPayloadBytes))).take
      mduPayloadBytes)[byteOffset % mduPayloadBytes]? = some b := by
    rw [List.getElem?_take_of_lt hmod, List.getElem?_drop, hplace, hbyte]
  have hmem := mem_alignRight_chunk hinner
  rw [← hscalar] at hmem
  rwa [← scalar_payloadMdu hscalars] at hmem

/-! ### Raw MDUs -/

/-- More bytes than a word has room for. -/
theorem exists_not_mem_word (word : Bytes) (h : word.length ≤ 32) : ∃ b : UInt8, b ∉ word := by
  by_contra hall
  push Not at hall
  have hnodup : ((List.range 33).map UInt8.ofNat).Nodup := by decide
  have hsub : (List.range 33).map UInt8.ofNat ⊆ word := fun b _ => hall b
  have hle := (hnodup.subperm hsub).length_le
  simp only [List.length_map, List.length_range] at hle
  omega

/-- A byte of another word does not show in a word. -/
theorem wordAt_set_of_ne {l : Bytes} {p i : Nat} (b : UInt8) (h : p / 32 ≠ i) :
    wordAt 32 i (l.set p b) = wordAt 32 i l := by
  refine List.ext_getElem? fun j => ?_
  by_cases hj : j < 32
  · rw [getElem?_wordAt hj, getElem?_wordAt hj, List.getElem?_set_ne]
    omega
  · rw [List.getElem?_eq_none, List.getElem?_eq_none]
    · rw [wordAt, List.length_take]
      omega
    · rw [wordAt, List.length_take]
      omega

/-- Where a raw sample is in range, it opens word `byteOffset / 31` of the file. A raw file has
words of 32 bytes. -/
theorem sampleWord_raw {data : Bytes} (hlength : data.length % mduSize = 0) {byteOffset : Nat}
    (hindex : (sampleCoords byteOffset).mduIdx < (data.toChunks mduSize).length) :
    sampleWord (data.toChunks mduSize) (sampleCoords byteOffset) =
      some (wordAt 32 (byteOffset / 31) data) := by
  obtain ⟨hmdu, hscalar, hflat, hblob, hsymbol⟩ := sampleCoords_flat byteOffset
  have hread := List.getElem?_eq_getElem hindex
  have hchunk := getElem?_toChunks (n := mduSize) (by decide) data (sampleCoords byteOffset).mduIdx
  rw [hread] at hchunk
  split at hchunk
  · rename_i hlt
    -- every MDU of an accepted raw file is whole
    have hwhole : (wordAt mduSize (sampleCoords byteOffset).mduIdx data).length = mduSize := by
      refine length_wordAt ?_
      obtain ⟨m, hm⟩ := Nat.dvd_of_mod_eq_zero hlength
      rw [hm] at hlt ⊢
      rw [← Nat.mul_succ]
      exact Nat.mul_le_mul_left _ (Nat.lt_of_mul_lt_mul_left hlt)
    have hscalars : (sampleCoords byteOffset).scalarIdx < scalarsPerMdu := by
      rw [SampleCoords.scalarIdx, scalarsPerMdu]
      rw [blobsPerMdu] at hblob
      rw [scalarsPerBlob] at hsymbol ⊢
      omega
    rw [sampleWord_eq (hread.trans hchunk) hwhole hblob hsymbol, ← hflat, ← wordAt_wordAt hscalars]
    rfl
  · cases hchunk

/-- A sample hits exactly when the file is packed, or its offset is close enough to the start that
words of 31 and of 32 bytes agree. -/
theorem sample_hits_iff {raw : Bool} {rawData : Bytes} {byteOffset : Nat}
    (haccepted : ∃ chunks, rawChunks raw rawData = .ok chunks) (h : byteOffset < rawData.length) :
    SampleHits raw rawData byteOffset ↔ raw = false ∨ byteOffset % 32 + byteOffset / 32 < 31 := by
  cases raw with
  | false => exact ⟨fun _ => .inl rfl, fun _ => sample_hits_packed h⟩
  | true =>
      -- what is accepted is a multiple of the MDU
      have hmultiple : rawData.length % mduSize = 0 := by
        by_contra hnot
        obtain ⟨chunks, hchunks⟩ := haccepted
        rw [rawChunks] at hchunks
        simp only [if_pos hnot] at hchunks
        cases hchunks
      have hmultiple' : ∀ b, (rawData.set byteOffset b).length % mduSize = 0 := by
        intro b
        rw [List.length_set, hmultiple]
      have hchunks : ∀ b, rawChunks true (rawData.set byteOffset b) =
          .ok ((rawData.set byteOffset b).toChunks mduSize) := by
        intro b
        rw [rawChunks]
        simp only [hmultiple' b, ne_eq, not_true_eq_false, if_false, if_true]
      -- 31 and 32 agree as long as the quotients do
      have hagree : byteOffset % 32 + byteOffset / 32 < 31 ↔
        byteOffset / 32 = byteOffset / 31 := by omega
      simp only [Bool.true_eq_false, false_or]
      rw [hagree]
      constructor
      · intro hhits
        by_contra hne
        -- The word that is opened does not depend on the byte, and cannot contain every byte.
        obtain ⟨b, hb⟩ := exists_not_mem_word (wordAt 32 (byteOffset / 31) rawData)
          (by rw [wordAt, List.length_take]; omega)
        obtain ⟨hindex, -, -, mdus, word, hmdus, hword, hmem⟩ := hhits b _ (hchunks b)
        rw [encodedMdus_raw] at hmdus
        cases hmdus
        rw [sampleWord_raw (hmultiple' b) hindex] at hword
        cases hword
        rw [wordAt_set_of_ne b hne] at hmem
        exact hb hmem
      · intro heq b chunks hok
        rw [hchunks b] at hok
        cases hok
        obtain ⟨hmdu, -, -, hblob, hsymbol⟩ := sampleCoords_flat byteOffset
        have hfirst : (sampleCoords byteOffset).mduIdx = 0 := by
          rw [hmdu, mduPayloadBytes]
          omega
        have hindex : (sampleCoords byteOffset).mduIdx <
            ((rawData.set byteOffset b).toChunks mduSize).length := by
          have hsome := getElem?_toChunks (n := mduSize) (by decide) (rawData.set byteOffset b) 0
          rw [Nat.mul_zero, List.length_set, if_pos (by omega)] at hsome
          rw [hfirst]
          exact (List.getElem?_eq_some_iff.mp hsome).1
        refine ⟨hindex, hblob, hsymbol, _, _, encodedMdus_raw _,
          sampleWord_raw (hmultiple' b) hindex, ?_⟩
        rw [← heq]
        have hplace : 32 * (byteOffset / 32) + byteOffset % 32 = byteOffset := Nat.div_add_mod _ _
        have hmem : (wordAt 32 (byteOffset / 32) (rawData.set byteOffset b))[byteOffset % 32]? =
            some b := by
          rw [getElem?_wordAt (Nat.mod_lt _ (by decide)), hplace, List.getElem?_set_self h]
        exact List.mem_of_getElem? hmem

/-! ### One raw MDU -/

/-- A raw file of 8 MiB is one MDU. -/
theorem rawChunks_one (b : UInt8) :
    rawChunks true (List.replicate mduSize b) = .ok [List.replicate mduSize b] := by
  have hlength : (List.replicate mduSize b).length = mduSize := List.length_replicate
  have hne : List.replicate mduSize b ≠ [] := by
    rw [ne_eq, ← List.length_eq_zero_iff, hlength]
    decide
  rw [rawChunks, toChunks_of_length_le hne hlength.le]
  simp only [hlength, Nat.mod_self, ne_eq, not_true_eq_false, if_false, if_true]

/-- Byte 40 of the MDU is in its second word, in both ways to count, and byte 31 is not. -/
theorem sample_hits_iff_raw :
    SampleHits true (List.replicate mduSize 0) 40 ∧
      ¬SampleHits true (List.replicate mduSize 0) 31 := by
  have hlength : ∀ p < mduSize, p < (List.replicate mduSize (0 : UInt8)).length := by
    intro p hp
    rwa [List.length_replicate]
  constructor
  · exact (sample_hits_iff ⟨_, rawChunks_one 0⟩ (hlength 40 (by decide))).mpr (.inr (by decide))
  · intro hhits
    rcases (sample_hits_iff ⟨_, rawChunks_one 0⟩ (hlength 31 (by decide))).mp hhits
      with hpacked | hnear
    · cases hpacked
    · exact absurd hnear (by decide)

/-- A sample near the end of the MDU has coordinates in an MDU that does not exist, and indexing its
commitments panics. -/
theorem raw_sample_panics :
    rawChunks true (List.replicate mduSize 0) = .ok [List.replicate mduSize 0] ∧
      8126464 < (List.replicate mduSize (0 : UInt8)).length ∧
      ¬(sampleCoords 8126464).mduIdx < [List.replicate mduSize (0 : UInt8)].length ∧
      sampleWord [List.replicate mduSize 0] (sampleCoords 8126464) = none := by
  have hindex : (sampleCoords 8126464).mduIdx = 1 := by decide
  refine ⟨rawChunks_one 0, ?_, ?_, ?_⟩
  · rw [List.length_replicate]
    decide
  · rw [hindex]
    decide
  · rw [sampleWord, hindex]
    rfl

end NilStore.Cli
