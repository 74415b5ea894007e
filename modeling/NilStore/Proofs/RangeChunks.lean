import NilStore.Gateway.Fetch
import NilStore.Proofs.BrowserSessions

/-!
# `NilStore.Proofs.RangeChunks`: the chunks of a range are the fetchable ones

`planNilfsFileRangeChunks` cuts a range at the borders of blobs, and the gateway refuses a range
that crosses one. The two compute the borders in different ways: the page searches for the first
offset of the next blob, in natural numbers, and the gateway maps the first and the last byte with
64-bit numbers. `FetchableRange` is what the gateway admits. In the user data of the slab it means
that the bytes have the same number `blobAt` (`fetchableRange_iff`), and by these numbers the chunks
are all there is between two borders (`planNilfsFileRangeChunks_fetchable`).
-/

set_option autoImplicit false

namespace NilStore.Website

open NilStore.Lib NilStore.Gateway

/-! ### What the gateway admits -/

/-- A range of the user data that lies in one MDU and in one blob, and is not longer than a blob. -/
structure FetchableRange (absOffset len : Nat) : Prop where
  mdu : UInt64.ofNat absOffset / rawMduCapacityU64 =
    UInt64.ofNat (absOffset + len - 1) / rawMduCapacityU64
  blob : ∃ blob, Gateway.rawOffsetToEncodedBlobIndex (UInt64.ofNat absOffset % rawMduCapacityU64) =
    .ok blob ∧
    Gateway.rawOffsetToEncodedBlobIndex (UInt64.ofNat (absOffset + len - 1) % rawMduCapacityU64) =
      .ok blob
  size : len ≤ 131072

/-- The MDU that 64-bit arithmetic finds for a byte is the one its blob lies in. -/
theorem toNat_div_capacity {x : Nat} (hx : x < 2 ^ 64) :
    (UInt64.ofNat x / rawMduCapacityU64).toNat = blobAt x / 64 := by
  rw [UInt64.toNat_div, UInt64.toNat_ofNat_of_lt' hx]
  exact div_rawMduCapacity x

/-- The gateway has a blob for every offset, and it is the one of the user data. -/
theorem blobIndex_ok {x : Nat} (hx : x < 2 ^ 64) :
    ∃ blob, Gateway.rawOffsetToEncodedBlobIndex (UInt64.ofNat x % rawMduCapacityU64) = .ok blob ∧
      blob.toNat = blobAt x % 64 := by
  have hmod : (UInt64.ofNat x % rawMduCapacityU64).toNat = x % rawMduCapacity := by
    rw [UInt64.toNat_mod, UInt64.toNat_ofNat_of_lt' hx]
    rfl
  have hlt : (UInt64.ofNat x % rawMduCapacityU64).toNat < rawMduCapacity := by
    rw [hmod]
    exact Nat.mod_lt _ (by decide)
  obtain ⟨blob, hblob, hnumber⟩ := rawOffsetToEncodedBlobIndex_ok hlt
  rw [hmod, mod_rawMduCapacity_div] at hnumber
  exact ⟨blob, hblob, hnumber⟩

/-- A range is fetchable when its first and last byte are in one blob of the user data. The blobs
are numbered through all MDUs, so the MDU is the same too. -/
theorem fetchableRange_iff {absOffset len : Nat} (hpos : 0 < len)
    (hend : absOffset + len < 2 ^ 64) :
    FetchableRange absOffset len ↔ blobAt absOffset = blobAt (absOffset + len - 1) ∧
      len ≤ 131072 := by
  -- the two blobs as the gateway computes them
  obtain ⟨first, hfirst, hfirstNumber⟩ := @blobIndex_ok absOffset (by omega)
  obtain ⟨last, hlast, hlastNumber⟩ := @blobIndex_ok (absOffset + len - 1) (by omega)
  have hfirstMdu := @toNat_div_capacity absOffset (by omega)
  have hlastMdu := @toNat_div_capacity (absOffset + len - 1) (by omega)
  constructor
  · intro h
    obtain ⟨blob, hblob, hblob'⟩ := h.blob
    have heq : first = last := by
      rw [Except.ok.inj (hfirst.symm.trans hblob), Except.ok.inj (hlast.symm.trans hblob')]
    have hmdu := congrArg UInt64.toNat h.mdu
    rw [hfirstMdu, hlastMdu] at hmdu
    rw [heq, hlastNumber] at hfirstNumber
    exact ⟨by omega, h.size⟩
  · rintro ⟨hblob, hsize⟩
    refine ⟨?_, ⟨first, hfirst, ?_⟩, hsize⟩
    · apply UInt64.toNat_inj.mp
      rw [hfirstMdu, hlastMdu, hblob]
    · have heq : first = last := by
        apply UInt32.toNat_inj.mp
        rw [hfirstNumber, hlastNumber, hblob]
      rw [heq]
      exact hlast

/-- The check of the gateway passes: it compares the MDUs and the blobs of the two ends. -/
theorem FetchableRange.checkOneBlob_ok {absOffset len : Nat} (h : FetchableRange absOffset len)
    (hpos : 0 < len) {seg : Segment} (hoffset : seg.absOffset = UInt64.ofNat absOffset)
    (hlen : seg.segmentLen = UInt64.ofNat len) : checkOneBlob seg = .ok () := by
  -- the last byte, in 64 bits
  have hlast : seg.absOffset + seg.segmentLen - 1 = UInt64.ofNat (absOffset + len - 1) := by
    obtain ⟨n, rfl⟩ : ∃ n, len = n + 1 := ⟨len - 1, by omega⟩
    have hsum : absOffset + (n + 1) - 1 = absOffset + n := by omega
    have hone : UInt64.ofNat (n + 1) = UInt64.ofNat n + 1 := UInt64.ofNat_add n 1
    rw [hoffset, hlen, hsum, hone, UInt64.ofNat_add, ← UInt64.add_assoc, UInt64.add_sub_cancel]
  obtain ⟨blob, hfirst, hblob⟩ := h.blob
  have hfirstBlob : Gateway.firstBlob seg = blob := by
    rw [Gateway.firstBlob, hoffset, hfirst]
  have hmdu : rejectIf (seg.absOffset / rawMduCapacityU64 ≠
      (seg.absOffset + seg.segmentLen - 1) / rawMduCapacityU64)
      (⟨400, "range crosses MDU boundary", "split into multiple requests"⟩ : JsonError) =
        .ok () := by
    refine if_neg (not_not.mpr ?_)
    rw [hlast, hoffset]
    exact h.mdu
  have hone : rejectIf (Gateway.rawOffsetToEncodedBlobIndex
      ((seg.absOffset + seg.segmentLen - 1) % rawMduCapacityU64) ≠ .ok (Gateway.firstBlob seg))
      (⟨400, "range crosses blob boundary", "split into multiple requests"⟩ : JsonError) =
        .ok () := by
    refine if_neg (not_not.mpr ?_)
    rw [hlast, hfirstBlob]
    exact hblob
  exact except_bind_ok.mpr ⟨(), hmdu, hone⟩

/-! ### The plan is there -/

/-- The search ends for blobs that are not empty. -/
theorem searchBlobBoundary_isOk {blobIdx blobSizeBytes : Nat} (hsize : blobSizeBytes ≠ 0)
    (lo hi : Nat) :
    ∃ b, searchBlobBoundary blobIdx blobSizeBytes lo hi = .ok b := by
  induction hmeasure : hi - lo using Nat.strong_induction_on generalizing lo hi with
  | _ d ih =>
      rw [searchBlobBoundary]
      by_cases hmore : lo + 1 < hi
      · rw [if_pos hmore]
        have hmid : Website.rawOffsetToEncodedBlobIndex ((lo + hi) / 2) blobSizeBytes =
            .ok (encodedPosFromRawOffset ((lo + hi) / 2) / blobSizeBytes) := if_neg hsize
        by_cases hsame : encodedPosFromRawOffset ((lo + hi) / 2) / blobSizeBytes = blobIdx
        · obtain ⟨b, hb⟩ := ih (hi - (lo + hi) / 2) (by omega) ((lo + hi) / 2) hi rfl
          exact ⟨b, except_bind_ok.mpr ⟨_, hmid, (if_pos hsame).trans hb⟩⟩
        · obtain ⟨b, hb⟩ := ih ((lo + hi) / 2 - lo) (by omega) lo ((lo + hi) / 2) rfl
          exact ⟨b, except_bind_ok.mpr ⟨_, hmid, (if_neg hsame).trans hb⟩⟩
      · rw [if_neg hmore]
        exact ⟨hi, rfl⟩

/-- There is a next chunk: it ends with the blob of its first byte, or with the range. -/
theorem nextChunkLen_ok (absOffset remaining : Nat) :
    nextChunkLen (64 * blobPayload) 131072 absOffset remaining =
      .ok (min remaining ((blobAt absOffset + 1) * blobPayload - absOffset)) := by
  have hlt : absOffset % (64 * blobPayload) < 64 * blobPayload := Nat.mod_lt _ (by decide)
  obtain ⟨boundary, hboundary⟩ : ∃ boundary,
      nextBlobBoundaryRawOffsetInMdu (absOffset % (64 * blobPayload))
      (64 * blobPayload) 131072 = .ok boundary := by
    obtain ⟨b, hb⟩ :=
      @searchBlobBoundary_isOk (blobAt (absOffset % (64 * blobPayload))) 131072 (by decide)
      (absOffset % (64 * blobPayload)) (64 * blobPayload)
    have hsearch : ∀ boundary, (if blobAt b = blobAt (absOffset % (64 * blobPayload)) then
        (pure (64 * blobPayload) : Except String Nat) else pure b) = .ok boundary →
        nextBlobBoundaryRawOffsetInMdu (absOffset % (64 * blobPayload)) (64 * blobPayload) 131072 =
          .ok boundary := by
      intro boundary h
      rw [nextBlobBoundaryRawOffsetInMdu, if_neg (Nat.not_le.mpr hlt)]
      exact except_bind_ok.mpr ⟨_, rawOffsetToEncodedBlobIndex_eq _, except_bind_ok.mpr ⟨b, hb,
        except_bind_ok.mpr ⟨_, rawOffsetToEncodedBlobIndex_eq _, h⟩⟩⟩
    -- a border in the same blob is the end of the MDU
    by_cases hsame : blobAt b = blobAt (absOffset % (64 * blobPayload))
    · exact ⟨_, hsearch _ (if_pos hsame)⟩
    · exact ⟨_, hsearch _ (if_neg hsame)⟩
  have hlen : ∃ chunkLen, nextChunkLen (64 * blobPayload) 131072 absOffset remaining =
      .ok chunkLen :=
    ⟨_, except_bind_ok.mpr ⟨boundary, hboundary, rfl⟩⟩
  obtain ⟨chunkLen, hchunk⟩ := hlen
  rw [hchunk, nextChunkLen_eq hchunk]

/-- The loop ends with chunks. Each of them takes something off the range. -/
theorem planChunksFrom_isOk (fileStartOffset remaining : Nat) :
    ∀ cursor, ∃ chunks, planChunksFrom fileStartOffset (64 * blobPayload) 131072 cursor remaining =
      .ok chunks := by
  induction remaining using Nat.strong_induction_on with
  | _ remaining ih =>
      intro cursor
      by_cases hpos : 0 < remaining
      · -- the next border is behind the cursor, so the chunk is not empty
        have hne : min remaining ((blobAt (fileStartOffset + cursor) + 1) * blobPayload -
            (fileStartOffset + cursor)) ≠ 0 := by
          simp only [blobAt, blobPayload]
          omega
        have hlen := nextChunkLen_ok (fileStartOffset + cursor) remaining
        generalize min remaining ((blobAt (fileStartOffset + cursor) + 1) * blobPayload -
          (fileStartOffset + cursor)) = chunkLen at hne hlen
        obtain ⟨rest, hrest⟩ := ih (remaining - chunkLen) (by omega) (cursor + chunkLen)
        refine ⟨⟨cursor, chunkLen⟩ :: rest, ?_⟩
        rw [planChunksFrom, if_pos hpos]
        refine except_bind_ok.mpr ⟨chunkLen, hlen, ?_⟩
        rw [if_neg hne]
        exact except_bind_ok.mpr ⟨rest, hrest, rfl⟩
      · refine ⟨[], ?_⟩
        rw [planChunksFrom, if_neg hpos]

/-! ### The chunks -/

/-- Pieces of a tiling that are neighbours touch. -/
theorem tiles_neighbours {α : Type} {start len : α → Nat} {lo hi : Nat} {l : List α}
    (h : Tiles start len lo l hi) {i : Nat} {c c' : α} (hc : l[i]? = some c)
    (hc' : l[i + 1]? = some c') :
    start c + len c = start c' := by
  induction l generalizing lo i with
  | nil => cases hc
  | cons first rest ih =>
      obtain ⟨hstart, -, hrest⟩ := h
      cases i with
      | zero =>
          cases rest with
          | nil => cases hc'
          | cons second rest =>
              cases hc
              cases hc'
              rw [hstart]
              exact hrest.1.symm
      | succ i => exact ih hrest hc hc'

/-- For every range of a file of the slab there are chunks. They cut the part of the range that is
in the file, the gateway admits each of them, and it would admit no two neighbours in one. (The sum
of the numbers is exact below `2 ^ 53`.) -/
theorem planNilfsFileRangeChunks_fetchable (opts : ChunkOpts) (hmdu : opts.mduSizeBytes = 8388608)
    (hblob : opts.blobSizeBytes = 131072) (hrange : opts.rangeStart < opts.fileSizeBytes)
    (hlen : 0 < opts.rangeLen) (hexact : opts.fileStartOffset + opts.fileSizeBytes < 2 ^ 53) :
    ∃ chunks, planNilfsFileRangeChunks opts = .ok chunks ∧
      Tiles FileRangeChunk.rangeStart FileRangeChunk.rangeLen opts.rangeStart chunks
        (min (opts.rangeStart + opts.rangeLen) opts.fileSizeBytes) ∧
      (∀ c ∈ chunks, FetchableRange (opts.fileStartOffset + c.rangeStart) c.rangeLen ∧
        ∀ seg : Segment, seg.absOffset = UInt64.ofNat (opts.fileStartOffset + c.rangeStart) →
          seg.segmentLen = UInt64.ofNat c.rangeLen → checkOneBlob seg = .ok ()) ∧
      ∀ i c c', chunks[i]? = some c → chunks[i + 1]? = some c' →
        ¬FetchableRange (opts.fileStartOffset + c.rangeStart) (c.rangeLen + c'.rangeLen) := by
  have hmaxLen : 0 < min opts.rangeLen (opts.fileSizeBytes - opts.rangeStart) := by omega
  obtain ⟨chunks, hchunks⟩ := planChunksFrom_isOk opts.fileStartOffset
    (min opts.rangeLen (opts.fileSizeBytes - opts.rangeStart)) opts.rangeStart
  have hplan : planNilfsFileRangeChunks opts = .ok chunks := by
    refine except_bind_ok.mpr ⟨(), if_neg (by omega), except_bind_ok.mpr ⟨(), if_neg (by omega),
      except_bind_ok.mpr ⟨(), if_neg (by omega), except_bind_ok.mpr ⟨(), ?_, ?_⟩⟩⟩⟩
    · rw [hmdu]
      exact if_neg (by decide)
    · rw [hmdu, hblob]
      exact hchunks
  obtain ⟨hblobs, hone⟩ := planChunksFrom_blobs _ hmaxLen hchunks
  obtain ⟨-, htiles⟩ := planNilfsFileRangeChunks_tiles hplan
  have hend : opts.rangeStart + min opts.rangeLen (opts.fileSizeBytes - opts.rangeStart) =
      min (opts.rangeStart + opts.rangeLen) opts.fileSizeBytes := by omega
  rw [hend] at htiles
  refine ⟨chunks, hplan, htiles, fun c hc => ?_, fun i c c' hc hc' hmerged => ?_⟩
  · obtain ⟨-, hpos, hhigh⟩ := htiles.mem hc
    have hfetchable : FetchableRange (opts.fileStartOffset + c.rangeStart) c.rangeLen := by
      refine (fetchableRange_iff hpos (by omega)).mpr ⟨(hone c hc).symm, ?_⟩
      -- a blob of the user data is smaller than an encoded one
      have hsame := hone c hc
      simp only [blobAt, blobPayload] at hsame
      omega
    exact ⟨hfetchable, fun seg hoffset hseg => hfetchable.checkOneBlob_ok hpos hoffset hseg⟩
  -- two neighbours are in two blobs, one after the other
  · obtain ⟨-, hpos, -⟩ := htiles.mem (List.mem_of_getElem? hc)
    obtain ⟨-, hpos', hhigh'⟩ := htiles.mem (List.mem_of_getElem? hc')
    have htouch := tiles_neighbours htiles hc hc'
    -- the blob of the second is the next one
    have hnumber : blobAt (opts.fileStartOffset + c'.rangeStart) =
        blobAt (opts.fileStartOffset + c.rangeStart) + 1 := by
      have hfirst := congrArg (fun l => l[i]?) hblobs
      have hsecond := congrArg (fun l => l[i + 1]?) hblobs
      simp only [List.getElem?_map, hc, hc', Option.map_some] at hfirst hsecond
      have hi := (List.getElem?_eq_some_iff.mp hfirst.symm).2
      have hi' := (List.getElem?_eq_some_iff.mp hsecond.symm).2
      rw [List.getElem_range'] at hi hi'
      omega
    have hsame := ((fetchableRange_iff (by omega) (by omega)).mp hmerged).1
    have hlast := hone c' (List.mem_of_getElem? hc')
    have hplace : opts.fileStartOffset + c.rangeStart + (c.rangeLen + c'.rangeLen) - 1 =
        opts.fileStartOffset + c'.rangeStart + c'.rangeLen - 1 := by omega
    rw [hplace, hlast, hnumber] at hsame
    omega

/-- The last byte of the first blob, and the first two of the second. -/
theorem planNilfsFileRangeChunks_fetchable_border :
    ∃ chunks, planNilfsFileRangeChunks ⟨0, 200000, 126975, 3, 8388608, 131072⟩ = .ok chunks ∧
      Tiles FileRangeChunk.rangeStart FileRangeChunk.rangeLen 126975 chunks 126978 := by
  obtain ⟨chunks, hchunks, htiles, -⟩ := planNilfsFileRangeChunks_fetchable
    ⟨0, 200000, 126975, 3, 8388608, 131072⟩ rfl rfl (by decide) (by decide) (by decide)
  exact ⟨chunks, hchunks, htiles⟩

end NilStore.Website
