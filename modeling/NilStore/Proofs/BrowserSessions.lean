import NilStore.Proofs.Downloads
import NilStore.Proofs.PlanCoverage

/-!
# `NilStore.Proofs.BrowserSessions`: the sessions that a download opens

For a file of a slab, `planNilfsFileRangeChunks` has one chunk for each blob of the range
(`planChunksFrom_blobs`), and the gateway plans each of them as one leaf (`BlobChunk`). The page
counts 64 leaves for each MDU, and asks for all leaves from the first to the last of a provider. The
chain counts `(K + M) * (64 / K)` leaves, and admits no session beyond one slot of one MDU.

`sessions_work_iff` says when the sessions are accepted and cover the leaves of their chunks: always
in Mode 1; in Mode 2 when no two blobs of the range are at one provider and in different MDUs, and
every provider is the one of its slot.
-/

set_option autoImplicit false

namespace NilStore.Website

open NilStore.Lib NilStore.Chain
open NilStore.Gateway (blobAt blobPayload leafNumber leafPosition SlabFile SlotStripe FileMeta)

/-! ### The end of a blob -/

/-- The search ends at the first raw offset behind the blob, or at the end of the file. -/
theorem searchBlobBoundary_spec {blobIdx blobSizeBytes lo hi b : Nat} (hlo : lo < hi)
    (hidx : rawOffsetToEncodedBlobIndex lo blobSizeBytes = .ok blobIdx)
    (h : searchBlobBoundary blobIdx blobSizeBytes lo hi = .ok b) :
    lo < b ∧ b ≤ hi ∧ rawOffsetToEncodedBlobIndex (b - 1) blobSizeBytes = .ok blobIdx ∧
      (b = hi ∨ rawOffsetToEncodedBlobIndex b blobSizeBytes ≠ .ok blobIdx) := by
  -- the induction is on the length of the interval that is searched
  induction hmeasure : hi - lo using Nat.strong_induction_on generalizing lo hi with
  | _ d ih =>
      rw [searchBlobBoundary] at h
      split at h
      · obtain ⟨midBlob, hmid, h⟩ := except_bind_ok.mp h
        split at h
        · rename_i hsame
          obtain ⟨hlow, hrest⟩ := ih (hi - (lo + hi) / 2) (by omega) (by omega) (hsame ▸ hmid) h rfl
          exact ⟨by omega, hrest⟩
        · rename_i hother
          obtain ⟨hlow, hhigh, hlast, hend⟩ :=
            ih ((lo + hi) / 2 - lo) (by omega) (by omega) hidx h rfl
          refine ⟨hlow, by omega, hlast, Or.inr ?_⟩
          rcases hend with rfl | hend
          · rw [hmid]
            exact fun heq => hother (Except.ok.inj heq)
          · exact hend
      · have hnext : lo = hi - 1 := by omega
        cases h
        exact ⟨hlo, le_rfl, hnext ▸ hidx, Or.inl rfl⟩

/-- The sizes that the page is given: an MDU of 8 MiB, blobs of 128 KiB. -/
theorem rawOffsetToEncodedBlobIndex_eq (rawOffset : Nat) :
    rawOffsetToEncodedBlobIndex rawOffset 131072 = .ok (blobAt rawOffset) := by
  rw [rawOffsetToEncodedBlobIndex, if_neg (by decide)]
  congr 1
  show (rawOffset + rawOffset / 31 + 1) / 131072 = rawOffset / 126976
  omega

/-- An MDU holds the raw bytes of its 64 blobs. -/
theorem rawMduCapacity_eq : rawMduCapacityFromMduSize 8388608 = 64 * blobPayload := rfl

/-- A chunk ends with its blob, or where the range ends. -/
theorem nextChunkLen_eq {absOffset remaining chunkLen : Nat}
    (h : nextChunkLen (64 * blobPayload) 131072 absOffset remaining = .ok chunkLen) :
    chunkLen = min remaining ((blobAt absOffset + 1) * blobPayload - absOffset) := by
  have hlt : absOffset % (64 * blobPayload) < 64 * blobPayload := Nat.mod_lt _ (by decide)
  rw [nextChunkLen] at h
  -- the boundary is searched for within the MDU
  obtain ⟨boundary, hboundary, h⟩ := except_bind_ok.mp h
  rw [nextBlobBoundaryRawOffsetInMdu] at hboundary
  simp only [ge_iff_le, Nat.not_le.mpr hlt, if_false, rawOffsetToEncodedBlobIndex_eq] at hboundary
  obtain ⟨blobIdx, hidx, hboundary⟩ := except_bind_ok.mp hboundary
  cases hidx
  obtain ⟨b, hsearch, hboundary⟩ := except_bind_ok.mp hboundary
  obtain ⟨hiBlob, hhi, hboundary⟩ := except_bind_ok.mp hboundary
  cases hhi
  obtain ⟨hlow, hhigh, hlast, hend⟩ :=
    searchBlobBoundary_spec hlt (rawOffsetToEncodedBlobIndex_eq _) hsearch
  rw [rawOffsetToEncodedBlobIndex_eq, Except.ok.injEq] at hlast
  rw [rawOffsetToEncodedBlobIndex_eq, ne_eq, Except.ok.injEq] at hend
  -- the end that was found is inside the MDU, or it is the end of the MDU
  have hb : boundary = (blobAt (absOffset % (64 * blobPayload)) + 1) * blobPayload := by
    by_cases hsame : blobAt b = blobAt (absOffset % (64 * blobPayload))
    · rw [if_pos hsame] at hboundary
      cases hboundary
      simp only [blobAt, blobPayload] at hlast hend hhigh hlow hsame ⊢
      omega
    · rw [if_neg hsame] at hboundary
      cases hboundary
      simp only [blobAt, blobPayload] at hlast hend hhigh hlow hsame ⊢
      omega
  have hmin : chunkLen =
      min (min (min remaining (64 * blobPayload - absOffset % (64 * blobPayload)))
      (boundary - absOffset % (64 * blobPayload))) 131072 := (Except.ok.inj h).symm
  rw [hmin, hb]
  simp only [blobAt, blobPayload]
  omega

/-- The chunks are the blobs of the range, one by one. -/
theorem planChunksFrom_blobs {fileStartOffset : Nat} (remaining : Nat) :
    ∀ {cursor : Nat} {chunks : List FileRangeChunk}, 0 < remaining →
      planChunksFrom fileStartOffset (64 * blobPayload) 131072 cursor remaining = .ok chunks →
        chunks.map (fun c => blobAt (fileStartOffset + c.rangeStart)) =
            List.range' (blobAt (fileStartOffset + cursor))
              (blobAt (fileStartOffset + cursor + remaining - 1) -
                blobAt (fileStartOffset + cursor) + 1) ∧
          ∀ c ∈ chunks, blobAt (fileStartOffset + c.rangeStart + c.rangeLen - 1) =
            blobAt (fileStartOffset + c.rangeStart) := by
  -- the induction is on the bytes that are left
  induction remaining using Nat.strong_induction_on with
  | _ remaining ih =>
      intro cursor chunks hpos h
      rw [planChunksFrom, if_pos hpos] at h
      obtain ⟨chunkLen, hlen, h⟩ := except_bind_ok.mp h
      have heq := nextChunkLen_eq hlen
      split at h
      · cases h
      · rename_i hne
        obtain ⟨rest, hrest, h⟩ := except_bind_ok.mp h
        cases h
        -- the chunk ends in the blob in which it starts
        have hsame : blobAt (fileStartOffset + cursor + chunkLen - 1) =
            blobAt (fileStartOffset + cursor) := by
          simp only [blobAt, blobPayload] at heq ⊢
          omega
        by_cases hmore : 0 < remaining - chunkLen
        · -- the next chunk begins with the next blob
          have hnext : blobAt (fileStartOffset + (cursor + chunkLen)) =
              blobAt (fileStartOffset + cursor) + 1 := by
            simp only [blobAt, blobPayload] at heq ⊢
            omega
          obtain ⟨hblobs, hone⟩ := ih (remaining - chunkLen) (by omega) hmore hrest
          have hend : fileStartOffset + (cursor + chunkLen) + (remaining - chunkLen) - 1 =
              fileStartOffset + cursor + remaining - 1 := by omega
          rw [hend, hnext] at hblobs
          have hlater : blobAt (fileStartOffset + cursor) + 1 ≤
              blobAt (fileStartOffset + cursor + remaining - 1) := by
            rw [← hnext]
            exact Nat.div_le_div_right (by omega)
          have hcount : blobAt (fileStartOffset + cursor + remaining - 1) -
              blobAt (fileStartOffset + cursor) + 1 =
                blobAt (fileStartOffset + cursor + remaining - 1) -
                  (blobAt (fileStartOffset + cursor) + 1) + 1 + 1 := by omega
          rw [List.map_cons, hblobs, hcount, List.range'_succ]
          refine ⟨rfl, fun c hc => ?_⟩
          rcases List.mem_cons.mp hc with rfl | hc
          · exact hsame
          · exact hone c hc
        -- the last chunk: it takes all that is left
        · have hall : chunkLen = remaining := by
            have hle := nextChunkLen_le hlen
            omega
          rw [planChunksFrom, if_neg hmore] at hrest
          cases hrest
          rw [← hall, hsame, Nat.sub_self]
          refine ⟨rfl, fun c hc => ?_⟩
          rw [List.mem_singleton.mp hc]
          exact hsame

/-! ### The plan of a blob -/

/-- The chunk of a blob, as the gateway plans it. -/
structure BlobChunk (stripe : StripeParams) (file : FileMeta) (cached : Str)
    (dealProviders : Except String (List Str)) (q : Nat) (c : PlannedChunk) : Prop where
  startMdu : c.startMduIndex = 1 + file.witnessCount.toNat + q / 64
  startBlob : c.startBlobIndex = leafNumber stripe (q % 64)
  blobCount : c.blobCount = 1
  slotProvider : stripe.mode = 2 → ∃ providers listed, dealProviders = .ok providers ∧
    providers[q % 64 % stripe.k.toNat]? = some listed ∧ c.provider = trim (trimSpace listed)
  ownProvider : stripe.mode ≠ 2 → ∃ provider,
    Gateway.planProvider stripe 0 cached dealProviders = .ok provider ∧ c.provider = trim provider

section Plan

variable {stripe : StripeParams} {f : SlabFile} {cached : Str}
  {dealProviders : Except String (List Str)} {env : FetchEnv} {fileRef : FileRef}

/-- A chunk that lies in one blob of the file is planned as the leaf of the blob. The gateway is
asked for the chunk, and its plan of a range that starts and ends in one blob has one leaf. -/
theorem planChunk_blob (hs : stripe = mode1StripeParams ∨ SlotStripe stripe)
    (henv : env.plan = gatewayPlan stripe f.toFileMeta cached dealProviders) {c : FileRangeChunk}
    {p : PlannedChunk} (hpos : 0 < c.rangeLen) (hin : c.rangeStart + c.rangeLen ≤ f.length.toNat)
    (hone : blobAt (f.startOffset.toNat + c.rangeStart + c.rangeLen - 1) =
      blobAt (f.startOffset.toNat + c.rangeStart))
    (h : planChunk env fileRef c = .ok p) :
    BlobChunk stripe f.toFileMeta cached dealProviders
      (blobAt (f.startOffset.toNat + c.rangeStart)) p := by
  -- the plan that the gateway has made
  simp only [planChunk, except_bind_ok, henv, gatewayPlan, mapError_eq_ok] at h
  obtain ⟨planJson, ⟨plan, hplan, hjson⟩, _, -, _, -, _, -, h⟩ := h
  cases hjson
  cases h
  -- the range of the chunk is one of the file, so nothing is clipped
  have hfile := f.length.toNat_lt
  have hstart : (UInt64.ofNat c.rangeStart).toNat = c.rangeStart :=
    UInt64.toNat_ofNat_of_lt' (show c.rangeStart < 2 ^ 64 by omega)
  have hlen : (UInt64.ofNat c.rangeLen).toNat = c.rangeLen :=
    UInt64.toNat_ofNat_of_lt' (show c.rangeLen < 2 ^ 64 by omega)
  have hspec := Gateway.planRange_spec hs hplan
  have hclip : (Gateway.clipRangeLen f.toFileMeta (.ofNat c.rangeStart) (.ofNat c.rangeLen)).toNat =
      c.rangeLen := by
    have hrest : (f.length - UInt64.ofNat c.rangeStart).toNat = f.length.toNat - c.rangeStart := by
      rw [UInt64.toNat_sub_of_le _ _ (UInt64.le_iff_toNat_le.mpr (by omega)), hstart]
    rw [Gateway.clipRangeLen, if_neg, hlen]
    rintro (hzero | hlong)
    · rw [← UInt64.toNat_inj, hlen] at hzero
      exact absurd hzero (by show c.rangeLen ≠ 0; omega)
    · rw [gt_iff_lt, UInt64.lt_iff_toNat_lt, hrest, hlen] at hlong
      omega
  have hfirst : Gateway.firstByte f.toFileMeta (.ofNat c.rangeStart) =
      f.startOffset.toNat + c.rangeStart := by
    rw [Gateway.firstByte, hstart]
  have hlast : Gateway.lastByte f.toFileMeta (.ofNat c.rangeStart) (.ofNat c.rangeLen) =
      f.startOffset.toNat + c.rangeStart + c.rangeLen - 1 := by
    rw [Gateway.lastByte, hfirst, hclip]
  -- the first and the last leaf are the same
  have hcount := hspec.lastLeaf
  rw [hspec.firstLeaf_eq, hlast, hone, hfirst] at hcount
  exact
    { startMdu := by rw [← hfirst]; exact hspec.startMdu
      startBlob := by rw [← hfirst]; exact hspec.startLeaf
      blobCount := by
        show plan.blobCount.toNat = 1
        omega
      slotProvider := by
        intro hmode
        obtain ⟨providers, listed, hproviders, hlisted, hprovider⟩ := hspec.slotProvider hmode
        rw [hfirst] at hlisted
        exact ⟨providers, listed, hproviders, hlisted, congrArg trim hprovider⟩
      ownProvider := by
        intro hmode
        simp only [Gateway.planRange, except_bind_ok] at hplan
        obtain ⟨_, -, _, -, ⟨slot, ends⟩, -, _, -, provider, hprovider, hplan⟩ := hplan
        cases hplan
        refine ⟨provider, ?_, rfl⟩
        rw [Gateway.planProvider, if_neg hmode] at hprovider ⊢
        exact hprovider }

end Plan

/-- The layout of a file of a slab, as the page is told. -/
structure FetchInput.Of (input : FetchInput) (file : FileMeta) : Prop where
  fileStartOffset : input.fileStartOffset = some file.startOffset.toNat
  fileSizeBytes : input.fileSizeBytes = some file.length.toNat
  mduSizeBytes : input.mduSizeBytes = some 8388608
  blobSizeBytes : input.blobSizeBytes = some 131072

/-- The first blob of a download. -/
def firstBlob (file : FileMeta) (plan : DownloadPlan) : Nat :=
  blobAt (file.startOffset.toNat + plan.rangeStart)

/-- Its last blob, after the range is cut off at the end of the file. -/
def lastBlob (file : FileMeta) (plan : DownloadPlan) : Nat :=
  blobAt (file.startOffset.toNat + plan.rangeStart +
    min plan.rangeLen (file.length.toNat - plan.rangeStart) - 1)

/-- The planned chunks are the blobs of the range. -/
structure BlobPlan (stripe : StripeParams) (f : SlabFile) (cached : Str)
    (dealProviders : Except String (List Str)) (plan : DownloadPlan) : Prop where
  leafCount : plan.leafCount = 64
  ordered : firstBlob f.toFileMeta plan ≤ lastBlob f.toFileMeta plan
  inSlab : lastBlob f.toFileMeta plan / 64 < f.userMdus
  blobOf : ∀ c ∈ plan.plannedChunks, ∃ q, firstBlob f.toFileMeta plan ≤ q ∧
    q ≤ lastBlob f.toFileMeta plan ∧ BlobChunk stripe f.toFileMeta cached dealProviders q c
  chunkOf : ∀ q, firstBlob f.toFileMeta plan ≤ q → q ≤ lastBlob f.toFileMeta plan →
    ∃ c ∈ plan.plannedChunks, BlobChunk stripe f.toFileMeta cached dealProviders q c

/-- The chunks of a range of a slab's file. -/
theorem chunks_of_slab {file : FileMeta} {input : FetchInput} (hinput : input.Of file)
    {rangeLen : Nat} {chunks : List FileRangeChunk} (h : input.chunks rangeLen = .ok chunks) :
    input.wantRangeStart < file.length.toNat ∧ rangeLen ≠ 0 ∧
      planChunksFrom file.startOffset.toNat (64 * blobPayload) 131072 input.wantRangeStart
        (min rangeLen (file.length.toNat - input.wantRangeStart)) = .ok chunks := by
  rw [FetchInput.chunks, hinput.fileStartOffset, hinput.fileSizeBytes, hinput.mduSizeBytes,
    hinput.blobSizeBytes] at h
  simp only [planNilfsFileRangeChunks, except_bind_ok, rejectIf_eq_ok] at h
  obtain ⟨_, -, _, hlen, _, hstart, _, -, hchunks⟩ := h
  rw [← rawMduCapacity_eq]
  exact ⟨Nat.lt_of_not_le hstart, hlen, hchunks⟩

/-- A plan that was made follows the blobs of the file, for both kinds of stripe. -/
theorem planDownload_blobs {stripe : StripeParams} {f : SlabFile} {cached : Str}
    {dealProviders : Except String (List Str)} {env : FetchEnv} {input : FetchInput}
    {plan : DownloadPlan} (hs : stripe = mode1StripeParams ∨ SlotStripe stripe)
    (henv : env.plan = gatewayPlan stripe f.toFileMeta cached dealProviders)
    (hinput : input.Of f.toFileMeta) (h : planDownload env input = .ok plan) :
    BlobPlan stripe f cached dealProviders plan := by
  simp only [planDownload, except_bind_ok] at h
  obtain ⟨fileRef, -, rangeLen, -, chunks, hchunks, plannedChunks, hplanned, h⟩ := h
  cases h
  obtain ⟨hstart, hlen, hchunks⟩ := chunks_of_slab hinput hchunks
  have htiles := planChunksFrom_tiles _ hchunks
  have hrange : 0 < min rangeLen (f.length.toNat - input.wantRangeStart) := by omega
  obtain ⟨hblobs, hone⟩ := planChunksFrom_blobs _ hrange hchunks
  -- each chunk has a plan, and each plan belongs to a chunk
  have hplanned := mem_of_mapM_eq_ok hplanned
  have hblob : ∀ c p, c ∈ chunks → planChunk env fileRef c = .ok p →
      BlobChunk stripe f.toFileMeta cached dealProviders
        (blobAt (f.startOffset.toNat + c.rangeStart)) p := by
    intro c p hc hp
    obtain ⟨-, hpos, hend⟩ := htiles.mem hc
    exact planChunk_blob hs henv hpos (by omega) (hone c hc) hp
  have hle : blobAt (f.startOffset.toNat + input.wantRangeStart) ≤
      blobAt (f.startOffset.toNat + input.wantRangeStart +
        min rangeLen (f.length.toNat - input.wantRangeStart) - 1) := Nat.div_le_div_right (by omega)
  -- the blobs of the chunks are those of the range
  have hmem : ∀ q, q ∈ chunks.map (fun c => blobAt (f.startOffset.toNat + c.rangeStart)) ↔
      blobAt (f.startOffset.toNat + input.wantRangeStart) ≤ q ∧
        q ≤ blobAt (f.startOffset.toNat + input.wantRangeStart +
          min rangeLen (f.length.toNat - input.wantRangeStart) - 1) := by
    intro q
    rw [hblobs, List.mem_range'_1]
    omega
  have hlast : blobAt (f.startOffset.toNat + input.wantRangeStart +
      min rangeLen (f.length.toNat - input.wantRangeStart) - 1) / 64 < f.userMdus :=
    f.blobAt_lt (by omega)
  have hsizes : input.mduSize = 8388608 ∧ input.blobSize = 131072 := by
    simp [FetchInput.mduSize, FetchInput.blobSize, hinput.mduSizeBytes, hinput.blobSizeBytes]
  refine ⟨?_, hle, hlast, ?_, ?_⟩
  · show max 1 (input.mduSize / input.blobSize) = 64
    rw [hsizes.1, hsizes.2]
    decide
  -- a planned chunk is a blob of the range, and each blob has one
  · intro p hp
    obtain ⟨c, hc, hcp⟩ := hplanned.1 p hp
    obtain ⟨hlow, hhigh⟩ := (hmem _).mp (List.mem_map_of_mem hc)
    exact ⟨_, hlow, hhigh, hblob c p hc hcp⟩
  · intro q hlow hhigh
    obtain ⟨c, hc, rfl⟩ := List.mem_map.mp ((hmem q).mpr ⟨hlow, hhigh⟩)
    obtain ⟨p, hp, hcp⟩ := hplanned.2 c hc
    exact ⟨p, hp, hblob c p hc hcp⟩

/-! ### The leaves of a group -/

/-- The place of a chunk among the leaves of all MDUs, when an MDU has `leafCount` leaves. -/
def PlannedChunk.firstLeaf (leafCount : Nat) (c : PlannedChunk) : Nat :=
  c.startMduIndex * leafCount + c.startBlobIndex

/-- A group spans from its first to its last leaf. -/
theorem collect_hull {leafCount : Nat} {l : List PlannedChunk} (hone : ∀ c ∈ l, c.blobCount = 1)
    {g : ProviderGroup} (h : collect (addToGroup leafCount) l = some g) :
    (∃ a ∈ l, g.globalStart = a.firstLeaf leafCount) ∧
      (∃ b ∈ l, g.globalEnd = b.firstLeaf leafCount) ∧
      ∀ c ∈ l, g.globalStart ≤ c.firstLeaf leafCount ∧ c.firstLeaf leafCount ≤ g.globalEnd := by
  -- the induction is on the chunks of the group, from its end
  induction l using List.reverseRecOn generalizing g with
  | nil => cases h
  | append_singleton l chunk ih =>
      have hchunk : chunk.blobCount = 1 := hone chunk (by simp)
      have hends : chunk.startMduIndex * leafCount + chunk.startBlobIndex + chunk.blobCount - 1 =
          chunk.firstLeaf leafCount := by
        rw [hchunk, PlannedChunk.firstLeaf]
        rfl
      rw [collect_concat] at h
      have h := (Option.some.inj h).symm
      cases hold : collect (addToGroup leafCount) l with
      | none =>
          have hnil : l = [] := by
            cases l using List.reverseRecOn with
            | nil => rfl
            | append_singleton l last =>
                rw [collect_concat] at hold
                cases hold
          rw [hold, addToGroup] at h
          rw [h, hnil]
          refine ⟨⟨chunk, by simp, rfl⟩, ⟨chunk, by simp, hends⟩, fun c hc => ?_⟩
          have hc : c = chunk := by simpa using hc
          rw [hc]
          exact ⟨le_rfl, hends.ge⟩
      -- one more chunk: the ends move to it, if it is outside
      | some old =>
          obtain ⟨⟨a, ha, hstart⟩, ⟨b, hb, hend⟩, hall⟩ :=
            ih (fun c hc => hone c (List.mem_append_left _ hc)) hold
          rw [hold, addToGroup] at h
          simp only [hends] at h
          rw [h]
          refine ⟨?_, ?_, fun c hc => ?_⟩
          -- the start is that of the chunk, or of one before it; and the end likewise
          · show ∃ a ∈ l ++ [chunk], (if chunk.firstLeaf leafCount < old.globalStart then
              chunk.firstLeaf leafCount else old.globalStart) = a.firstLeaf leafCount
            split
            · exact ⟨chunk, by simp, rfl⟩
            · exact ⟨a, List.mem_append_left _ ha, hstart⟩
          · show ∃ b ∈ l ++ [chunk], (if chunk.firstLeaf leafCount > old.globalEnd then
              chunk.firstLeaf leafCount else old.globalEnd) = b.firstLeaf leafCount
            split
            · exact ⟨chunk, by simp, rfl⟩
            · exact ⟨b, List.mem_append_left _ hb, hend⟩
          · show (if chunk.firstLeaf leafCount < old.globalStart then
              chunk.firstLeaf leafCount else old.globalStart) ≤ c.firstLeaf leafCount ∧
                c.firstLeaf leafCount ≤ (if chunk.firstLeaf leafCount > old.globalEnd then
                  chunk.firstLeaf leafCount else old.globalEnd)
            rcases List.mem_append.mp hc with hc | hc
            · obtain ⟨hlow, hhigh⟩ := hall c hc
              constructor <;> split <;> omega
            · rw [List.mem_singleton.mp hc]
              constructor <;> split <;> omega

/-- A group has the chunks of its provider. -/
theorem mem_providerGroups {leafCount : Nat} {plannedChunks : List PlannedChunk} {g : ProviderGroup}
    (h : g ∈ providerGroups leafCount plannedChunks) :
    collect (addToGroup leafCount) (plannedChunks.filter (·.provider = g.provider)) = some g ∧
      g.chunks = plannedChunks.filter (·.provider = g.provider) := by
  obtain ⟨⟨provider, g⟩, hg, rfl⟩ := List.mem_map.mp h
  obtain ⟨-, -, hvalue⟩ := groupOn_spec PlannedChunk.provider (addToGroup leafCount) plannedChunks
  have hcollect := hvalue provider g hg
  obtain ⟨hchunks, c, hc, hprovider⟩ := collect_addToGroup leafCount _ hcollect
  have hkey : g.provider = provider := hprovider.trans (of_decide_eq_true (List.mem_filter.mp hc).2)
  rw [hkey]
  exact ⟨hcollect, hchunks⟩

/-- Every chunk has a group. -/
theorem exists_group {leafCount : Nat} {plannedChunks : List PlannedChunk} {c : PlannedChunk}
    (hc : c ∈ plannedChunks) :
    ∃ g ∈ providerGroups leafCount plannedChunks, g.provider = c.provider ∧ c ∈ g.chunks := by
  obtain ⟨-, -, hvalue⟩ := groupOn_spec PlannedChunk.provider (addToGroup leafCount) plannedChunks
  have hmem := (mem_keys_groupOn PlannedChunk.provider (addToGroup leafCount) plannedChunks).mpr
    (List.mem_map_of_mem hc)
  obtain ⟨⟨provider, g⟩, hg, hprovider⟩ := List.mem_map.mp hmem
  have hprovider : provider = c.provider := hprovider
  obtain ⟨hchunks, first, hfirst, hgp⟩ := collect_addToGroup leafCount _ (hvalue provider g hg)
  refine ⟨g, List.mem_map.mpr ⟨(provider, g), hg, rfl⟩, ?_, ?_⟩
  · rw [hgp, ← hprovider]
    exact of_decide_eq_true (List.mem_filter.mp hfirst).2
  · rw [hchunks, hprovider]
    exact List.mem_filter.mpr ⟨hc, by simp⟩

/-! ### What a session has to do -/

/-- The message with which the precompile opens a session. -/
structure Asks (request : OpenRequest) (msg : MsgOpenRetrievalSession) : Prop where
  provider : msg.provider = request.provider
  startMduIndex : msg.startMduIndex = .ofNat request.startMduIndex
  startBlobIndex : msg.startBlobIndex = .ofNat request.startBlobIndex
  blobCount : msg.blobCount = .ofNat request.blobCount

/-- The first leaf of a session, as the chain counts. -/
def OpenRequest.firstLeaf (leafCount : Nat) (request : OpenRequest) : Nat :=
  request.startMduIndex * leafCount + request.startBlobIndex

/-- The range and slot checks accept the session of a group, and its leaves are those of the chunks
that are fetched under it. -/
structure SessionWorks (deal : Deal) (stripe : StripeParams) (group : ProviderGroup)
    (request : OpenRequest) : Prop where
  accepted : ∀ msg, Asks request msg → checkBlobRange deal stripe msg = .ok ()
  leaves : ∀ leaf, (request.firstLeaf stripe.leafCount.toNat ≤ leaf ∧
      leaf < request.firstLeaf stripe.leafCount.toNat + request.blobCount) ↔
    ∃ c ∈ group.chunks, c.firstLeaf stripe.leafCount.toNat ≤ leaf ∧
      leaf < c.firstLeaf stripe.leafCount.toNat + c.blobCount

/-- Every session of a download does. -/
def SessionsWork (deal : Deal) (stripe : StripeParams) (openBaseNonce : Nat) (plan : DownloadPlan) :
    Prop :=
  ∀ (i : Nat) group request, (providerGroups plan.leafCount plan.plannedChunks)[i]? = some group →
    (openRequests openBaseNonce plan.leafCount plan.file
      (providerGroups plan.leafCount plan.plannedChunks))[i]? = some request →
    SessionWorks deal stripe group request

/-- The downloads whose sessions work: in Mode 1 all. In Mode 2 the range is in one MDU, or has at
most `K` blobs, and every provider that is listed for a slot of the range is at this slot, which the
chain can reach with its `uint32`. -/
def Sessionable (deal : Deal) (stripe : StripeParams) (file : FileMeta)
    (dealProviders : Except String (List Str)) (plan : DownloadPlan) : Prop :=
  stripe.mode = 2 →
    (firstBlob file plan / 64 = lastBlob file plan / 64 ∨
      lastBlob file plan < firstBlob file plan + stripe.k.toNat) ∧
    ∀ q, firstBlob file plan ≤ q → q ≤ lastBlob file plan →
      leafNumber stripe (q % 64) < stripe.leafCount.toUInt32.toNat ∧
      ∀ providers listed, dealProviders = .ok providers →
        providers[q % 64 % stripe.k.toNat]? = some listed →
        ∃ slot, providerSlotIndex deal (trim (trimSpace listed)) = some slot ∧
          slot.toNat = q % 64 % stripe.k.toNat

/-! ### The range of a group -/

/-- The place of a blob's leaf, as the page counts. -/
def clientPosition (stripe : StripeParams) (file : FileMeta) (q : Nat) : Nat :=
  (1 + file.witnessCount.toNat + q / 64) * 64 + leafNumber stripe (q % 64)

/-- A blob of the range whose chunk is in a group. -/
def GroupBlob (stripe : StripeParams) (f : SlabFile) (cached : Str)
    (dealProviders : Except String (List Str)) (plan : DownloadPlan) (g : ProviderGroup)
    (q : Nat) : Prop :=
  firstBlob f.toFileMeta plan ≤ q ∧ q ≤ lastBlob f.toFileMeta plan ∧
    ∃ c ∈ g.chunks, BlobChunk stripe f.toFileMeta cached dealProviders q c

/-- The blobs with the first and with the last leaf of a group. -/
structure GroupSpan (stripe : StripeParams) (f : SlabFile) (cached : Str)
    (dealProviders : Except String (List Str)) (plan : DownloadPlan) (g : ProviderGroup)
    (qa qb : Nat) : Prop where
  blobA : GroupBlob stripe f cached dealProviders plan g qa
  blobB : GroupBlob stripe f cached dealProviders plan g qb
  globalStart : g.globalStart = clientPosition stripe f.toFileMeta qa
  globalEnd : g.globalEnd = clientPosition stripe f.toFileMeta qb
  between : ∀ q, GroupBlob stripe f cached dealProviders plan g q →
    clientPosition stripe f.toFileMeta qa ≤ clientPosition stripe f.toFileMeta q ∧
      clientPosition stripe f.toFileMeta q ≤ clientPosition stripe f.toFileMeta qb

section Groups

variable {stripe : StripeParams} {f : SlabFile} {cached : Str}
  {dealProviders : Except String (List Str)} {plan : DownloadPlan} {deal : Deal}

/-- The browser numbers the leaves of an MDU in the order of the blobs. -/
theorem BlobChunk.clientPosition {q : Nat} {c : PlannedChunk}
    (h : BlobChunk stripe f.toFileMeta cached dealProviders q c) :
    c.firstLeaf 64 = clientPosition stripe f.toFileMeta q := by
  rw [PlannedChunk.firstLeaf, h.startMdu, h.startBlob, Website.clientPosition]

/-- The chain numbers the leaves of an MDU in the order of the slots. -/
theorem BlobChunk.leafPosition {q : Nat} {c : PlannedChunk}
    (h : BlobChunk stripe f.toFileMeta cached dealProviders q c) :
    c.firstLeaf stripe.leafCount.toNat = leafPosition stripe f.toFileMeta q := by
  rw [PlannedChunk.firstLeaf, h.startMdu, h.startBlob, Gateway.leafPosition]

/-- The leaves of a group lie between those of two of its blobs, where its session starts and
ends. -/
theorem exists_groupSpan (hp : BlobPlan stripe f cached dealProviders plan) {g : ProviderGroup}
    (hg : g ∈ providerGroups plan.leafCount plan.plannedChunks) :
    ∃ qa qb, GroupSpan stripe f cached dealProviders plan g qa qb := by
  rw [hp.leafCount] at hg
  obtain ⟨hcollect, hchunks⟩ := mem_providerGroups hg
  rw [← hchunks] at hcollect
  -- the chunks of a group are planned chunks, so each is a blob of the file
  have hplanned : ∀ c ∈ g.chunks, c ∈ plan.plannedChunks := by
    intro c hc
    rw [hchunks] at hc
    exact List.mem_of_mem_filter hc
  have hone : ∀ c ∈ g.chunks, c.blobCount = 1 := by
    intro c hc
    obtain ⟨q, -, -, hq⟩ := hp.blobOf c (hplanned c hc)
    exact hq.blobCount
  obtain ⟨⟨a, ha, hstart⟩, ⟨b, hb, hend⟩, hall⟩ := collect_hull hone hcollect
  obtain ⟨qa, hlowA, hhighA, hqa⟩ := hp.blobOf a (hplanned a ha)
  obtain ⟨qb, hlowB, hhighB, hqb⟩ := hp.blobOf b (hplanned b hb)
  rw [hqa.clientPosition] at hstart
  rw [hqb.clientPosition] at hend
  refine ⟨qa, qb, ⟨hlowA, hhighA, a, ha, hqa⟩, ⟨hlowB, hhighB, b, hb, hqb⟩, hstart, hend, ?_⟩
  rintro q ⟨-, -, c, hc, hq⟩
  rw [← hstart, ← hend, ← hq.clientPosition]
  exact hall c hc

/-- The leaves of the chunks of a group. -/
theorem group_leaves (hp : BlobPlan stripe f cached dealProviders plan) {g : ProviderGroup}
    (hg : g ∈ providerGroups plan.leafCount plan.plannedChunks) (leaf : Nat) :
    (∃ c ∈ g.chunks, c.firstLeaf stripe.leafCount.toNat ≤ leaf ∧
      leaf < c.firstLeaf stripe.leafCount.toNat + c.blobCount) ↔
    ∃ q, GroupBlob stripe f cached dealProviders plan g q ∧
      leaf = leafPosition stripe f.toFileMeta q := by
  rw [hp.leafCount] at hg
  obtain ⟨-, hchunks⟩ := mem_providerGroups hg
  -- a leaf of a chunk is the leaf of its blob, since a chunk has one
  constructor
  · rintro ⟨c, hc, hlow, hhigh⟩
    have hplanned : c ∈ plan.plannedChunks := by
      rw [hchunks] at hc
      exact List.mem_of_mem_filter hc
    obtain ⟨q, hfirst, hlast, hq⟩ := hp.blobOf c hplanned
    rw [hq.leafPosition] at hlow hhigh
    rw [hq.blobCount] at hhigh
    exact ⟨q, ⟨hfirst, hlast, c, hc, hq⟩, by omega⟩
  · rintro ⟨q, ⟨-, -, c, hc, hq⟩, rfl⟩
    refine ⟨c, hc, ?_, ?_⟩
    · rw [hq.leafPosition]
    · rw [hq.leafPosition, hq.blobCount]
      exact Nat.lt_succ_self _

/-- What the page asks for a group. -/
theorem GroupSpan.request {g : ProviderGroup} {qa qb : Nat}
    (hs : stripe = mode1StripeParams ∨ SlotStripe stripe)
    (hspan : GroupSpan stripe f cached dealProviders plan g qa qb) (openBaseNonce index : Nat) :
    (openRequest openBaseNonce 64 plan.file g index).startMduIndex =
        1 + f.witnessCount.toNat + qa / 64 ∧
      (openRequest openBaseNonce 64 plan.file g index).startBlobIndex =
        leafNumber stripe (qa % 64) ∧
      (openRequest openBaseNonce 64 plan.file g index).blobCount =
        clientPosition stripe f.toFileMeta qb - clientPosition stripe f.toFileMeta qa + 1 := by
  have hleaf := Gateway.leafNumber_lt hs (Nat.mod_lt qa (show 64 > 0 by decide))
  refine ⟨?_, ?_, ?_⟩
  · show g.globalStart / 64 = _
    rw [hspan.globalStart, clientPosition]
    omega
  · show g.globalStart % 64 = _
    rw [hspan.globalStart, clientPosition]
    omega
  · show g.globalEnd - g.globalStart + 1 = _
    rw [hspan.globalStart, hspan.globalEnd]

/-- What the checks ask of a session that begins at a leaf of an MDU and goes on for `count`
leaves. -/
def Accepts (deal : Deal) (stripe : StripeParams) (provider : Str) (mdu leaf count : Nat) : Prop :=
  leaf < stripe.leafCount.toUInt32.toNat ∧
    (stripe.mode = 2 → leaf + count < stripe.leafCount.toNat ∧
      leaf / stripe.rows.toNat = (leaf + count) / stripe.rows.toNat ∧
      ∃ slot, providerSlotIndex deal provider = some slot ∧ slot.toNat = leaf / stripe.rows.toNat) ∧
    (deal.totalMdus ≠ 0 → mdu < deal.totalMdus.toNat ∧
      UInt64.ofNat (mdu * stripe.leafCount.toNat + leaf + count + 1) ≤
        deal.totalMdus * stripe.leafCount)

/-- The chain's check of a range in blobs, as a condition on the request. The sizes rule out a
wrap. -/
theorem checkBlobRange_iff_accepts (hs : stripe = mode1StripeParams ∨ SlotStripe stripe)
    {request : OpenRequest} {mdu leaf count : Nat} (hmdu : request.startMduIndex = mdu)
    (hleaf : request.startBlobIndex = leaf) (hcount : request.blobCount = count + 1)
    (hmduLt : mdu ≤ 65536) (hleafLt : leaf < 64) (hcountLt : count < 2 ^ 32)
    {msg : MsgOpenRetrievalSession} (hmsg : Asks request msg) :
    checkBlobRange deal stripe msg = .ok () ↔
      Accepts deal stripe request.provider mdu leaf count := by
  have hmduNat : msg.startMduIndex.toNat = mdu := by
    rw [hmsg.startMduIndex, hmdu]
    exact UInt64.toNat_ofNat_of_lt' (show mdu < 2 ^ 64 by omega)
  have hleafNat : msg.startBlobIndex.toNat = leaf := by
    rw [hmsg.startBlobIndex, hleaf]
    exact UInt32.toNat_ofNat_of_lt' (show leaf < 2 ^ 32 by omega)
  have hcountNat : msg.blobCount.toNat = count + 1 := by
    rw [hmsg.blobCount, hcount]
    exact UInt64.toNat_ofNat_of_lt' (show count + 1 < 2 ^ 64 by omega)
  -- nothing wraps around
  have hsmall := Gateway.leafPosition_lt hs hmduLt hleafLt
  have hglobal : (msg.startMduIndex * stripe.leafCount + msg.startBlobIndex.toUInt64).toNat =
      mdu * stripe.leafCount.toNat + leaf := by
    rw [UInt64.toNat_add, UInt64.toNat_mul, UInt32.toNat_toUInt64, hmduNat, hleafNat,
      Nat.mod_eq_of_lt (show mdu * stripe.leafCount.toNat < 2 ^ 64 by omega),
      Nat.mod_eq_of_lt (by omega)]
  have hend : msg.startMduIndex * stripe.leafCount + msg.startBlobIndex.toUInt64 + msg.blobCount =
      UInt64.ofNat (mdu * stripe.leafCount.toNat + leaf + count + 1) := by
    rw [← UInt64.toNat_inj, UInt64.toNat_add, hglobal, hcountNat, UInt64.toNat_ofNat']
    rfl
  have hover : mdu * stripe.leafCount.toNat + leaf + (count + 1) < 2 ^ 64 := by omega
  have hslots : (stripe.mode = 2 → checkSlotRange deal stripe msg = .ok ()) ↔
      (stripe.mode = 2 → leaf + count < stripe.leafCount.toNat ∧
        leaf / stripe.rows.toNat = (leaf + count) / stripe.rows.toNat ∧
        ∃ slot, providerSlotIndex deal request.provider = some slot ∧
          slot.toNat = leaf / stripe.rows.toNat) := by
    refine forall_congr' fun hmode => ?_
    have hslot : SlotStripe stripe := hs.resolve_left fun h => by
      rw [h] at hmode
      exact absurd hmode (by decide)
    have hsum : msg.startBlobIndex.toNat + msg.blobCount.toNat = leaf + count + 1 := by
      rw [hleafNat, hcountNat]
      rfl
    rw [Gateway.checkSlotRange_iff hslot (by omega) hsum, hleafNat, hmsg.provider]
  rw [Gateway.checkBlobRange_iff, UInt32.lt_iff_toNat_lt, hleafNat, hglobal, hcountNat, hend,
    UInt64.lt_iff_toNat_lt, hmduNat, hslots]
  -- the bound on the sum always holds, and is left out
  exact ⟨fun ⟨h₁, _, h₂, h₃⟩ => ⟨h₁, h₂, h₃⟩, fun ⟨h₁, h₂, h₃⟩ => ⟨h₁, hover, h₂, h₃⟩⟩

/-- The message of a request. -/
theorem exists_asks (request : OpenRequest) : ∃ msg, Asks request msg :=
  ⟨⟨[], 0, request.provider, [], .ofNat request.startMduIndex, .ofNat request.startBlobIndex,
    .ofNat request.blobCount, 0, 0⟩, rfl, rfl, rfl, rfl⟩

/-! ### Leaves and rows -/

/-- The blob of a leaf. -/
theorem leafNumber_row (hs : SlotStripe stripe) {leaf : Nat} (hleaf : leaf < 64) :
    leaf % stripe.rows.toNat * stripe.k.toNat + leaf / stripe.rows.toNat < 64 ∧
      leafNumber stripe (leaf % stripe.rows.toNat * stripe.k.toNat + leaf / stripe.rows.toNat) =
        leaf := by
  have hslot : leaf / stripe.rows.toNat < stripe.k.toNat := by
    rw [Nat.div_lt_iff_lt_mul hs.rows_pos, hs.size]
    exact hleaf
  have hrow : leaf % stripe.rows.toNat < stripe.rows.toNat := Nat.mod_lt _ hs.rows_pos
  constructor
  · calc leaf % stripe.rows.toNat * stripe.k.toNat + leaf / stripe.rows.toNat
        < leaf % stripe.rows.toNat * stripe.k.toNat + stripe.k.toNat := by omega
      _ = (leaf % stripe.rows.toNat + 1) * stripe.k.toNat := (Nat.succ_mul _ _).symm
      _ ≤ stripe.rows.toNat * stripe.k.toNat := Nat.mul_le_mul_right _ hrow
      _ = 64 := by rw [Nat.mul_comm, hs.size]
  · rw [hs.leafNumber_eq, Nat.mul_add_mod_of_lt hslot, Nat.mul_comm _ stripe.k.toNat,
      Nat.mul_add_div hs.k_pos, Nat.div_eq_of_lt hslot, Nat.add_zero]
    exact Nat.div_add_mod' leaf stripe.rows.toNat

/-- Columns are counted through all MDUs: `K` divides 64. -/
theorem column_eq (hs : SlotStripe stripe) (q : Nat) :
    q % 64 % stripe.k.toNat = q % stripe.k.toNat :=
  Nat.mod_mod_of_dvd q ⟨stripe.rows.toNat, hs.size.symm⟩

/-- Two blobs of a column that are less than a row apart are one. -/
theorem eq_of_column {k q q' : Nat} (hcolumn : q % k = q' % k) (hle : q ≤ q') (hlt : q' < q + k) :
    q = q' := by
  have hdvd : k ∣ q' - q := (Nat.modEq_iff_dvd' hle).mp hcolumn
  have hzero : q' - q = 0 := Nat.eq_zero_of_dvd_of_lt hdvd (by omega)
  omega

/-- The leaves of a column of an MDU, from one blob to another, are those of the blobs between. The
blobs are numbered row by row and the leaves slot by slot, so this needs that both ends are in one
column. -/
theorem exists_blob_of_leaf (hs : SlotStripe stripe) {a b leaf : Nat} (ha : a < 64) (hb : b < 64)
    (hcolumn : a % stripe.k.toNat = b % stripe.k.toNat) (hlow : leafNumber stripe a ≤ leaf)
    (hhigh : leaf ≤ leafNumber stripe b) :
    ∃ blob < 64, a ≤ blob ∧ blob ≤ b ∧ blob % stripe.k.toNat = a % stripe.k.toNat ∧
      leafNumber stripe blob = leaf := by
  have hleaf : leaf < 64 := hhigh.trans_lt (hs.leafNumber_lt hb)
  obtain ⟨hlt, hnumber⟩ := leafNumber_row hs hleaf
  -- the leaf is in the slot of that column
  have hslot : leaf / stripe.rows.toNat = a % stripe.k.toNat := by
    refine le_antisymm ?_ ?_
    · rw [hcolumn, ← hs.leafNumber_div hb]
      exact Nat.div_le_div_right hhigh
    · rw [← hs.leafNumber_div ha]
      exact Nat.div_le_div_right hlow
  have hcol : a % stripe.k.toNat < stripe.k.toNat := Nat.mod_lt _ hs.k_pos
  -- within a slot the leaves are in the order of the rows
  have hleafRow := Nat.div_add_mod leaf stripe.rows.toNat
  have haRow := hs.leafNumber_eq a
  have hbRow := hs.leafNumber_eq b
  rw [hslot, Nat.mul_comm] at hleafRow
  rw [← hcolumn] at hbRow
  have hrowLow : a / stripe.k.toNat ≤ leaf % stripe.rows.toNat := by omega
  have hrowHigh : leaf % stripe.rows.toNat ≤ b / stripe.k.toNat := by omega
  refine ⟨_, hlt, ?_, ?_, ?_, hnumber⟩
  · rw [hslot]
    calc a = a / stripe.k.toNat * stripe.k.toNat + a % stripe.k.toNat := (Nat.div_add_mod' a _).symm
      _ ≤ leaf % stripe.rows.toNat * stripe.k.toNat + a % stripe.k.toNat :=
        Nat.add_le_add_right (Nat.mul_le_mul_right _ hrowLow) _
  · rw [hslot, hcolumn]
    calc leaf % stripe.rows.toNat * stripe.k.toNat + b % stripe.k.toNat
        ≤ b / stripe.k.toNat * stripe.k.toNat + b % stripe.k.toNat :=
          Nat.add_le_add_right (Nat.mul_le_mul_right _ hrowHigh) _
      _ = b := Nat.div_add_mod' b _
  · rw [hslot]
    exact Nat.mul_add_mod_of_lt hcol

/-! ### Providers -/

/-- Blobs of a column are planned at one provider. -/
theorem provider_eq_of_column (hmode : stripe.mode = 2) {q q' : Nat} {c c' : PlannedChunk}
    (hq : BlobChunk stripe f.toFileMeta cached dealProviders q c)
    (hq' : BlobChunk stripe f.toFileMeta cached dealProviders q' c')
    (hcolumn : q % 64 % stripe.k.toNat = q' % 64 % stripe.k.toNat) : c.provider = c'.provider := by
  obtain ⟨providers, listed, hproviders, hlisted, hprovider⟩ := hq.slotProvider hmode
  obtain ⟨providers', listed', hproviders', hlisted', hprovider'⟩ := hq'.slotProvider hmode
  rw [hproviders] at hproviders'
  cases hproviders'
  rw [hcolumn, hlisted'] at hlisted
  cases hlisted
  rw [hprovider, hprovider']

/-- In Mode 1 all blobs are. -/
theorem provider_eq_of_mode1 (hmode : stripe.mode ≠ 2) {q q' : Nat} {c c' : PlannedChunk}
    (hq : BlobChunk stripe f.toFileMeta cached dealProviders q c)
    (hq' : BlobChunk stripe f.toFileMeta cached dealProviders q' c') :
      c.provider = c'.provider := by
  obtain ⟨provider, hprovider, hc⟩ := hq.ownProvider hmode
  obtain ⟨provider', hprovider', hc'⟩ := hq'.ownProvider hmode
  rw [hprovider] at hprovider'
  cases hprovider'
  rw [hc, hc']

/-- A group holds exactly the chunks of its provider. -/
theorem mem_group_iff (hp : BlobPlan stripe f cached dealProviders plan) {g : ProviderGroup}
    (hg : g ∈ providerGroups plan.leafCount plan.plannedChunks) {c : PlannedChunk} :
    c ∈ g.chunks ↔ c ∈ plan.plannedChunks ∧ c.provider = g.provider := by
  rw [hp.leafCount] at hg
  rw [(mem_providerGroups hg).2, List.mem_filter, decide_eq_true_eq]

/-- The content check: the session ends within the slab. -/
theorem content_ok (hs : stripe = mode1StripeParams ∨ SlotStripe stripe)
    (hcontent : deal.totalMdus = 0 ∨
      deal.totalMdus.toNat = 1 + f.witnessCount.toNat + f.userMdus) {mdu leaves : Nat}
    (hmdu : mdu < 1 + f.witnessCount.toNat + f.userMdus)
    (hleaves : leaves ≤ (1 + f.witnessCount.toNat + f.userMdus) * stripe.leafCount.toNat) :
    deal.totalMdus ≠ 0 → mdu < deal.totalMdus.toNat ∧
      UInt64.ofNat leaves ≤ deal.totalMdus * stripe.leafCount := by
  intro hne
  have htotal := hcontent.resolve_left hne
  have htable := f.inTable
  have hmax : (1 + f.witnessCount.toNat + f.userMdus) * stripe.leafCount.toNat ≤ 65537 * 2 ^ 40 :=
    Nat.mul_le_mul (by omega) (Gateway.leafCount_lt hs).le
  refine ⟨htotal ▸ hmdu, ?_⟩
  rw [UInt64.le_iff_toNat_le, UInt64.toNat_mul, htotal, UInt64.toNat_ofNat',
    Nat.mod_eq_of_lt (by omega), Nat.mod_eq_of_lt (by omega)]
  exact hleaves

/-! ### When a session works -/

/-- The session of a group in the terms of its first and last blob. The chain sees only the first
leaf and the count; whether these are the leaves of the chunks depends on what lies between. -/
theorem sessionWorks_iff (hs : stripe = mode1StripeParams ∨ SlotStripe stripe)
    (hp : BlobPlan stripe f cached dealProviders plan) {g : ProviderGroup}
    (hg : g ∈ providerGroups plan.leafCount plan.plannedChunks) {qa qb : Nat}
    (hspan : GroupSpan stripe f cached dealProviders plan g qa qb) (openBaseNonce index : Nat) :
    SessionWorks deal stripe g (openRequest openBaseNonce plan.leafCount plan.file g index) ↔
      Accepts deal stripe g.provider (1 + f.witnessCount.toNat + qa / 64)
          (leafNumber stripe (qa % 64))
          (clientPosition stripe f.toFileMeta qb - clientPosition stripe f.toFileMeta qa) ∧
        ∀ leaf, (leafPosition stripe f.toFileMeta qa ≤ leaf ∧
            leaf < leafPosition stripe f.toFileMeta qa +
            (clientPosition stripe f.toFileMeta qb - clientPosition stripe f.toFileMeta qa) + 1) ↔
          ∃ q, GroupBlob stripe f cached dealProviders plan g q ∧
            leaf = leafPosition stripe f.toFileMeta q := by
  have htable := f.inTable
  have hslab := hp.inSlab
  have hhighA := hspan.blobA.2.1
  have hhighB := hspan.blobB.2.1
  have hleafA := Gateway.leafNumber_lt hs (Nat.mod_lt qa (show 64 > 0 by decide))
  have hleafB := Gateway.leafNumber_lt hs (Nat.mod_lt qb (show 64 > 0 by decide))
  -- the count of the request does not wrap
  have hsmall : clientPosition stripe f.toFileMeta qb - clientPosition stripe f.toFileMeta qa <
      2 ^ 32 := by
    rw [clientPosition, clientPosition]
    omega
  obtain ⟨hmdu, hleaf, hcount⟩ := hspan.request hs openBaseNonce index
  have hfirst : (openRequest openBaseNonce 64 plan.file g index).firstLeaf stripe.leafCount.toNat =
      leafPosition stripe f.toFileMeta qa := by
    rw [OpenRequest.firstLeaf, hmdu, hleaf, leafPosition]
  have haccept : ∀ msg, Asks (openRequest openBaseNonce 64 plan.file g index) msg →
      (checkBlobRange deal stripe msg = .ok () ↔ Accepts deal stripe _ _ _ _) := fun _ hmsg =>
    checkBlobRange_iff_accepts hs hmdu hleaf hcount (by omega) hleafA hsmall hmsg
  have hleaves := group_leaves hp hg
  rw [hp.leafCount]
  -- acceptance and exactness are rewritten separately
  constructor
  · rintro ⟨haccepted, hexact⟩
    obtain ⟨msg, hmsg⟩ := exists_asks (openRequest openBaseNonce 64 plan.file g index)
    refine ⟨(haccept msg hmsg).mp (haccepted msg hmsg), fun leaf => ?_⟩
    rw [← hleaves leaf, ← hexact leaf, hfirst, hcount, Nat.add_assoc]
  · rintro ⟨haccepted, hexact⟩
    refine ⟨fun msg hmsg => (haccept msg hmsg).mpr haccepted, fun leaf => ?_⟩
    rw [hleaves leaf, ← hexact leaf, hfirst, hcount, Nat.add_assoc]

/-- A group has all blobs of the range that are planned at its provider. -/
theorem groupBlob_of_provider (hp : BlobPlan stripe f cached dealProviders plan) {g : ProviderGroup}
    (hg : g ∈ providerGroups plan.leafCount plan.plannedChunks) {q qa : Nat}
    (ha : GroupBlob stripe f cached dealProviders plan g qa)
    (hlow : firstBlob f.toFileMeta plan ≤ q) (hhigh : q ≤ lastBlob f.toFileMeta plan)
    (hsame : ∀ c a, BlobChunk stripe f.toFileMeta cached dealProviders q c →
      BlobChunk stripe f.toFileMeta cached dealProviders qa a → c.provider = a.provider) :
    GroupBlob stripe f cached dealProviders plan g q := by
  obtain ⟨-, -, a, ha, hqa⟩ := ha
  obtain ⟨c, hc, hq⟩ := hp.chunkOf q hlow hhigh
  refine ⟨hlow, hhigh, c, ?_, hq⟩
  rw [mem_group_iff hp hg]
  exact ⟨hc, (hsame c a hq hqa).trans ((mem_group_iff hp hg).mp ha).2⟩

/-- In Mode 1 there is one session, for all leaves of the range. There are no slots, so the chain
checks only that the range is in the content. -/
theorem sessionWorks_mode1 (hs : stripe = mode1StripeParams)
    (hp : BlobPlan stripe f cached dealProviders plan)
    (hcontent : deal.totalMdus = 0 ∨
      deal.totalMdus.toNat = 1 + f.witnessCount.toNat + f.userMdus) {g : ProviderGroup}
    (hg : g ∈ providerGroups plan.leafCount plan.plannedChunks) (openBaseNonce index : Nat) :
    SessionWorks deal stripe g (openRequest openBaseNonce plan.leafCount plan.file g index) := by
  obtain ⟨qa, qb, hspan⟩ := exists_groupSpan hp hg
  have hmode : stripe.mode ≠ 2 := by
    rw [hs]
    decide
  -- both ways of counting are the blobs themselves
  have hclient : ∀ q, clientPosition stripe f.toFileMeta q =
      (1 + f.witnessCount.toNat) * 64 + q := by
    intro q
    rw [clientPosition, hs, Gateway.leafNumber_mode1]
    omega
  have hposition : ∀ q, leafPosition stripe f.toFileMeta q =
      (1 + f.witnessCount.toNat) * 64 + q := by
    intro q
    have hcount : stripe.leafCount.toNat = 64 := by
      rw [hs]
      rfl
    rw [leafPosition, hcount, hs, Gateway.leafNumber_mode1]
    omega
  have hbetween := hspan.between qb hspan.blobB
  rw [hclient, hclient] at hbetween
  have hslab := hp.inSlab
  obtain ⟨hlowA, hhighA, -⟩ := hspan.blobA
  obtain ⟨hlowB, hhighB, -⟩ := hspan.blobB
  rw [sessionWorks_iff (Or.inl hs) hp hg hspan, hclient, hclient, hposition]
  refine ⟨⟨?_, fun h => absurd h hmode, ?_⟩, fun leaf => ⟨fun hleaf => ?_, ?_⟩⟩
  · rw [hs, Gateway.leafNumber_mode1]
    exact Nat.mod_lt _ (by decide)
  · refine content_ok (Or.inl hs) hcontent (by omega) ?_
    rw [hs, Gateway.leafNumber_mode1]
    show (1 + f.witnessCount.toNat + qa / 64) * 64 + qa % 64 + _ + 1 ≤ _ * 64
    omega
  -- a leaf of the session is one of the blobs between the first and the last
  · obtain ⟨hlow, hhigh⟩ := hleaf
    refine ⟨leaf - (1 + f.witnessCount.toNat) * 64, ?_, ?_⟩
    · exact groupBlob_of_provider hp hg hspan.blobA (by omega) (by omega)
        fun c a hq hqa => provider_eq_of_mode1 hmode hq hqa
    · rw [hposition]
      omega
  -- and the blobs of the group are all between
  · rintro ⟨q, hq, rfl⟩
    have hq := hspan.between q hq
    rw [hclient, hclient, hclient] at hq
    rw [hposition]
    omega

section Slots

variable (hs : SlotStripe stripe) (hp : BlobPlan stripe f cached dealProviders plan)
include hs hp

/-- The blobs of a group, when every provider is at its slot: one column, and one MDU. The MDU is
the same because the range is in one MDU, or too short to come to a column twice. -/
theorem groupBlob_column (hsessionable : Sessionable deal stripe f.toFileMeta dealProviders plan)
    {g : ProviderGroup} (hg : g ∈ providerGroups plan.leafCount plan.plannedChunks) {qa : Nat}
    (ha : GroupBlob stripe f cached dealProviders plan g qa) :
    (∃ slot, providerSlotIndex deal g.provider = some slot ∧
      slot.toNat = qa % 64 % stripe.k.toNat) ∧
      ∀ q, GroupBlob stripe f cached dealProviders plan g q →
        q % 64 % stripe.k.toNat = qa % 64 % stripe.k.toNat ∧ q / 64 = qa / 64 := by
  obtain ⟨hrange, hslots⟩ := hsessionable hs.mode
  -- the provider of a blob is at the slot of its column
  have hcolumn : ∀ q, GroupBlob stripe f cached dealProviders plan g q →
      ∃ slot, providerSlotIndex deal g.provider = some slot ∧
        slot.toNat = q % 64 % stripe.k.toNat := by
    rintro q ⟨hlow, hhigh, c, hc, hq⟩
    obtain ⟨providers, listed, hproviders, hlisted, hprovider⟩ := hq.slotProvider hs.mode
    rw [← ((mem_group_iff hp hg).mp hc).2, hprovider]
    exact (hslots q hlow hhigh).2 providers listed hproviders hlisted
  obtain ⟨slot, hslot, hslotA⟩ := hcolumn qa ha
  refine ⟨⟨slot, hslot, hslotA⟩, fun q hq => ?_⟩
  obtain ⟨slot', hslot', hslotQ⟩ := hcolumn q hq
  rw [hslot] at hslot'
  cases hslot'
  have hcol : q % 64 % stripe.k.toNat = qa % 64 % stripe.k.toNat := hslotQ.symm.trans hslotA
  obtain ⟨hlowA, hhighA, -⟩ := ha
  obtain ⟨hlow, hhigh, -⟩ := hq
  refine ⟨hcol, ?_⟩
  rcases hrange with hmdu | hshort
  -- the range is in one MDU
  · have hge := Nat.div_le_div_right (c := 64) hlow
    have hle := Nat.div_le_div_right (c := 64) hhigh
    have hgeA := Nat.div_le_div_right (c := 64) hlowA
    have hleA := Nat.div_le_div_right (c := 64) hhighA
    omega
  · -- a range of at most `K` blobs has one blob of each column
    rw [column_eq hs, column_eq hs] at hcol
    rcases Nat.le_total q qa with hle | hle
    · rw [eq_of_column hcol hle (by omega)]
    · rw [eq_of_column hcol.symm hle (by omega)]

/-- In Mode 2 the session of a group works when its blobs are in one MDU, in the slot of the
provider. The leaves of a slot are those of one column in the order of the rows, so a session for
the first to the last of them has no others. -/
theorem sessionWorks_mode2 (hcontent : deal.totalMdus = 0 ∨
      deal.totalMdus.toNat = 1 + f.witnessCount.toNat + f.userMdus)
    (hsessionable : Sessionable deal stripe f.toFileMeta dealProviders plan) {g : ProviderGroup}
    (hg : g ∈ providerGroups plan.leafCount plan.plannedChunks) (openBaseNonce index : Nat) :
    SessionWorks deal stripe g (openRequest openBaseNonce plan.leafCount plan.file g index) := by
  obtain ⟨qa, qb, hspan⟩ := exists_groupSpan hp hg
  obtain ⟨⟨slot, hslot, hslotA⟩, hsame⟩ := groupBlob_column hs hp hsessionable hg hspan.blobA
  obtain ⟨hcolB, hmduB⟩ := hsame qb hspan.blobB
  obtain ⟨hlowA, hhighA, -⟩ := hspan.blobA
  obtain ⟨hlowB, hhighB, -⟩ := hspan.blobB
  have hlt64 : ∀ q, q % 64 < 64 := fun q => Nat.mod_lt q (by decide)
  have hbetween := hspan.between qb hspan.blobB
  -- in one MDU the positions differ as the leaves do
  rw [clientPosition, clientPosition, hmduB] at hbetween
  have hcount : clientPosition stripe f.toFileMeta qb - clientPosition stripe f.toFileMeta qa =
      leafNumber stripe (qb % 64) - leafNumber stripe (qa % 64) := by
    rw [clientPosition, clientPosition, hmduB]
    omega
  have hend : leafNumber stripe (qa % 64) +
      (leafNumber stripe (qb % 64) - leafNumber stripe (qa % 64)) =
        leafNumber stripe (qb % 64) := by
    omega
  -- the leaf count is a number of whole slots, so the last leaf is in it with the first
  have hstart := ((hsessionable hs.mode).2 qa hlowA hhighA).1
  have hfits : leafNumber stripe (qb % 64) < stripe.leafCount.toNat := by
    obtain ⟨slotCount, -, hcounts⟩ := hs.slots
    rw [hcounts, ← Nat.div_lt_iff_lt_mul hs.rows_pos, hs.leafNumber_div (hlt64 qb), hcolB,
      ← hs.leafNumber_div (hlt64 qa), Nat.div_lt_iff_lt_mul hs.rows_pos, ← hcounts]
    rw [UInt64.toNat_toUInt32] at hstart
    exact hstart.trans_le (Nat.mod_le _ _)
  have hslab := hp.inSlab
  rw [sessionWorks_iff (Or.inr hs) hp hg hspan, hcount]
  refine ⟨⟨hstart, fun _ => ⟨hend.symm ▸ hfits, ?_, slot, hslot, ?_⟩, ?_⟩, fun leaf =>
    ⟨fun ⟨hlow, hhigh⟩ => ?_, ?_⟩⟩
  -- the last leaf is in the slot of the first
  · rw [hend, hs.leafNumber_div (hlt64 qa), hs.leafNumber_div (hlt64 qb), hcolB]
  · rw [hs.leafNumber_div (hlt64 qa)]
    exact hslotA
  · refine content_ok (Or.inr hs) hcontent (by omega) ?_
    have hprod : (1 + f.witnessCount.toNat + qa / 64 + 1) * stripe.leafCount.toNat ≤
        (1 + f.witnessCount.toNat + f.userMdus) * stripe.leafCount.toNat :=
      Nat.mul_le_mul_right _ (by omega)
    rw [Nat.add_mul, Nat.one_mul] at hprod
    omega
  · -- a leaf between the two is in the column of the provider
    rw [leafPosition] at hlow hhigh
    obtain ⟨rest, hrest⟩ := Nat.exists_eq_add_of_le ((Nat.le_add_right _ _).trans hlow)
    have hrestA : leafNumber stripe (qa % 64) ≤ rest := by omega
    have hrestB : rest ≤ leafNumber stripe (qb % 64) := by omega
    obtain ⟨blob, hblob, hge, hle, hcol, hnumber⟩ :=
      exists_blob_of_leaf hs (hlt64 qa) (hlt64 qb) hcolB.symm hrestA hrestB
    have hqmod : (qa / 64 * 64 + blob) % 64 = blob := by omega
    have hqdiv : (qa / 64 * 64 + blob) / 64 = qa / 64 := by omega
    refine ⟨qa / 64 * 64 + blob, ?_, ?_⟩
    · refine groupBlob_of_provider hp hg hspan.blobA (by omega) (by omega) fun c a hq hqa => ?_
      refine provider_eq_of_column hs.mode hq hqa ?_
      rw [hqmod, hcol]
    · rw [leafPosition, hqmod, hqdiv, hnumber, hrest]
  · rintro ⟨q, hq, rfl⟩
    obtain ⟨-, hmdu⟩ := hsame q hq
    have hq := hspan.between q hq
    rw [clientPosition, clientPosition, clientPosition, hmdu, hmduB] at hq
    rw [leafPosition, leafPosition, hmdu]
    omega

/-- An accepted session stays in one MDU, and in the slot of its provider: the chain has checked the
slot of its first and of its last leaf. -/
theorem groupBlob_of_accepted {g : ProviderGroup}
    (hg : g ∈ providerGroups plan.leafCount plan.plannedChunks) {openBaseNonce index : Nat}
    (h : SessionWorks deal stripe g (openRequest openBaseNonce plan.leafCount plan.file g index)) :
    ∃ mdu, ∀ q, GroupBlob stripe f cached dealProviders plan g q →
      q / 64 = mdu ∧ leafNumber stripe (q % 64) < stripe.leafCount.toUInt32.toNat ∧
        ∃ slot, providerSlotIndex deal g.provider = some slot ∧
          slot.toNat = q % 64 % stripe.k.toNat := by
  obtain ⟨qa, qb, hspan⟩ := exists_groupSpan hp hg
  rw [sessionWorks_iff (Or.inr hs) hp hg hspan] at h
  obtain ⟨⟨hstart, hslots, -⟩, -⟩ := h
  obtain ⟨-, hsameSlot, slot, hslot, hslotNat⟩ := hslots hs.mode
  have hlt64 : ∀ q, q % 64 < 64 := fun q => Nat.mod_lt q (by decide)
  have hleafA := hs.leafNumber_lt (hlt64 qa)
  have hleafB := hs.leafNumber_lt (hlt64 qb)
  have hbetween := hspan.between qb hspan.blobB
  -- in a later MDU the session would go beyond the data slots
  have hmduB : qb / 64 = qa / 64 := by
    by_contra hne
    have hfar : 64 ≤ leafNumber stripe (qa % 64) +
        (clientPosition stripe f.toFileMeta qb - clientPosition stripe f.toFileMeta qa) := by
      rw [clientPosition, clientPosition] at hbetween ⊢
      omega
    have hbeyond := Nat.div_le_div_right (c := stripe.rows.toNat) hfar
    have hwithin : leafNumber stripe (qa % 64) / stripe.rows.toNat < stripe.k.toNat := by
      rw [Nat.div_lt_iff_lt_mul hs.rows_pos, hs.size]
      exact hleafA
    have hdata : 64 / stripe.rows.toNat = stripe.k.toNat :=
      Nat.div_eq_of_eq_mul_left hs.rows_pos hs.size.symm
    rw [← hsameSlot, hdata] at hbeyond
    omega
  -- the last leaf of the session is that of the last blob
  have hend : leafNumber stripe (qa % 64) +
      (clientPosition stripe f.toFileMeta qb - clientPosition stripe f.toFileMeta qa) =
        leafNumber stripe (qb % 64) := by
    rw [clientPosition, clientPosition, hmduB] at hbetween ⊢
    omega
  rw [hend] at hsameSlot
  refine ⟨qa / 64, fun q hq => ?_⟩
  have hqBetween := hspan.between q hq
  have hleafQ := hs.leafNumber_lt (hlt64 q)
  rw [clientPosition, clientPosition, clientPosition, hmduB] at hqBetween
  -- a blob between them is in the same MDU
  have hmduQ : q / 64 = qa / 64 := by omega
  rw [hmduQ] at hqBetween
  -- and in the same slot, which is monotone in the leaf
  have hslotQ : leafNumber stripe (q % 64) / stripe.rows.toNat =
      leafNumber stripe (qa % 64) / stripe.rows.toNat := by
    refine le_antisymm ?_ (Nat.div_le_div_right (by omega))
    rw [hsameSlot]
    exact Nat.div_le_div_right (by omega)
  refine ⟨hmduQ, ?_, slot, hslot, ?_⟩
  · -- the lower half of the leaf count is a number of whole slots too
    obtain ⟨slotCount, -, hcounts⟩ := hs.slots
    have hdvd : stripe.rows.toNat ∣ stripe.leafCount.toUInt32.toNat := by
      have hrows : stripe.rows.toNat ∣ 2 ^ 32 := by
        have h64 : stripe.rows.toNat ∣ 64 := ⟨stripe.k.toNat, by rw [Nat.mul_comm, hs.size]⟩
        exact h64.trans (by decide)
      rw [UInt64.toNat_toUInt32, Nat.dvd_mod_iff hrows, hcounts]
      exact Nat.dvd_mul_left _ _
    obtain ⟨whole, hwhole⟩ := hdvd
    rw [hwhole, Nat.mul_comm] at hstart ⊢
    rw [← Nat.div_lt_iff_lt_mul hs.rows_pos] at hstart ⊢
    rw [hslotQ]
    exact hstart
  · rw [hslotNat, ← hslotQ, hs.leafNumber_div (hlt64 q)]

/-- If all sessions work, the download is `Sessionable`. A range over two MDUs with more than `K`
blobs has a column with a blob on each side of the border, and its session would be refused. -/
theorem sessionable_of_works {openBaseNonce : Nat}
    (hworks : ∀ g ∈ providerGroups plan.leafCount plan.plannedChunks,
      ∃ index, SessionWorks deal stripe g
        (openRequest openBaseNonce plan.leafCount plan.file g index)) :
    Sessionable deal stripe f.toFileMeta dealProviders plan := by
  have hgroup : ∀ q, firstBlob f.toFileMeta plan ≤ q → q ≤ lastBlob f.toFileMeta plan →
      ∃ g ∈ providerGroups plan.leafCount plan.plannedChunks, ∃ c ∈ g.chunks,
        BlobChunk stripe f.toFileMeta cached dealProviders q c := by
    intro q hlow hhigh
    obtain ⟨c, hc, hq⟩ := hp.chunkOf q hlow hhigh
    obtain ⟨g, hg, -, hmem⟩ := @exists_group plan.leafCount _ _ hc
    exact ⟨g, hg, c, hmem, hq⟩
  intro hmode
  refine ⟨?_, fun q hlow hhigh => ?_⟩
  · by_contra hnot
    rw [not_or, Nat.not_lt] at hnot
    obtain ⟨hapart, hlong⟩ := hnot
    have hk : stripe.k.toNat ≤ 64 := Nat.le_of_dvd (by decide) ⟨stripe.rows.toNat, hs.size.symm⟩
    have hmdus := Nat.div_le_div_right (c := 64) hp.ordered
    -- two blobs of a column, before and behind the border of an MDU
    obtain ⟨q, hlow, hhigh, hbefore⟩ : ∃ q, firstBlob f.toFileMeta plan ≤ q ∧
        q + stripe.k.toNat ≤ lastBlob f.toFileMeta plan ∧ q / 64 < (q + stripe.k.toNat) / 64 := by
      refine ⟨max (firstBlob f.toFileMeta plan)
        ((firstBlob f.toFileMeta plan / 64 + 1) * 64 - stripe.k.toNat), ?_, ?_, ?_⟩
      · exact Nat.le_max_left _ _
      · omega
      · have hpos := hs.k_pos
        omega
    obtain ⟨g, hg, c, hc, hq⟩ := hgroup q hlow (by omega)
    have hblob : GroupBlob stripe f cached dealProviders plan g q := ⟨hlow, by omega, c, hc, hq⟩
    have hnext : GroupBlob stripe f cached dealProviders plan g (q + stripe.k.toNat) :=
      groupBlob_of_provider hp hg hblob (by omega) hhigh fun c a hc ha =>
        provider_eq_of_column hs.mode hc ha (by
          rw [column_eq hs, column_eq hs, Nat.add_mod_right])
    obtain ⟨index, hwork⟩ := hworks g hg
    obtain ⟨mdu, hall⟩ := groupBlob_of_accepted hs hp hg hwork
    have hone := (hall q hblob).1
    have htwo := (hall _ hnext).1
    omega
  -- the first leaf of a group and the slot of its provider are as its session needs them
  · obtain ⟨g, hg, c, hc, hq⟩ := hgroup q hlow hhigh
    obtain ⟨index, hwork⟩ := hworks g hg
    obtain ⟨mdu, hall⟩ := groupBlob_of_accepted hs hp hg hwork
    obtain ⟨-, hleaf, slot, hslot, hslotNat⟩ := hall q ⟨hlow, hhigh, c, hc, hq⟩
    refine ⟨hleaf, fun providers listed hproviders hlisted => ⟨slot, ?_, hslotNat⟩⟩
    -- the answer of the gateway names one list of providers
    obtain ⟨providers', listed', hproviders', hlisted', hprovider⟩ := hq.slotProvider hmode
    rw [hproviders] at hproviders'
    cases hproviders'
    rw [hlisted] at hlisted'
    cases hlisted'
    rw [← hprovider, ((mem_group_iff hp hg).mp hc).2]
    exact hslot

end Slots

end Groups

/-- The `i`-th request opens a session for the `i`-th group. -/
theorem openRequests_getElem? (openBaseNonce leafCount : Nat) (file : FileRef)
    (groups : List ProviderGroup) (i : Nat) :
    (openRequests openBaseNonce leafCount file groups)[i]? =
      groups[i]?.map fun g => openRequest openBaseNonce leafCount file g i := by
  rw [openRequests, List.getElem?_map, List.getElem?_zipIdx]
  cases groups[i]? <;> simp

/-- For every stripe of a deal, every file of a slab and every range: the sessions that a download
opens are accepted and have exactly the leaves of their chunks when the download is `Sessionable`,
and only then. The gateway plans the chunks, and the content of the deal is that of the slab where
it is counted. -/
theorem sessions_work_iff (f : SlabFile) (deal : Deal) (stripe : StripeParams)
    (hstripe : stripeParamsForDeal deal = .ok stripe)
    (hcontent : deal.totalMdus = 0 ∨
      deal.totalMdus.toNat = 1 + f.witnessCount.toNat + f.userMdus)
    (cached : Str) (dealProviders : Except String (List Str)) (env : FetchEnv)
    (henv : env.plan = gatewayPlan stripe f.toFileMeta cached dealProviders) (input : FetchInput)
    (hinput : input.Of f.toFileMeta) (plan : DownloadPlan)
    (hplan : planDownload env input = .ok plan) :
    SessionsWork deal stripe env.openBaseNonce plan ↔
      Sessionable deal stripe f.toFileMeta dealProviders plan := by
  have hs := Gateway.stripeParamsForDeal_cases hstripe
  have hp := planDownload_blobs hs henv hinput hplan
  -- every group has a request, so its session works
  constructor
  · intro hworks
    have hall : ∀ g ∈ providerGroups plan.leafCount plan.plannedChunks,
        ∃ index, SessionWorks deal stripe g
          (openRequest env.openBaseNonce plan.leafCount plan.file g index) := by
      intro g hg
      obtain ⟨i, hi⟩ := List.mem_iff_getElem?.mp hg
      refine ⟨i, hworks i g _ hi ?_⟩
      rw [openRequests_getElem?, hi]
      rfl
    rcases hs with hs | hs
    · intro hmode
      rw [hs] at hmode
      exact absurd hmode (by decide)
    · exact sessionable_of_works hs hp hall
  -- the request at an index is that of the group there
  · intro hsessionable i group request hgroup hrequest
    rw [openRequests_getElem?, hgroup] at hrequest
    cases hrequest
    have hg := List.mem_of_getElem? hgroup
    rcases hs with hs | hs
    · exact sessionWorks_mode1 hs hp hcontent hg _ _
    · exact sessionWorks_mode2 hs hp hcontent hsessionable hg _ _

/-! ### A file of two MDUs -/

open NilStore.Gateway (stripedDeal stripedProviders)

/-- A file in the deal with eight data and four parity slots. -/
def twoMdus : SlabFile where
  startOffset := 0
  length := 10000000
  witnessCount := 1
  userMdus := 2
  inUserMdus := by decide
  inTable := by decide

/-- A download of nine blobs of it. -/
def nineBlobs (rangeStart : Nat) : FetchInput where
  dealId := "0".toList
  manifestRoot := "0x01".toList
  owner := "nil1owner".toList
  filePath := "a.bin".toList
  rangeStart := some rangeStart
  rangeLen := some 1142784
  fileStartOffset := some 0
  fileSizeBytes := some 10000000
  mduSizeBytes := some 8388608
  blobSizeBytes := some 131072

/-- The sample input is for the sample file. -/
theorem nineBlobs_of (rangeStart : Nat) : (nineBlobs rangeStart).Of twoMdus.toFileMeta :=
  ⟨rfl, rfl, rfl, rfl⟩

/-- The page of the owner. -/
def stripedPage : FetchEnv :=
  pageOf stripedDeal.serviceHint twoMdus.toFileMeta stripedProviders

/-- The browser's page and the chain take the same stripe from the sample deal. -/
theorem stripedDeal_stripe :
    stripeParamsForDeal stripedDeal = .ok (Gateway.planStripe (.ok stripedDeal.serviceHint)) := by
  decide +kernel

/-- The first nine blobs are in one MDU, and their sessions work. -/
theorem sessions_work_nineBlobs : ∃ plan, planDownload stripedPage (nineBlobs 0) = .ok plan ∧
    SessionsWork stripedDeal (Gateway.planStripe (.ok stripedDeal.serviceHint))
      stripedPage.openBaseNonce plan := by
  -- the plan is evaluated to its range only
  have hshape : (planDownload stripedPage (nineBlobs 0)).map (fun plan =>
      (plan.rangeStart, plan.rangeLen)) = .ok (0, 1142784) := by
    decide +kernel
  cases hplan : planDownload stripedPage (nineBlobs 0) with
  | error text =>
      rw [hplan] at hshape
      cases hshape
  | ok plan =>
      rw [hplan] at hshape
      simp only [Except.map, Except.ok.injEq, Prod.mk.injEq] at hshape
      obtain ⟨hstart, hlen⟩ := hshape
      refine ⟨plan, rfl, (sessions_work_iff twoMdus stripedDeal _ stripedDeal_stripe (Or.inl rfl) []
        (.ok stripedProviders) stripedPage rfl (nineBlobs 0) (nineBlobs_of 0) plan hplan).mpr ?_⟩
      intro _
      have hfirst : firstBlob twoMdus.toFileMeta plan = 0 := by
        rw [firstBlob, hstart]
        decide +kernel
      have hlast : lastBlob twoMdus.toFileMeta plan = 8 := by
        rw [lastBlob, hstart, hlen]
        decide +kernel
      -- the providers of the nine blobs, one after the other
      rw [hfirst, hlast]
      have hall : ∀ q < 9, leafNumber (Gateway.planStripe (.ok stripedDeal.serviceHint)) (q % 64) <
            (Gateway.planStripe (.ok stripedDeal.serviceHint)).leafCount.toUInt32.toNat ∧
          ∀ p ∈ stripedProviders[q % 64 %
              (Gateway.planStripe (.ok stripedDeal.serviceHint)).k.toNat]?,
            (providerSlotIndex stripedDeal (trim (trimSpace p))).map (·.toNat) =
              some (q % 64 % (Gateway.planStripe (.ok stripedDeal.serviceHint)).k.toNat) := by
        decide +kernel
      refine ⟨Or.inl rfl, fun q _ hhigh => ?_⟩
      obtain ⟨hleaf, hproviders⟩ := hall q (by omega)
      refine ⟨hleaf, fun providers listed hok hlisted => ?_⟩
      cases hok
      exact Option.map_eq_some_iff.mp (hproviders listed hlisted)

/-- **Nine blobs across the border of the two MDUs**: blobs 60 and 68 are at one provider, and the
session for both is refused. -/
theorem session_refused_nineBlobs :
    ∃ plan, planDownload stripedPage (nineBlobs 7618560) = .ok plan ∧
    ¬SessionsWork stripedDeal (Gateway.planStripe (.ok stripedDeal.serviceHint))
      stripedPage.openBaseNonce plan := by
  -- the first request, evaluated: twenty leaves from leaf 39 of MDU 2
  have hshape : (planDownload stripedPage (nineBlobs 7618560)).map (fun plan =>
      (openRequests stripedPage.openBaseNonce plan.leafCount plan.file
        (providerGroups plan.leafCount plan.plannedChunks))[0]?) =
      .ok (some ⟨0, "nil1slote".toList, "0x01".toList, 2, 39, 58, 1700000000000, 0⟩) := by
    decide +kernel
  cases hplan : planDownload stripedPage (nineBlobs 7618560) with
  | error text =>
      rw [hplan] at hshape
      cases hshape
  | ok plan =>
      rw [hplan] at hshape
      have hrequest := Except.ok.inj hshape
      refine ⟨plan, rfl, fun hworks => ?_⟩
      have hgroup := hrequest
      simp only [openRequests_getElem?, Option.map_eq_some_iff] at hgroup
      obtain ⟨group, hgroup, -⟩ := hgroup
      have hwork := hworks 0 group _ hgroup hrequest
      -- the chain refuses those twenty
      have hrefused : checkBlobRange stripedDeal (Gateway.planStripe (.ok stripedDeal.serviceHint))
          ⟨[], 0, "nil1slote".toList, [], 2, 39, 58, 0, 0⟩ =
            .error (errInvalidRequest "blob range exceeds leaf_count") := by
        decide +kernel
      rw [hwork.accepted _ ⟨rfl, rfl, rfl, rfl⟩] at hrefused
      cases hrefused

end NilStore.Website
