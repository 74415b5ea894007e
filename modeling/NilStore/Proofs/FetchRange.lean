import NilStore.Gateway.Fetch
import NilStore.Proofs.PlanCoverage

/-!
# `NilStore.Proofs.FetchRange`: a fetch serves one blob

Whatever the mode, the bytes that are served lie in the file, in the signed range and in the range
of the session. They lie in the one blob of the proof too, when the check of the blob was made. It
is made except for one kind of request: signed for one chunk, with a range that has no length. Then
all of the rest of the file is served, and it has to lie in one blob by itself
(`fetch_authorised_iff`).
-/

set_option autoImplicit false

namespace NilStore.Gateway

open NilStore.Lib NilStore.Core NilStore.Chain

/-! ### What a served range may be -/

/-- The served bytes lie in a range. A range without a length goes on to the end of the file. -/
def Served.InRange (s : Served) (start len : UInt64) : Prop :=
  start.toNat ≤ s.rangeStart.toNat ∧
    (len ≠ 0 → s.rangeStart.toNat + s.servedLen.toNat ≤ start.toNat + len.toNat)

/-- The MDU and the encoded blob that hold a byte of a file. -/
def blobOfByte (info : SlabFileInfo) (i : Nat) : UInt64 × Except String UInt32 :=
  let offset := info.startOffset + UInt64.ofNat i
  (1 + info.witnessCount + offset / rawMduCapacityU64,
    rawOffsetToEncodedBlobIndex (offset % rawMduCapacityU64))

/-- Only authorised bytes are served, and all of them are covered by the proof. -/
structure Authorised (req : FetchRequest) (stripe : StripeParams) (s : Served) : Prop where
  nonempty : 0 < s.servedLen.toNat
  inFile : s.rangeStart.toNat + s.servedLen.toNat ≤ s.info.length.toNat
  inSigned : req.requireReqSig = true → s.InRange req.signedRangeStart req.signedRangeLen
  inSession : ∀ session, req.session = .download session →
    s.InRange session.rangeStart session.rangeLen
  oneBlob : ∀ i, s.rangeStart.toNat ≤ i → i < s.rangeStart.toNat + s.servedLen.toNat →
    blobOfByte s.info i = (s.mduIndex, .ok s.blobIndex)
  leaf : leafIndexForBlobIndex s.blobIndex stripe = .ok s.leafIndex
  recorded : s.servedLen.toNat ≤ blobPayload

/-- The request is signed for one chunk, and its range has no length. -/
def OpenEnded (req : FetchRequest) : Prop :=
  req.requireRetrievalReqSig = true ∧ req.isDownloadSession = false ∧ req.signedRangeLen = 0

/-! ### One blob -/

section

variable {seg : Segment}

/-- The blob of the first byte. -/
theorem firstBlob_spec (seg : Segment) :
    rawOffsetToEncodedBlobIndex (seg.absOffset % rawMduCapacityU64) = .ok (firstBlob seg) ∧
      (firstBlob seg).toNat = seg.absOffset.toNat % rawMduCapacity / blobPayload := by
  have hcap : rawMduCapacityU64.toNat = rawMduCapacity := rfl
  have hlt : (seg.absOffset % rawMduCapacityU64).toNat < rawMduCapacity := by
    rw [UInt64.toNat_mod, hcap]
    exact Nat.mod_lt _ (by decide)
  obtain ⟨blob, hblob, hnat⟩ := rawOffsetToEncodedBlobIndex_ok hlt
  rw [firstBlob, hblob]
  rw [UInt64.toNat_mod, hcap] at hnat
  exact ⟨rfl, hnat⟩

/-- An offset has the blob of the first byte when the numbers agree. -/
theorem blob_eq_firstBlob_iff {offset : UInt64} :
    rawOffsetToEncodedBlobIndex (offset % rawMduCapacityU64) = .ok (firstBlob seg) ↔
      offset.toNat % rawMduCapacity / blobPayload =
        seg.absOffset.toNat % rawMduCapacity / blobPayload := by
  have hcap : rawMduCapacityU64.toNat = rawMduCapacity := rfl
  have hlt : (offset % rawMduCapacityU64).toNat < rawMduCapacity := by
    rw [UInt64.toNat_mod, hcap]
    exact Nat.mod_lt _ (by decide)
  obtain ⟨blob, hblob, hnat⟩ := rawOffsetToEncodedBlobIndex_ok hlt
  rw [UInt64.toNat_mod, hcap] at hnat
  rw [hblob, ← hnat, ← (firstBlob_spec seg).2]
  constructor
  · intro h
    rw [Except.ok.inj h]
  · intro h
    rw [UInt32.toNat_inj.mp h]

/-- The check of the blob, in numbers. -/
theorem checkOneBlob_iff : checkOneBlob seg = .ok () ↔
    seg.absOffset.toNat / rawMduCapacity =
        (seg.absOffset + seg.segmentLen - 1).toNat / rawMduCapacity ∧
      (seg.absOffset + seg.segmentLen - 1).toNat % rawMduCapacity / blobPayload =
        seg.absOffset.toNat % rawMduCapacity / blobPayload := by
  have hcap : rawMduCapacityU64.toNat = rawMduCapacity := rfl
  simp only [checkOneBlob, except_bind_ok, rejectIf_eq_ok, not_not, blob_eq_firstBlob_iff]
  rw [← UInt64.toNat_inj, UInt64.toNat_div, UInt64.toNat_div, hcap]
  exact ⟨fun ⟨_, hmdu, hblob⟩ => ⟨hmdu, hblob⟩, fun ⟨hmdu, hblob⟩ => ⟨(), hmdu, hblob⟩⟩

/-- When the first and the last byte lie in one blob, so do all between them, and there are no more
than a blob holds. The check computes in 64 bits, but a range that wraps cannot pass it. -/
theorem checkOneBlob_all (hpos : 0 < seg.segmentLen.toNat) (hlen : seg.segmentLen.toNat < 2 ^ 56)
    (h : checkOneBlob seg = .ok ()) :
    seg.segmentLen.toNat ≤ blobPayload ∧ ∀ j < seg.segmentLen.toNat,
      (seg.absOffset + UInt64.ofNat j).toNat / rawMduCapacity =
          seg.absOffset.toNat / rawMduCapacity ∧
        (seg.absOffset + UInt64.ofNat j).toNat % rawMduCapacity / blobPayload =
          seg.absOffset.toNat % rawMduCapacity / blobPayload := by
  obtain ⟨hmdu, hblob⟩ := checkOneBlob_iff.mp h
  have hfirst := seg.absOffset.toNat_lt
  have hend : (seg.absOffset + seg.segmentLen - 1).toNat =
      (seg.absOffset.toNat + seg.segmentLen.toNat - 1) % 2 ^ 64 := by
    rw [UInt64.toNat_sub, UInt64.toNat_add, UInt64.toNat_one]
    omega
  rw [hend] at hmdu hblob
  -- a range this short that wraps around ends in another MDU
  have hfits : seg.absOffset.toNat + seg.segmentLen.toNat - 1 < 2 ^ 64 := by
    by_contra hwraps
    simp only [rawMduCapacity] at hmdu
    omega
  rw [Nat.mod_eq_of_lt hfits] at hmdu hblob
  simp only [rawMduCapacity, blobPayload] at hmdu hblob ⊢
  -- a byte of the range has its own offset, without wrapping
  refine ⟨by omega, fun j hj => ?_⟩
  have hsmall : j < 2 ^ 64 := by omega
  have hoffset : (seg.absOffset + UInt64.ofNat j).toNat = seg.absOffset.toNat + j := by
    rw [UInt64.toNat_add, UInt64.toNat_ofNat_of_lt' hsmall, Nat.mod_eq_of_lt (by omega)]
  rw [hoffset]
  constructor
  · omega
  · omega

end

/-! ### The rules of the modes -/

/-- A chunk that passes lies within the outer range, and nothing has overflowed. An outer length of
0 leaves the end open, and only the start is compared. -/
theorem checkWithin_ok {error name : String} {outerStart outerLen start len : UInt64} {u : Unit}
    (h : checkWithin error name outerStart outerLen start len = .ok u) :
    outerStart.toNat ≤ start.toNat ∧
      (outerLen ≠ 0 → start.toNat + len.toNat ≤ outerStart.toNat + outerLen.toNat) := by
  -- the three checks, and the two sums in them
  simp only [checkWithin, except_bind_ok, rejectIf_eq_ok, not_and] at h
  obtain ⟨_, hstart, _, hoverflow, _, houter, hlimit⟩ := h
  refine ⟨UInt64.le_iff_toNat_le.mp (UInt64.not_lt.mp hstart), fun hlen => ?_⟩
  have hpos : outerLen > 0 := by
    have hne : outerLen.toNat ≠ 0 := fun h0 => hlen (UInt64.toNat_inj.mp h0)
    rw [gt_iff_lt, UInt64.lt_iff_toNat_lt]
    show 0 < outerLen.toNat
    omega
  -- neither sum wraps around, so the comparison is the one of the numbers
  have hoverflow := UInt64.le_iff_toNat_le.mp (UInt64.not_lt.mp (hoverflow hpos))
  have houter := UInt64.le_iff_toNat_le.mp (UInt64.not_lt.mp (houter hpos))
  have hlimit := UInt64.le_iff_toNat_le.mp (UInt64.not_lt.mp (hlimit hpos))
  have h₁ := start.toNat_lt
  have h₂ := len.toNat_lt
  have h₃ := outerStart.toNat_lt
  have h₄ := outerLen.toNat_lt
  rw [UInt64.toNat_add] at hoverflow houter
  rw [UInt64.toNat_add, UInt64.toNat_add] at hlimit
  omega

section

variable {req : FetchRequest} {file : FetchedFile} {header : UInt64 × UInt64}

/-- What each mode makes of the range. In a session the range of the request is checked against that
of the session; with a required signature the signed range is taken; otherwise the request's own, or
the whole file. -/
theorem requestedRange_spec (h : requestedRange req file = .ok header) :
    (req.isDownloadSession = true ∧ header.2 ≠ 0 ∧
      checkSessionRange req header.1 header.2 = .ok ()) ∨
    (req.isDownloadSession = false ∧ req.requireRetrievalReqSig = true ∧
      header = (req.signedRangeStart, req.signedRangeLen)) ∨
    (req.isDownloadSession = false ∧ req.requireRetrievalReqSig = false ∧
      (header.2 ≠ 0 ∨ req.implicitRange = true)) := by
  rw [requestedRange, except_bind_ok] at h
  obtain ⟨parsed, -, h⟩ := h
  split at h
  · rename_i hsession
    simp only [checkChunk, except_bind_ok, rejectIf_eq_ok] at h
    obtain ⟨_, ⟨_, -, _, hlen, -⟩, _, hwithin, heq⟩ := h
    cases heq
    exact Or.inl ⟨hsession, hlen, hwithin⟩
  · rename_i hsession
    have hsession : req.isDownloadSession = false := by simpa using hsession
    split at h
    -- the signed range must be the one of the header
    · rename_i hsigned
      simp only [signedChunkRange, except_bind_ok, rejectIf_eq_ok] at h
      obtain ⟨_, -, _, -, heq⟩ := h
      exact Or.inr (Or.inl ⟨hsession, hsigned, (Except.ok.inj heq).symm⟩)
    · rename_i hunsigned
      have hunsigned : req.requireRetrievalReqSig = false := by simpa using hunsigned
      refine Or.inr (Or.inr ⟨hsession, hunsigned, ?_⟩)
      rw [unsignedRange] at h
      -- no header: the rest of the file is meant
      split at h
      · rename_i hnone
        right
        simp [FetchRequest.implicitRange, hsession, hunsigned, hnone]
      · simp only [checkChunk, except_bind_ok, rejectIf_eq_ok] at h
        obtain ⟨_, ⟨_, -, _, hlen, -⟩, heq⟩ := h
        cases heq
        exact Or.inl hlen

/-- The segment that is read: from the start of the range, as long as the range asks for and the
file has bytes. -/
theorem resolveNilfsFileSegmentForFetch_ok {info : SlabFileInfo} {rangeStart rangeLen : UInt64}
    {seg : Segment} (h : resolveNilfsFileSegmentForFetch info rangeStart rangeLen = .ok seg) :
    seg.info = info ∧ seg.rangeStart = rangeStart ∧ 0 < seg.segmentLen.toNat ∧
      rangeStart.toNat + seg.segmentLen.toNat ≤ info.length.toNat ∧
      (rangeLen ≠ 0 → seg.segmentLen.toNat ≤ rangeLen.toNat) ∧
      (rangeLen = 0 → seg.segmentLen = info.length - rangeStart) := by
  simp only [resolveNilfsFileSegmentForFetch, except_bind_ok, rejectIf_eq_ok] at h
  obtain ⟨_, hstart, heq⟩ := h
  cases heq
  have hlt := UInt64.lt_iff_toNat_lt.mp (UInt64.not_le.mp hstart)
  have hremaining : (info.length - rangeStart).toNat = info.length.toNat - rangeStart.toNat :=
    UInt64.toNat_sub_of_le _ _ (UInt64.le_iff_toNat_le.mpr hlt.le)
  refine ⟨rfl, rfl, ?_⟩
  dsimp only
  -- the range ends before the file, or the file before the range
  split
  · rename_i hshort
    obtain ⟨hne, hless⟩ := hshort
    have hless := UInt64.lt_iff_toNat_lt.mp hless
    have hpos : rangeLen.toNat ≠ 0 := fun h0 => hne (UInt64.toNat_inj.mp h0)
    refine ⟨by omega, by omega, fun _ => le_refl _, fun h0 => absurd h0 hne⟩
  · rename_i hlong
    refine ⟨by omega, by omega, fun hne => ?_, fun _ => rfl⟩
    have hle := UInt64.le_iff_toNat_le.mp (UInt64.not_lt.mp fun hless => hlong ⟨hne, hless⟩)
    exact hle

end

/-- A stripe that comes from a hint has a leaf for each blob, so the handler never fails there. A
hint that cannot be read gives the stripe of Mode 1. -/
theorem leafOrBlob_planStripe (serviceHint : Except String Str) (blobIndex : UInt32) :
    leafIndexForBlobIndex blobIndex (planStripe serviceHint) =
      .ok (leafOrBlob (planStripe serviceHint) blobIndex) := by
  -- `K` and the rows are not 0 where they divide
  have hstripe : planStripe serviceHint = mode1StripeParams ∨
      (planStripe serviceHint).k ≠ 0 ∧ (planStripe serviceHint).rows ≠ 0 := by
    have hread : ∃ hint, ∀ stripe, stripeParamsFromHint hint = stripe →
        planStripe serviceHint = stripe.toOption.getD mode1StripeParams := by
      cases serviceHint with
      | ok hint =>
          refine ⟨hint, fun stripe hhint => ?_⟩
          subst hhint
          cases h : stripeParamsFromHint hint <;> simp [planStripe, h, Except.toOption]
      | error text =>
          refine ⟨[], fun stripe hhint => ?_⟩
          subst hhint
          cases h : stripeParamsFromHint [] <;> simp [planStripe, h, Except.toOption]
    obtain ⟨hint, hread⟩ := hread
    cases hhint : stripeParamsFromHint hint with
    | error text => exact Or.inl (hread _ hhint)
    | ok stripe =>
        rw [hread _ hhint]
        -- the rows of a striped hint: 64 is a multiple of `K`
        rcases stripeParamsFromHint_cases hhint with rfl | ⟨k, m, hk, -, hrows, hle, rfl⟩
        · exact Or.inl rfl
        · refine Or.inr ⟨hk, fun h0 => ?_⟩
          have hlt : (k + m).toNat < 2 ^ 33 :=
            Nat.lt_of_le_of_lt (UInt64.le_iff_toNat_le.mp hle) (by decide)
          have hsize : k.toNat * (64 / k).toNat = 64 := (SlotStripe.of_k (m := m) hrows hk hlt).size
          have h0 : (64 / k : UInt64) = 0 := h0
          rw [h0] at hsize
          exact absurd hsize (by simp)
  have hok : ∃ leafIndex, leafIndexForBlobIndex blobIndex (planStripe serviceHint) =
      .ok leafIndex := by
    rw [leafIndexForBlobIndex]
    rcases hstripe with hone | ⟨hk, hrows⟩
    · rw [hone]
      exact ⟨_, rfl⟩
    · split
      · exact ⟨_, rfl⟩
      · rw [if_neg (by simp [hk, hrows])]
        exact ⟨_, rfl⟩
  obtain ⟨leafIndex, hleaf⟩ := hok
  rw [leafOrBlob, hleaf]

/-! ### The handler -/

section

variable {req : FetchRequest} {file : FetchedFile} {guards : FetchGuards}
    {info : SlabFileInfo} {s : Served}

/-- What `GatewayFetch` has done when it serves. -/
theorem gatewayFetch_ok (hinfo : file.info = .ok info) (h : gatewayFetch req file guards = .ok s) :
    ∃ range seg, requestedRange req file = .ok range ∧
      resolveNilfsFileSegmentForFetch info range.1 range.2 = .ok seg ∧
      checkServedRange req range.2 seg = .ok () ∧
      s = ⟨info, seg.rangeStart, seg.segmentLen,
        1 + info.witnessCount + seg.absOffset / rawMduCapacityU64, firstBlob seg,
        leafOrBlob file.stripe (firstBlob seg)⟩ := by
  simp only [gatewayFetch, except_bind_ok, rejectIf_eq_ok, mapError_eq_ok] at h
  obtain ⟨_, -, _, -, range, hrange, _, -, info', hinfo', seg, hseg, _, -, _, -, _, hserved,
    _, -, heq⟩ := h
  rw [hinfo] at hinfo'
  cases hinfo'
  exact ⟨range, seg, hrange, hseg, hserved, (Except.ok.inj heq).symm⟩

/-- A part of a chunk lies where the chunk does. -/
theorem inRange_of_within {outerStart outerLen start len : UInt64}
    (hstart : s.rangeStart = start) (hle : s.servedLen.toNat ≤ len.toNat)
    (hwithin : outerStart.toNat ≤ start.toNat ∧
      (outerLen ≠ 0 → start.toNat + len.toNat ≤ outerStart.toNat + outerLen.toNat)) :
    s.InRange outerStart outerLen := by
  obtain ⟨hbefore, hafter⟩ := hwithin
  rw [Served.InRange, hstart]
  refine ⟨hbefore, fun hlen => ?_⟩
  have hafter := hafter hlen
  omega

/-- **A fetch serves only authorised bytes covered by its proof** exactly when, if the request is
signed for one chunk without a length, the rest of the file lies in one blob. A length of zero skips
the check of the blob, and it is the only way around it. -/
theorem fetch_authorised_iff (hinfo : file.info = .ok info)
    (h : gatewayFetch req file guards = .ok s) :
    Authorised req file.stripe s ↔
      (OpenEnded req →
        checkOneBlob ⟨info, req.signedRangeStart, info.length - req.signedRangeStart⟩ =
          .ok ()) := by
  obtain ⟨range, seg, hrange, hseg, hserved, rfl⟩ := gatewayFetch_ok hinfo h
  obtain ⟨hseginfo, hstart, hpos, hinFile, hle, hrest⟩ := resolveNilfsFileSegmentForFetch_ok hseg
  have hcap : rawMduCapacityU64.toNat = rawMduCapacity := rfl
  have hlength : seg.segmentLen.toNat < 2 ^ 56 := by
    have hlt := info.length_lt
    omega
  -- the offset of a byte is counted from that of the segment
  have hoffset : ∀ j, info.startOffset + UInt64.ofNat (seg.rangeStart.toNat + j) =
      seg.absOffset + UInt64.ofNat j := by
    intro j
    rw [UInt64.ofNat_add, UInt64.ofNat_toNat, Segment.absOffset, hseginfo, UInt64.add_assoc]
  -- the check of the blob is what it takes for all bytes to be covered
  have hcovered : checkOneBlob seg = .ok () ↔
      (∀ i, seg.rangeStart.toNat ≤ i → i < seg.rangeStart.toNat + seg.segmentLen.toNat →
        blobOfByte info i = (1 + info.witnessCount + seg.absOffset / rawMduCapacityU64,
          .ok (firstBlob seg))) := by
    -- all bytes from the first to the last are in one blob
    constructor
    · intro hcheck i hi hlt
      obtain ⟨j, rfl⟩ := Nat.exists_eq_add_of_le hi
      obtain ⟨hmdu, hblob⟩ := (checkOneBlob_all hpos hlength hcheck).2 j (by omega)
      rw [blobOfByte, hoffset, blob_eq_firstBlob_iff.mpr hblob]
      have hsame : (seg.absOffset + UInt64.ofNat j) / rawMduCapacityU64 =
          seg.absOffset / rawMduCapacityU64 := by
        apply UInt64.toNat_inj.mp
        rw [UInt64.toNat_div, UInt64.toNat_div, hcap, hmdu]
      rw [hsame]
    · intro hall
      have hlast := hall (seg.rangeStart.toNat + (seg.segmentLen.toNat - 1)) (by omega) (by omega)
      rw [blobOfByte, hoffset] at hlast
      obtain ⟨hmdu, hblob⟩ := Prod.mk.inj hlast
      have hend : seg.absOffset + UInt64.ofNat (seg.segmentLen.toNat - 1) =
          seg.absOffset + seg.segmentLen - 1 := by
        apply UInt64.toNat_inj.mp
        have hsmall : seg.segmentLen.toNat - 1 < 2 ^ 64 := by omega
        rw [UInt64.toNat_add, UInt64.toNat_ofNat_of_lt' hsmall, UInt64.toNat_sub, UInt64.toNat_add,
          UInt64.toNat_one]
        omega
      rw [hend] at hmdu hblob
      refine checkOneBlob_iff.mpr ⟨?_, blob_eq_firstBlob_iff.mp hblob⟩
      have hdiv := congrArg UInt64.toNat ((UInt64.add_right_inj _).mp hmdu)
      rw [UInt64.toNat_div, UInt64.toNat_div, hcap] at hdiv
      exact hdiv.symm
  -- the check was made, unless the request has no length
  have hchecked : range.2 ≠ 0 ∨ req.implicitRange = true → checkOneBlob seg = .ok () := by
    intro hasked
    simp only [checkServedRange, except_bind_ok, rejectIf_eq_ok] at hserved
    obtain ⟨_, -, hcheck⟩ := hserved
    have hpos : range.2 > 0 ∨ req.implicitRange = true := hasked.imp_left fun hne => by
      have hne : range.2.toNat ≠ 0 := fun h0 => hne (UInt64.toNat_inj.mp h0)
      rw [gt_iff_lt, UInt64.lt_iff_toNat_lt]
      show 0 < range.2.toNat
      omega
    rwa [if_pos hpos] at hcheck
  have hopen : OpenEnded req →
      seg = ⟨info, req.signedRangeStart, info.length - req.signedRangeStart⟩ := by
    rintro ⟨hsigned, hsession, hzero⟩
    rcases requestedRange_spec hrange with ⟨h, -⟩ | ⟨-, -, hrange⟩ | ⟨-, h, -⟩
    · rw [hsession] at h
      cases h
    · rw [hrange] at hstart hrest
      exact Segment.ext hseginfo hstart (hrest hzero)
    · rw [hsigned] at h
      cases h
  -- what is covered has passed, and is the segment of the condition
  constructor
  · intro hauth hopenEnded
    rw [← hopen hopenEnded]
    exact hcovered.mpr hauth.oneBlob
  · intro hcond
    -- in every mode the check was made, or its result is the condition
    have hcheck : checkOneBlob seg = .ok () := by
      by_cases hopenEnded : OpenEnded req
      · rw [hopen hopenEnded]
        exact hcond hopenEnded
      · refine hchecked ?_
        rcases requestedRange_spec hrange
          with ⟨-, hne, -⟩ | ⟨hsession, hsigned, hrange⟩ | ⟨-, -, hasked⟩
        · exact Or.inl hne
        · rw [hrange]
          exact Or.inl fun hzero => hopenEnded ⟨hsigned, hsession, hzero⟩
        · exact hasked
    refine ⟨hpos, by rw [hstart]; exact hinFile, ?_, ?_, hcovered.mp hcheck,
      leafOrBlob_planStripe file.serviceHint (firstBlob seg),
      (checkOneBlob_all hpos hlength hcheck).1⟩
    · intro hsig
      rcases requestedRange_spec hrange
        with ⟨hdownload, hne, hwithin⟩ | ⟨-, -, hrange⟩ | ⟨-, hunsigned, -⟩
      · -- within a session only an on-chain one asks for a signature
        have honchain : req.session = .onchain := by
          cases hsession : req.session with
          | none => simp [FetchRequest.isDownloadSession, hsession] at hdownload
          | onchain => rfl
          | download session =>
              simp [FetchRequest.requireReqSig, FetchRequest.isDownloadSession,
                FetchRequest.isOnchainSession, hsession] at hsig
        rw [checkSessionRange, honchain] at hwithin
        simp only [hsig, if_true] at hwithin
        exact inRange_of_within hstart (hle hne) (checkWithin_ok hwithin)
      · rw [hrange] at hstart hle
        have hstart := congrArg UInt64.toNat hstart
        exact ⟨hstart.ge, fun hlen => Nat.add_le_add hstart.le (hle hlen)⟩
      · simp [FetchRequest.requireReqSig, hunsigned] at hsig
    · intro session hsession
      have hdownload : req.isDownloadSession = true := by
        simp [FetchRequest.isDownloadSession, hsession]
      rcases requestedRange_spec hrange with ⟨-, hne, hwithin⟩ | ⟨hnone, -⟩ | ⟨hnone, -⟩
      · rw [checkSessionRange, hsession] at hwithin
        exact inRange_of_within hstart (hle hne) (checkWithin_ok hwithin)
      · rw [hdownload] at hnone
        cases hnone
      · rw [hdownload] at hnone
        cases hnone

end

/-! ### A file of two blobs -/

/-- A file of 200000 bytes at the start of a slab with one witness MDU. -/
def twoBlobInfo : SlabFileInfo := ⟨0, 200000, 1, by decide⟩

/-- A file of two blobs. -/
def twoBlobFile : FetchedFile where
  serviceHint := .ok "General".toList
  info := .ok twoBlobInfo
  fileMeta := .ok ⟨0, 200000, 1⟩

/-- Everything else is in order. -/
def openGuards : FetchGuards := ⟨.ok (), .ok (), .ok (), .ok ()⟩

/-- A request that is signed for one chunk, from the first byte on. -/
def chunkRequest (len : UInt64) : FetchRequest where
  requireRetrievalReqSig := true
  session := .none
  signedRangeStart := 0
  signedRangeLen := len
  rangeHeader := []

/-- With a length the chunk is served as it was signed. -/
theorem fetch_authorised_chunkRequest :
    ∃ s, gatewayFetch (chunkRequest 1000) twoBlobFile openGuards = .ok s ∧
      Authorised (chunkRequest 1000) twoBlobFile.stripe s := by
  have hserved : (gatewayFetch (chunkRequest 1000) twoBlobFile openGuards).toOption.isSome =
      true := by
    decide +kernel
  cases hfetch : gatewayFetch (chunkRequest 1000) twoBlobFile openGuards with
  | error e =>
      rw [hfetch] at hserved
      cases hserved
  | ok s =>
      refine ⟨s, rfl, (fetch_authorised_iff rfl hfetch).mpr ?_⟩
      rintro ⟨-, -, hlen⟩
      exact absurd hlen (by decide)

/-- **Without a length** all 200000 bytes are served under the proof of the first blob, which holds
126976 of them. -/
theorem fetch_beyond_blob :
    ∃ s, gatewayFetch (chunkRequest 0) twoBlobFile openGuards = .ok s ∧ s.servedLen = 200000 ∧
      s.blobIndex = 0 ∧ ¬Authorised (chunkRequest 0) twoBlobFile.stripe s := by
  have hserved : (gatewayFetch (chunkRequest 0) twoBlobFile openGuards).toOption.map
      (fun s => (s.servedLen, s.blobIndex)) = some (200000, 0) := by
    decide +kernel
  cases hfetch : gatewayFetch (chunkRequest 0) twoBlobFile openGuards with
  | error e =>
      rw [hfetch] at hserved
      cases hserved
  | ok s =>
      rw [hfetch] at hserved
      obtain ⟨hlen, hblob⟩ := Prod.mk.inj (Option.some.inj hserved)
      refine ⟨s, rfl, hlen, hblob, fun hauth => ?_⟩
      have hrecorded := hauth.recorded
      rw [hlen] at hrecorded
      exact absurd hrecorded (by decide)

end NilStore.Gateway
