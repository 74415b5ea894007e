import NilStore.Gateway.PlanSession
import NilStore.Proofs.SessionRange

/-!
# `NilStore.Proofs.PlanCoverage`: what a planned session covers

The planner of the gateway looks at the two ends of a range only. The blobs of an MDU are numbered
row by row, and its leaves slot by slot, so the leaves between the ends are the blobs between them
only where the two orders agree: in Mode 1, for `K = 1`, and within one blob.

All positions are counted in blobs of `blobPayload` bytes of payload (`blobAt`): blob `q` of the
user data lies in user MDU `q / 64` and is blob `q % 64` there. `PlanSpec` says what the planner
answers in these terms, and `planned_session_iff` when the answer is right. `plan_misses_blobs` is a
plan for nine blobs that covers two.
-/

set_option autoImplicit false

namespace NilStore.Gateway

open NilStore.Lib NilStore.Chain

/-! ### Blobs and leaves -/

/-- The payload of a blob: 31 bytes for each of its 4096 scalars. -/
def blobPayload : Nat := 126976

/-- The blob of the user data that holds a byte. -/
def blobAt (byte : Nat) : Nat := byte / blobPayload

/-- A byte lies in the MDU of its blob. -/
theorem div_rawMduCapacity (byte : Nat) : byte / rawMduCapacity = blobAt byte / 64 := by
  rw [blobAt, Nat.div_div_eq_div_mul]
  rfl

/-- The blob of a byte inside its MDU. -/
theorem mod_rawMduCapacity_div (byte : Nat) :
    byte % rawMduCapacity / blobPayload = blobAt byte % 64 := by
  show byte % (blobPayload * 64) / blobPayload = byte / blobPayload % 64
  exact Nat.mod_mul_right_div_self byte blobPayload 64

/-- Every offset in an MDU has a blob. The function of the source counts the bytes as they are
encoded, 32 for each 31, and the blob comes out as the one of the raw bytes. -/
theorem rawOffsetToEncodedBlobIndex_ok {offset : UInt64} (h : offset.toNat < rawMduCapacity) :
    ∃ blob, rawOffsetToEncodedBlobIndex offset = .ok blob ∧
      blob.toNat = offset.toNat / blobPayload := by
  have h : offset.toNat < 8126464 := h
  have hpos : (offset / 31 * 32 + 1 + offset % 31).toNat =
      offset.toNat / 31 * 32 + 1 + offset.toNat % 31 := by
    simp only [UInt64.toNat_add, UInt64.toNat_mul, UInt64.toNat_div, UInt64.toNat_mod,
      UInt64.reduceToNat]
    omega
  have hblob : ((offset / 31 * 32 + 1 + offset % 31) / blobSizeBytes).toNat =
      offset.toNat / blobPayload := by
    rw [UInt64.toNat_div, hpos]
    show _ / 131072 = offset.toNat / 126976
    omega
  -- there are 64 blobs in an MDU
  have hlt : offset.toNat / blobPayload < 64 := by
    rw [blobPayload]
    omega
  refine ⟨((offset / 31 * 32 + 1 + offset % 31) / blobSizeBytes).toUInt32, ?_, ?_⟩
  -- so neither of its two checks fails
  · rw [rawOffsetToEncodedBlobIndex, if_neg, if_neg]
    · rw [ge_iff_le, UInt64.le_iff_toNat_le, hblob]
      show ¬64 ≤ _
      omega
    · rw [ge_iff_le, UInt64.le_iff_toNat_le]
      show ¬8126464 ≤ offset.toNat
      omega
  · rw [UInt64.toNat_toUInt32, hblob]
    omega

/-- The leaf of a blob, as a natural number. -/
def leafNumber (stripe : StripeParams) (blob : Nat) : Nat :=
  if stripe.mode = 2 then blob % stripe.k.toNat * stripe.rows.toNat +
    blob / stripe.k.toNat else blob

/-- A Mode 2 stripe of a deal: `K` columns by `64 / K` rows, and whole slots. -/
structure SlotStripe (stripe : StripeParams) : Prop where
  mode : stripe.mode = 2
  size : stripe.k.toNat * stripe.rows.toNat = 64
  slots : ∃ slotCount < 2 ^ 33, stripe.leafCount.toNat = slotCount * stripe.rows.toNat

/-- The rows that `64 / K` gives, for a divisor `K` of 64. -/
theorem SlotStripe.of_k {k : UInt64} {m slotCount : UInt64} (hdvd : 64 % k = 0) (hk : k ≠ 0)
    (hslots : slotCount.toNat < 2 ^ 33) :
    SlotStripe ⟨2, k, m, 64 / k, slotCount * (64 / k), slotCount⟩ := by
  have hk0 : k.toNat ≠ 0 := fun h0 => hk (UInt64.toNat_inj.mp h0)
  have hmod : 64 % k.toNat = 0 := by
    have htoNat := congrArg UInt64.toNat hdvd
    rwa [UInt64.toNat_mod] at htoNat
  have hrows : (64 / k).toNat = 64 / k.toNat := UInt64.toNat_div 64 k
  have hsize : k.toNat * (64 / k.toNat) = 64 := Nat.mul_div_cancel' (Nat.dvd_of_mod_eq_zero hmod)
  have hle : 64 / k.toNat ≤ 64 := Nat.div_le_self _ _
  refine ⟨rfl, ?_, slotCount.toNat, hslots, ?_⟩
  · show k.toNat * (64 / k).toNat = 64
    rw [hrows, hsize]
  · show (slotCount * (64 / k)).toNat = slotCount.toNat * (64 / k).toNat
    have hprod : slotCount.toNat * (64 / k.toNat) ≤ 2 ^ 33 * 64 := Nat.mul_le_mul hslots.le hle
    rw [UInt64.toNat_mul, hrows, Nat.mod_eq_of_lt (by omega)]

/-- The stripes that a deal can have: the one of Mode 1, or one with slots. A profile of the deal
counts before its hint. -/
theorem stripeParamsForDeal_cases {deal : Deal} {stripe : StripeParams}
    (h : stripeParamsForDeal deal = .ok stripe) :
    stripe = mode1StripeParams ∨ SlotStripe stripe := by
  rw [stripeParamsForDeal] at h
  split at h
  · -- A profile: both parts come from a `uint32`, so their sum does not wrap around.
    rename_i profile hprofile
    simp only at h
    split at h
    · cases h
    -- the check that 64 is a multiple of `K`
    · rename_i hnonzero
      split at h
      · cases h
      · rename_i hdvd
        cases h
        right
        refine .of_k (not_not.mp hdvd) (fun hk => hnonzero (Or.inl hk)) ?_
        have hk := profile.k.toNat_lt
        have hm := profile.m.toNat_lt
        rw [UInt64.toNat_add, UInt32.toNat_toUInt64, UInt32.toNat_toUInt64]
        omega
  · -- A hint: it is the one that the gateway reads.
    have hhint : stripeParamsFromHint deal.serviceHint = .ok stripe := h
    rcases stripeParamsFromHint_cases hhint with rfl | ⟨k, m, hk, hm, hrows, hsum, rfl⟩
    · exact Or.inl rfl
    · right
      have hsum : (k + m).toNat ≤ 12 := UInt64.le_iff_toNat_le.mp hsum
      exact .of_k hrows hk (by omega)

section Leaves

variable {stripe : StripeParams}

/-- A stripe has a data slot. -/
theorem SlotStripe.k_pos (hs : SlotStripe stripe) : 0 < stripe.k.toNat :=
  Nat.pos_of_mul_pos_right (Nat.lt_of_lt_of_eq (by decide) hs.size.symm)

/-- A stripe has a row. -/
theorem SlotStripe.rows_pos (hs : SlotStripe stripe) : 0 < stripe.rows.toNat :=
  Nat.pos_of_mul_pos_left (Nat.lt_of_lt_of_eq (by decide) hs.size.symm)

/-- In Mode 1 the leaves are numbered as the blobs are. -/
theorem leafNumber_mode1 (blob : Nat) : leafNumber mode1StripeParams blob = blob := rfl

/-- In a stripe the leaves are numbered slot by slot. -/
theorem SlotStripe.leafNumber_eq (hs : SlotStripe stripe) (blob : Nat) :
    leafNumber stripe blob = blob % stripe.k.toNat * stripe.rows.toNat + blob / stripe.k.toNat :=
  if_pos hs.mode

/-- The row of a blob. -/
theorem SlotStripe.row_lt (hs : SlotStripe stripe) {blob : Nat} (hblob : blob < 64) :
    blob / stripe.k.toNat < stripe.rows.toNat := by
  rw [Nat.div_lt_iff_lt_mul hs.k_pos, Nat.mul_comm, hs.size]
  exact hblob

/-- The slot of a blob's leaf is the column of the blob. -/
theorem SlotStripe.leafNumber_div (hs : SlotStripe stripe) {blob : Nat} (hblob : blob < 64) :
    leafNumber stripe blob / stripe.rows.toNat = blob % stripe.k.toNat := by
  rw [hs.leafNumber_eq, Nat.mul_comm, Nat.mul_add_div hs.rows_pos,
    Nat.div_eq_of_lt (hs.row_lt hblob), Nat.add_zero]

/-- A leaf number stays below 64. -/
theorem SlotStripe.leafNumber_lt (hs : SlotStripe stripe) {blob : Nat} (hblob : blob < 64) :
    leafNumber stripe blob < 64 := by
  have hcol : blob % stripe.k.toNat < stripe.k.toNat := Nat.mod_lt _ hs.k_pos
  have hslot := hs.leafNumber_div hblob
  have hlt : leafNumber stripe blob < stripe.k.toNat * stripe.rows.toNat := by
    rw [← Nat.div_lt_iff_lt_mul hs.rows_pos, hslot]
    exact hcol
  rwa [hs.size] at hlt

/-- With one column the leaves are in the order of the blobs. -/
theorem SlotStripe.leafNumber_of_one (hs : SlotStripe stripe) (hk : stripe.k = 1) (blob : Nat) :
    leafNumber stripe blob = blob := by
  rw [hs.leafNumber_eq, hk]
  show blob % 1 * stripe.rows.toNat + blob / 1 = blob
  rw [Nat.mod_one, Nat.zero_mul, Nat.zero_add, Nat.div_one]

/-- The blob after this one is in another column, so its leaf is not between two leaves of this
column. -/
theorem SlotStripe.leafNumber_succ_outside (hs : SlotStripe stripe) (hk : stripe.k ≠ 1)
    {blob last : Nat} (hblob : blob + 1 < 64) (hlast : last < 64)
    (hcol : last % stripe.k.toNat = blob % stripe.k.toNat) :
    ¬(leafNumber stripe blob ≤ leafNumber stripe (blob + 1) ∧
      leafNumber stripe (blob + 1) ≤ leafNumber stripe last) := by
  rintro ⟨hlow, hhigh⟩
  have hlow := Nat.div_le_div_right (c := stripe.rows.toNat) hlow
  have hhigh := Nat.div_le_div_right (c := stripe.rows.toNat) hhigh
  rw [hs.leafNumber_div (by omega), hs.leafNumber_div hblob] at hlow
  rw [hs.leafNumber_div hblob, hs.leafNumber_div hlast, hcol] at hhigh
  have hne : stripe.k.toNat ≠ 1 := fun h1 => hk (UInt64.toNat_inj.mp h1)
  have hsame : (blob + 1) % stripe.k.toNat = blob % stripe.k.toNat := le_antisymm hhigh hlow
  -- Two neighbours agree modulo `K` only for `K = 1`.
  have hdvd : stripe.k.toNat ∣ blob + 1 - blob := (Nat.modEq_iff_dvd' (by omega)).mp hsame.symm
  rw [Nat.add_sub_cancel_left] at hdvd
  exact hne (Nat.dvd_one.mp hdvd)

/-- `leafIndexForBlobIndex` computes the leaf number. Column and row are multiplied and added in 64
bits, far below their end. -/
theorem leafIndexForBlobIndex_ok (hs : stripe = mode1StripeParams ∨ SlotStripe stripe)
    {blob : UInt32} (hblob : blob.toNat < 64) :
    ∃ leaf, leafIndexForBlobIndex blob stripe = .ok leaf ∧
      leaf.toNat = leafNumber stripe blob.toNat := by
  -- in Mode 1 the leaf is the blob
  rcases hs with rfl | hs
  · exact ⟨blob.toUInt64, rfl, by rw [UInt32.toNat_toUInt64, leafNumber_mode1]⟩
  · have hk : stripe.k ≠ 0 := fun h0 => by
      have hpos := hs.k_pos
      rw [h0] at hpos
      exact absurd hpos (by decide)
    have hrows : stripe.rows ≠ 0 := fun h0 => by
      have hpos := hs.rows_pos
      rw [h0] at hpos
      exact absurd hpos (by decide)
    have hlt := hs.leafNumber_lt hblob
    rw [hs.leafNumber_eq] at hlt ⊢
    refine ⟨blob.toUInt64 % stripe.k * stripe.rows + blob.toUInt64 / stripe.k, ?_, ?_⟩
    · rw [leafIndexForBlobIndex, if_neg (not_not.mpr hs.mode), if_neg (by simp [hk, hrows])]
    · have hsum := hlt.trans (show 64 < 2 ^ 64 by decide)
      have hprod := (Nat.le_add_right _ _).trans_lt hsum
      rw [UInt64.toNat_add, UInt64.toNat_mul, UInt64.toNat_mod, UInt64.toNat_div,
        UInt32.toNat_toUInt64, Nat.mod_eq_of_lt hprod, Nat.mod_eq_of_lt hsum]

/-- `slotForLeafIndex` computes the slot. -/
theorem SlotStripe.slotForLeafIndex_eq (hs : SlotStripe stripe) (leaf : UInt64) :
    slotForLeafIndex leaf stripe = .ok (leaf / stripe.rows) := by
  have hrows : stripe.rows ≠ 0 := fun h0 => by
    have hpos := hs.rows_pos
    rw [h0] at hpos
    exact absurd hpos (by decide)
  rw [slotForLeafIndex, if_neg (not_not.mpr hs.mode), if_neg hrows]

end Leaves

/-- Every blob between those of two bytes has a byte between them. -/
theorem exists_byte {first last blob : Nat} (hlow : blobAt first ≤ blob)
    (hhigh : blob ≤ blobAt last)
    (hle : first ≤ last) : ∃ byte, blobAt byte = blob ∧ first ≤ byte ∧ byte ≤ last := by
  by_cases hfirst : blobAt first = blob
  · exact ⟨first, hfirst, le_rfl, hle⟩
  · -- The blob starts behind `first`, so its first byte does it.
    have hstart : first < blob * blobPayload := by
      rw [← Nat.div_lt_iff_lt_mul (by decide)]
      exact lt_of_le_of_ne hlow hfirst
    have hend : blob * blobPayload ≤ last := (Nat.le_div_iff_mul_le (by decide)).mp hhigh
    exact ⟨blob * blobPayload, Nat.mul_div_cancel blob (by decide), hstart.le, hend⟩

/-! ### Slabs and ranges -/

/-- A file of a committed slab, with the number of user MDUs: the file lies within these, and MDU #0
has a place for the root of every MDU. -/
structure SlabFile extends FileMeta where
  userMdus : Nat
  inUserMdus : startOffset.toNat + length.toNat ≤ userMdus * rawMduCapacity
  inTable : witnessCount.toNat + userMdus ≤ 65536

/-- The first byte of a range, counted in the user data. -/
def firstByte (file : FileMeta) (rangeStart : UInt64) : Nat :=
  file.startOffset.toNat + rangeStart.toNat

/-- Its last byte, after the range is cut off at the end of the file. -/
def lastByte (file : FileMeta) (rangeStart rangeLen : UInt64) : Nat :=
  firstByte file rangeStart + (clipRangeLen file rangeStart rangeLen).toNat - 1

/-- The position of a blob of the user data among the leaves of all MDUs. -/
def leafPosition (stripe : StripeParams) (file : FileMeta) (blob : Nat) : Nat :=
  (1 + file.witnessCount.toNat + blob / 64) * stripe.leafCount.toNat + leafNumber stripe (blob % 64)

/-- The first leaf of a plan, counted over all MDUs. -/
def SessionPlan.firstLeaf (plan : SessionPlan) (stripe : StripeParams) : Nat :=
  plan.startMduIndex.toNat * stripe.leafCount.toNat + plan.startBlobIndex.toNat

/-- A leaf that the plan asks for. -/
def SessionPlan.Contains (plan : SessionPlan) (stripe : StripeParams) (leaf : Nat) : Prop :=
  plan.firstLeaf stripe ≤ leaf ∧ leaf < plan.firstLeaf stripe + plan.blobCount.toNat

section Plan

variable {stripe : StripeParams} {file : FileMeta} {f : SlabFile} {rangeStart rangeLen : UInt64}

/-- A range that is not empty ends within its file. -/
theorem clipRangeLen_spec (rangeLen : UInt64) (h : rangeStart.toNat < file.length.toNat) :
    0 < (clipRangeLen file rangeStart rangeLen).toNat ∧
      rangeStart.toNat + (clipRangeLen file rangeStart rangeLen).toNat ≤ file.length.toNat := by
  have hrest : (file.length - rangeStart).toNat = file.length.toNat - rangeStart.toNat :=
    UInt64.toNat_sub_of_le _ _ (UInt64.le_iff_toNat_le.mpr h.le)
  rw [clipRangeLen]
  split
  · rw [hrest]
    omega
  · rename_i hkeep
    rw [not_or, UInt64.not_lt, UInt64.le_iff_toNat_le, hrest] at hkeep
    have hne : rangeLen.toNat ≠ 0 := fun h0 => hkeep.1 (UInt64.toNat_inj.mp h0)
    omega

/-- The blob that holds a byte of the file, and its MDU. -/
theorem blobOf_spec (witnessCount offset : UInt64) (hfits : 1 + witnessCount.toNat +
      offset.toNat / rawMduCapacity < 2 ^ 64) :
    (1 + witnessCount + offset / rawMduCapacityU64).toNat =
        1 + witnessCount.toNat + blobAt offset.toNat / 64 ∧
      ∃ blob, rawOffsetToEncodedBlobIndex (offset % rawMduCapacityU64) = .ok blob ∧
        blob.toNat = blobAt offset.toNat % 64 := by
  have hcapacity : rawMduCapacityU64.toNat = rawMduCapacity := by decide
  have hmod : (offset % rawMduCapacityU64).toNat = offset.toNat % rawMduCapacity := by
    rw [UInt64.toNat_mod, hcapacity]
  constructor
  · have hbase : 1 + witnessCount.toNat < 2 ^ 64 := (Nat.le_add_right _ _).trans_lt hfits
    rw [← div_rawMduCapacity, UInt64.toNat_add, UInt64.toNat_add, UInt64.toNat_div, hcapacity,
      UInt64.toNat_one, Nat.mod_eq_of_lt hbase, Nat.mod_eq_of_lt hfits]
  · have hlt : (offset % rawMduCapacityU64).toNat < rawMduCapacity := by
      rw [hmod]
      exact Nat.mod_lt _ (by decide)
    obtain ⟨blob, hblob, hnat⟩ := rawOffsetToEncodedBlobIndex_ok hlt
    exact ⟨blob, hblob, by rw [hnat, hmod, mod_rawMduCapacity_div]⟩

/-- The bytes of a file are within the user MDUs of its slab. -/
theorem SlabFile.blobAt_lt (f : SlabFile) {byte : Nat}
    (h : byte < f.startOffset.toNat + f.length.toNat) : blobAt byte / 64 < f.userMdus := by
  rw [← div_rawMduCapacity, Nat.div_lt_iff_lt_mul (by decide)]
  exact h.trans_le f.inUserMdus

/-- No computation with offsets of the file wraps around. -/
theorem SlabFile.end_lt (f : SlabFile) : f.startOffset.toNat + f.length.toNat < 2 ^ 40 := by
  have hend := f.inUserMdus
  have htable := f.inTable
  have hle : f.userMdus * rawMduCapacity ≤ 65536 * rawMduCapacity :=
    Nat.mul_le_mul_right _ (by omega)
  have hsize : 65536 * rawMduCapacity < 2 ^ 40 := by decide
  omega

/-- The MDU and the blob of a byte of the file, as the source computes them. -/
theorem SlabFile.blobOf (f : SlabFile) {offset : UInt64}
    (h : offset.toNat < f.startOffset.toNat + f.length.toNat) :
    (1 + f.witnessCount + offset / rawMduCapacityU64).toNat =
        1 + f.witnessCount.toNat + blobAt offset.toNat / 64 ∧
      ∃ blob, rawOffsetToEncodedBlobIndex (offset % rawMduCapacityU64) = .ok blob ∧
        blob.toNat = blobAt offset.toNat % 64 := by
  have hmdu := f.blobAt_lt h
  have htable := f.inTable
  refine blobOf_spec f.witnessCount offset ?_
  rw [div_rawMduCapacity]
  omega

/-- What a plan says, in blobs of the user data. -/
structure PlanSpec (stripe : StripeParams) (file : FileMeta) (rangeStart rangeLen : UInt64)
    (dealProviders : Except String (List Str)) (plan : SessionPlan) : Prop where
  inFile : rangeStart.toNat < file.length.toNat
  rangeStart_eq : plan.rangeStart = rangeStart
  rangeLen_eq : plan.rangeLen = clipRangeLen file rangeStart rangeLen
  startMdu : plan.startMduIndex.toNat =
    1 + file.witnessCount.toNat + blobAt (firstByte file rangeStart) / 64
  startLeaf : plan.startBlobIndex.toNat =
    leafNumber stripe (blobAt (firstByte file rangeStart) % 64)
  count_pos : 0 < plan.blobCount.toNat
  lastLeaf : plan.firstLeaf stripe + plan.blobCount.toNat =
    leafPosition stripe file (blobAt (lastByte file rangeStart rangeLen)) + 1
  column : stripe.mode = 2 → blobAt (lastByte file rangeStart rangeLen) % 64 % stripe.k.toNat =
    blobAt (firstByte file rangeStart) % 64 % stripe.k.toNat
  slotProvider : stripe.mode = 2 → ∃ providers provider, dealProviders = .ok providers ∧
    providers[blobAt (firstByte file rangeStart) % 64 % stripe.k.toNat]? = some provider ∧
      plan.provider = trimSpace provider

/-- The leaves that `endLeaves` takes the blobs of both ends to, and the slot. In Mode 2 it fails
when the two ends are in different slots. -/
theorem endLeaves_ok (hs : stripe = mode1StripeParams ∨ SlotStripe stripe) {blobs ends : RangeEnds}
    {slot : UInt64} (hstart : blobs.startBlob.toNat < 64) (hend : blobs.endBlob.toNat < 64)
    (h : endLeaves stripe blobs = .ok (slot, ends)) :
    ends.startMdu = blobs.startMdu ∧ ends.endMdu = blobs.endMdu ∧
      ends.startBlob.toNat = leafNumber stripe blobs.startBlob.toNat ∧
      ends.endBlob.toNat = leafNumber stripe blobs.endBlob.toNat ∧
      (stripe.mode = 2 → slot.toNat = blobs.startBlob.toNat % stripe.k.toNat ∧
        blobs.endBlob.toNat % stripe.k.toNat = blobs.startBlob.toNat % stripe.k.toNat) := by
  -- Mode 1 leaves the blobs as they are
  rcases hs with rfl | hs
  · cases h
    exact ⟨rfl, rfl, rfl, rfl, fun hmode => absurd hmode (by decide)⟩
  · obtain ⟨startLeaf, hstartLeaf, hstartNat⟩ := leafIndexForBlobIndex_ok (Or.inr hs) hstart
    obtain ⟨endLeaf, hendLeaf, hendNat⟩ := leafIndexForBlobIndex_ok (Or.inr hs) hend
    have hstartLt := hs.leafNumber_lt hstart
    have hendLt := hs.leafNumber_lt hend
    rw [endLeaves, if_pos hs.mode] at h
    simp only [hstartLeaf, hendLeaf, hs.slotForLeafIndex_eq, except_bind_ok, mapError_eq_ok,
      rejectIf_eq_ok, not_not] at h
    obtain ⟨_, hleaf₁, _, hleaf₂, _, hslot₁, _, hslot₂, _, hsame, hret⟩ := h
    cases hleaf₁
    cases hleaf₂
    cases hslot₁
    cases hslot₂
    cases hret
    -- the slot of a leaf is the column of its blob
    have hslotNat : (startLeaf / stripe.rows).toNat = blobs.startBlob.toNat % stripe.k.toNat := by
      rw [UInt64.toNat_div, hstartNat, hs.leafNumber_div hstart]
    have hendSlotNat : (endLeaf / stripe.rows).toNat = blobs.endBlob.toNat % stripe.k.toNat := by
      rw [UInt64.toNat_div, hendNat, hs.leafNumber_div hend]
    refine ⟨rfl, rfl, ?_, ?_, fun _ => ⟨hslotNat, ?_⟩⟩
    · show startLeaf.toUInt32.toNat = _
      rw [UInt64.toNat_toUInt32, hstartNat]
      omega
    · show endLeaf.toUInt32.toNat = _
      rw [UInt64.toNat_toUInt32, hendNat]
      omega
    · rw [← hendSlotNat, ← hslotNat, hsame]

/-- The leaf count of a stripe has less than 40 bits. -/
theorem leafCount_lt (hs : stripe = mode1StripeParams ∨ SlotStripe stripe) :
    stripe.leafCount.toNat < 2 ^ 40 := by
  rcases hs with rfl | hs
  · decide
  · obtain ⟨slotCount, hlt, hleaf⟩ := hs.slots
    have hrows : stripe.rows.toNat ≤ 64 := by
      have hsize := hs.size
      exact Nat.le_of_dvd (by decide) ⟨stripe.k.toNat, by rw [Nat.mul_comm, hsize]⟩
    have hprod := Nat.mul_le_mul hlt.le hrows
    omega

/-- No position of a leaf wraps around. -/
theorem leafPosition_lt (hs : stripe = mode1StripeParams ∨ SlotStripe stripe) {mdu leaf : Nat}
    (hmdu : mdu ≤ 65536) (hleaf : leaf < 64) : mdu * stripe.leafCount.toNat + leaf < 2 ^ 60 := by
  have hprod := Nat.mul_le_mul hmdu (leafCount_lt hs).le
  omega

/-- A leaf number stays below 64, for both kinds of stripe. -/
theorem leafNumber_lt (hs : stripe = mode1StripeParams ∨ SlotStripe stripe) {blob : Nat}
    (hblob : blob < 64) : leafNumber stripe blob < 64 := by
  rcases hs with rfl | hs
  · exact hblob
  · exact hs.leafNumber_lt hblob

/-- The blobs of the first and the last byte of the range. The range is cut to the file before, so
both bytes are bytes of the file. -/
theorem endBlobs_spec (hin : rangeStart.toNat < f.length.toNat) {blobs : RangeEnds}
    (h : endBlobs f.toFileMeta rangeStart (clipRangeLen f.toFileMeta rangeStart rangeLen) =
      .ok blobs) :
    blobs.startMdu.toNat =
        1 + f.witnessCount.toNat + blobAt (firstByte f.toFileMeta rangeStart) / 64 ∧
      blobs.endMdu.toNat =
        1 + f.witnessCount.toNat + blobAt (lastByte f.toFileMeta rangeStart rangeLen) / 64 ∧
      blobs.startBlob.toNat = blobAt (firstByte f.toFileMeta rangeStart) % 64 ∧
      blobs.endBlob.toNat = blobAt (lastByte f.toFileMeta rangeStart rangeLen) % 64 := by
  obtain ⟨hlenPos, hlenEnd⟩ := clipRangeLen_spec rangeLen hin
  have hfile := f.end_lt
  have hfirst : (f.startOffset + rangeStart).toNat = firstByte f.toFileMeta rangeStart := by
    rw [UInt64.toNat_add, firstByte]
    omega
  have hlast :
      (f.startOffset + rangeStart + clipRangeLen f.toFileMeta rangeStart rangeLen - 1).toNat =
      lastByte f.toFileMeta rangeStart rangeLen := by
    have hsum : (f.startOffset + rangeStart + clipRangeLen f.toFileMeta rangeStart rangeLen).toNat =
        firstByte f.toFileMeta rangeStart +
          (clipRangeLen f.toFileMeta rangeStart rangeLen).toNat := by
      rw [UInt64.toNat_add, hfirst, firstByte]
      omega
    rw [lastByte, UInt64.toNat_sub_of_le, hsum, UInt64.toNat_one]
    rw [UInt64.le_iff_toNat_le, hsum, UInt64.toNat_one]
    omega
  -- the blob of the first byte, and that of the last
  obtain ⟨hstartMdu, startBlob, hstartBlob, hstartNat⟩ :=
    f.blobOf (show (f.startOffset + rangeStart).toNat < _ by rw [hfirst, firstByte]; omega)
  obtain ⟨hendMdu, endBlob, hendBlob, hendNat⟩ :=
    f.blobOf (show (f.startOffset + rangeStart + clipRangeLen f.toFileMeta rangeStart rangeLen
      - 1).toNat < _ by rw [hlast, lastByte, firstByte]; omega)
  rw [hfirst] at hstartMdu hstartNat
  rw [hlast] at hendMdu hendNat
  simp only [endBlobs, except_bind_ok, mapError_eq_ok, hstartBlob, hendBlob] at h
  obtain ⟨_, hblob₁, _, hblob₂, hret⟩ := h
  cases hblob₁
  cases hblob₂
  cases hret
  exact ⟨hstartMdu, hendMdu, hstartNat, hendNat⟩

/-- Every plan for a file of a slab is as `PlanSpec` says: it begins at the leaf of the first byte
and ends at the leaf of the last, and in Mode 2 both are in the slot of the provider. -/
theorem planRange_spec (hs : stripe = mode1StripeParams ∨ SlotStripe stripe)
    {cached : Str} {dealProviders : Except String (List Str)} {plan : SessionPlan}
    (h : planRange stripe f.toFileMeta rangeStart rangeLen cached dealProviders = .ok plan) :
    PlanSpec stripe f.toFileMeta rangeStart rangeLen dealProviders plan := by
  simp only [planRange, clipRange, except_bind_ok, rejectIf_eq_ok] at h
  obtain ⟨len, ⟨_, -, _, hin, hlen⟩, blobs, hblobs, ⟨slot, ends⟩, hends, _, horder, provider,
    -- the range is cut to the file
    hprovider, hplan⟩ := h
  cases hlen
  rw [ge_iff_le, UInt64.le_iff_toNat_le, Nat.not_le] at hin
  obtain ⟨hstartMdu, hendMdu, hstartBlob, hendBlob⟩ := endBlobs_spec hin hblobs
  have hstartLt : blobs.startBlob.toNat < 64 := by omega
  have hendLt : blobs.endBlob.toNat < 64 := by omega
  -- the two ends, as leaves
  obtain ⟨hmdu₁, hmdu₂, hleaf₁, hleaf₂, hslot⟩ := endLeaves_ok hs hstartLt hendLt hends
  -- Both positions are small, so comparing and subtracting them is exact.
  obtain ⟨hlenPos, hlenEnd⟩ := clipRangeLen_spec rangeLen hin
  have htable := f.inTable
  have hfirstMdu : blobAt (firstByte f.toFileMeta rangeStart) / 64 < f.userMdus :=
    f.blobAt_lt (by rw [firstByte]; omega)
  have hlastMdu : blobAt (lastByte f.toFileMeta rangeStart rangeLen) / 64 < f.userMdus :=
    f.blobAt_lt (by rw [lastByte, firstByte]; omega)
  have hposition : ∀ (mdu : UInt64) (leaf : UInt32), mdu.toNat ≤ 65536 → leaf.toNat < 64 →
      (mdu * stripe.leafCount + leaf.toUInt64).toNat =
        mdu.toNat * stripe.leafCount.toNat + leaf.toNat := by
    intro mdu leaf hmdu hleaf
    have hlt := leafPosition_lt hs hmdu hleaf
    have hprod := (Nat.le_add_right _ _).trans_lt hlt
    rw [UInt64.toNat_add, UInt64.toNat_mul, UInt32.toNat_toUInt64, Nat.mod_eq_of_lt (by omega),
      Nat.mod_eq_of_lt (by omega)]
  -- both ends are in the slab
  have hstartBound : ends.startMdu.toNat ≤ 65536 ∧ ends.startBlob.toNat < 64 := by
    refine ⟨?_, ?_⟩
    · rw [hmdu₁, hstartMdu]
      omega
    · rw [hleaf₁]
      exact leafNumber_lt hs hstartLt
  have hendBound : ends.endMdu.toNat ≤ 65536 ∧ ends.endBlob.toNat < 64 := by
    refine ⟨?_, ?_⟩
    · rw [hmdu₂, hendMdu]
      omega
    · rw [hleaf₂]
      exact leafNumber_lt hs hendLt
  have hstartPos := hposition _ _ hstartBound.1 hstartBound.2
  have hendPos := hposition _ _ hendBound.1 hendBound.2
  have hendSmall := leafPosition_lt hs hendBound.1 hendBound.2
  have horder : ends.startMdu * stripe.leafCount + ends.startBlob.toUInt64 ≤
      ends.endMdu * stripe.leafCount + ends.endBlob.toUInt64 := UInt64.not_lt.mp horder
  have hle := UInt64.le_iff_toNat_le.mp horder
  -- the count of leaves, from the first to the last
  have hcount : (ends.endMdu * stripe.leafCount + ends.endBlob.toUInt64 -
      (ends.startMdu * stripe.leafCount + ends.startBlob.toUInt64) + 1).toNat =
      (ends.endMdu * stripe.leafCount + ends.endBlob.toUInt64).toNat -
        (ends.startMdu * stripe.leafCount + ends.startBlob.toUInt64).toNat + 1 := by
    rw [UInt64.toNat_add, UInt64.toNat_sub_of_le _ _ horder, UInt64.toNat_one]
    omega
  cases hplan
  exact
    { inFile := hin
      rangeStart_eq := rfl
      rangeLen_eq := rfl
      startMdu := (congrArg UInt64.toNat hmdu₁).trans hstartMdu
      startLeaf := by
        rw [← hstartBlob]
        exact hleaf₁
      count_pos := by
        show 0 < UInt64.toNat _
        rw [hcount]
        exact Nat.succ_pos _
      lastLeaf := by
        show ends.startMdu.toNat * stripe.leafCount.toNat + ends.startBlob.toNat + UInt64.toNat _ =
          _
        rw [hcount, ← hstartPos, leafPosition, ← hendMdu, ← hendBlob, ← hleaf₂, ← hmdu₂, ← hendPos]
        omega
      column := by
        intro hmode
        rw [← hendBlob, ← hstartBlob]
        exact (hslot hmode).2
      slotProvider := by
        intro hmode
        rw [planProvider, if_pos hmode] at hprovider
        simp only [except_bind_ok, mapError_eq_ok, orFail_eq_ok] at hprovider
        obtain ⟨providers, hproviders, listed, hlisted, hret⟩ := hprovider
        cases hret
        rw [(hslot hmode).1, hstartBlob] at hlisted
        exact ⟨providers, listed, hproviders, hlisted, rfl⟩ }

/-! ### When a plan is right -/

/-- Every byte of the planned range has its leaf in the plan. -/
def Covers (stripe : StripeParams) (file : FileMeta) (plan : SessionPlan) : Prop :=
  ∀ offset : UInt64, plan.rangeStart ≤ offset →
    offset.toNat < plan.rangeStart.toNat + plan.rangeLen.toNat →
    ∃ blob leaf, rawOffsetToEncodedBlobIndex ((file.startOffset + offset) % rawMduCapacityU64) =
        .ok blob ∧ leafIndexForBlobIndex blob stripe = .ok leaf ∧
      plan.Contains stripe
        ((1 + file.witnessCount + (file.startOffset + offset) / rawMduCapacityU64).toNat *
          stripe.leafCount.toNat + leaf.toNat)

/-- In Mode 2 every leaf of the plan lies in the slot of the provider. -/
def InProviderSlot (stripe : StripeParams) (deal : Deal) (plan : SessionPlan) : Prop :=
  stripe.mode = 2 → ∃ slot, providerSlotIndex deal plan.provider = some slot ∧
    ∀ leaf, plan.Contains stripe leaf →
      slotForLeafIndex (.ofNat (leaf % stripe.leafCount.toNat)) stripe = .ok slot

/-- The provider list that the planner reads is in the order of the deal's slots. -/
def SlotOrder (deal : Deal) (dealProviders : Except String (List Str)) : Prop :=
  ∀ providers, dealProviders = .ok providers → ∀ (slot : Nat) (provider : Str),
    providers[slot]? = some provider →
    ∃ index, providerSlotIndex deal (trimSpace provider) = some index ∧ index.toNat = slot

/-- The session that a plan is for. -/
structure RequestsPlan (plan : SessionPlan) (msg : MsgOpenRetrievalSession) : Prop where
  provider : msg.provider = plan.provider
  startMduIndex : msg.startMduIndex = plan.startMduIndex
  startBlobIndex : msg.startBlobIndex = plan.startBlobIndex
  blobCount : msg.blobCount = plan.blobCount

/-- A plan that covers its range, within the slot of its provider, and that can be opened. -/
structure PlanWorks (stripe : StripeParams) (file : FileMeta) (deal : Deal) (plan : SessionPlan) :
    Prop where
  covers : Covers stripe file plan
  inSlot : InProviderSlot stripe deal plan
  accepted : ∀ msg, RequestsPlan plan msg → checkBlobRange deal stripe msg = .ok ()

/-- The ranges that can be planned: in Mode 1 all; in Mode 2 those in one blob, or for `K = 1` in
one MDU. Opening compares the first leaf with the lower half of the leaf count, which in Mode 2 has
to reach above it. -/
def Plannable (stripe : StripeParams) (file : FileMeta) (rangeStart rangeLen : UInt64) : Prop :=
  stripe.mode = 2 →
    (blobAt (firstByte file rangeStart) = blobAt (lastByte file rangeStart rangeLen) ∨
      stripe.k = 1 ∧ blobAt (firstByte file rangeStart) / 64 =
        blobAt (lastByte file rangeStart rangeLen) / 64) ∧
    leafNumber stripe (blobAt (firstByte file rangeStart) % 64) < stripe.leafCount.toUInt32.toNat

variable {deal : Deal} {dealProviders : Except String (List Str)} {plan : SessionPlan}
  {msg : MsgOpenRetrievalSession}

/-- What the check of the slots comes down to, for a range that does not wrap around: the last leaf
is in the stripe, in the slot of the first, and this is the slot of the provider. -/
theorem checkSlotRange_iff (hs : SlotStripe stripe)
    (hsmall : msg.startBlobIndex.toNat + msg.blobCount.toNat < 2 ^ 64) {last : Nat}
    (hlast : msg.startBlobIndex.toNat + msg.blobCount.toNat = last + 1) :
    checkSlotRange deal stripe msg = .ok () ↔ last < stripe.leafCount.toNat ∧
      msg.startBlobIndex.toNat / stripe.rows.toNat = last / stripe.rows.toNat ∧
      ∃ slot, providerSlotIndex deal msg.provider = some slot ∧
        slot.toNat = msg.startBlobIndex.toNat / stripe.rows.toNat := by
  have hrows : stripe.rows ≠ 0 := fun h0 => by
    have hpos := hs.rows_pos
    rw [h0] at hpos
    exact absurd hpos (by decide)
  -- the last leaf is computed without wrapping
  have hend : (msg.startBlobIndex.toUInt64 + msg.blobCount - 1).toNat = last := by
    have hsum : (msg.startBlobIndex.toUInt64 + msg.blobCount).toNat = last + 1 := by
      rw [UInt64.toNat_add, UInt32.toNat_toUInt64, Nat.mod_eq_of_lt hsmall, hlast]
    rw [UInt64.toNat_sub_of_le, hsum, UInt64.toNat_one, Nat.add_sub_cancel]
    rw [UInt64.le_iff_toNat_le, hsum, UInt64.toNat_one]
    omega
  have hslot : ∀ leaf : UInt64, leafSlotIndex leaf stripe.rows = .ok (leaf / stripe.rows) :=
    fun leaf => if_neg hrows
  have hstartSlot : (msg.startBlobIndex.toUInt64 / stripe.rows).toNat =
      msg.startBlobIndex.toNat / stripe.rows.toNat := by
    rw [UInt64.toNat_div, UInt32.toNat_toUInt64]
  simp only [checkSlotRange, except_bind_ok, rejectIf_eq_ok, mapError_eq_ok, hslot, not_not,
    ge_iff_le, UInt64.not_le]
  -- the checks in their order
  constructor
  · rintro ⟨_, hlt, _, hslot₁, _, hslot₂, _, hsame, hprovider⟩
    cases hslot₁
    cases hslot₂
    have hlt := UInt64.lt_iff_toNat_lt.mp hlt
    have hsame := congrArg UInt64.toNat hsame
    rw [hend] at hlt
    rw [hstartSlot, UInt64.toNat_div, hend] at hsame
    exact ⟨hlt, hsame, _, hprovider, hstartSlot⟩
  · rintro ⟨hlt, hsame, slot, hprovider, hnat⟩
    refine ⟨(), ?_, _, rfl, _, rfl, (), ?_, ?_⟩
    · rw [UInt64.lt_iff_toNat_lt, hend]
      exact hlt
    · rw [← UInt64.toNat_inj, hstartSlot, UInt64.toNat_div, hend]
      exact hsame
    · rw [hprovider, ← UInt64.toNat_inj.mp (hnat.trans hstartSlot.symm)]

/-- The parts of the range check. The check of the slots is made in Mode 2 only, and that of the
content only where the deal counts its MDUs. -/
theorem checkBlobRange_iff : checkBlobRange deal stripe msg = .ok () ↔
    msg.startBlobIndex < stripe.leafCount.toUInt32 ∧
      (msg.startMduIndex * stripe.leafCount + msg.startBlobIndex.toUInt64).toNat +
        msg.blobCount.toNat < 2 ^ 64 ∧
      (stripe.mode = 2 → checkSlotRange deal stripe msg = .ok ()) ∧
      (deal.totalMdus ≠ 0 → msg.startMduIndex < deal.totalMdus ∧
        msg.startMduIndex * stripe.leafCount + msg.startBlobIndex.toUInt64 + msg.blobCount ≤
          deal.totalMdus * stripe.leafCount) := by
  rw [← addUint64_overflow]
  -- the last part, with its condition inside
  have hcontent : (if deal.totalMdus ≠ 0 then do
        rejectIf (msg.startMduIndex ≥ deal.totalMdus)
          (errInvalidRequest "start_mdu_index out of range")
        rejectIf ((addUint64 (msg.startMduIndex * stripe.leafCount + msg.startBlobIndex.toUInt64)
            msg.blobCount).1 > deal.totalMdus * stripe.leafCount)
          (errInvalidRequest "blob range exceeds deal content")
      else pure () : Except Fault Unit) = .ok () ↔
      (deal.totalMdus ≠ 0 → msg.startMduIndex < deal.totalMdus ∧
        msg.startMduIndex * stripe.leafCount + msg.startBlobIndex.toUInt64 + msg.blobCount ≤
          deal.totalMdus * stripe.leafCount) := by
    split
    · rename_i hne
      simp [except_bind_ok, hne, addUint64]
    · rename_i heq
      simp [not_not.mp heq]
      rfl
  -- with the check of the slots, or without it
  by_cases hmode : stripe.mode = 2
  · simp only [checkBlobRange, except_bind_ok, rejectIf_eq_ok, if_pos hmode]
    constructor
    · rintro ⟨_, hstart, _, hoverflow, _, hslots, hrest⟩
      exact ⟨UInt32.not_le.mp hstart, Bool.eq_false_iff.mpr hoverflow, fun _ => hslots,
        hcontent.mp hrest⟩
    · rintro ⟨hstart, hoverflow, hslots, hrest⟩
      exact ⟨(), UInt32.not_le.mpr hstart, (), Bool.eq_false_iff.mp hoverflow, (), hslots hmode,
        hcontent.mpr hrest⟩
  · simp only [checkBlobRange, except_bind_ok, rejectIf_eq_ok, if_neg hmode]
    constructor
    · rintro ⟨_, hstart, _, hoverflow, hrest⟩
      exact ⟨UInt32.not_le.mp hstart, Bool.eq_false_iff.mpr hoverflow, fun h => absurd h hmode,
        hcontent.mp hrest⟩
    · rintro ⟨hstart, hoverflow, -, hrest⟩
      exact ⟨(), UInt32.not_le.mpr hstart, (), Bool.eq_false_iff.mp hoverflow, hcontent.mpr hrest⟩

section Spec

variable (hspec : PlanSpec stripe f.toFileMeta rangeStart rangeLen dealProviders plan)
include hspec

/-- The planned range is not empty. -/
theorem PlanSpec.bytes_le :
    firstByte f.toFileMeta rangeStart ≤ lastByte f.toFileMeta rangeStart rangeLen := by
  obtain ⟨hpos, -⟩ := clipRangeLen_spec rangeLen hspec.inFile
  rw [lastByte]
  omega

/-- A range ends behind its start. -/
theorem PlanSpec.ends_le : blobAt (firstByte f.toFileMeta rangeStart) ≤
    blobAt (lastByte f.toFileMeta rangeStart rangeLen) :=
  Nat.div_le_div_right hspec.bytes_le

/-- The blob of the last byte is in the slab. -/
theorem PlanSpec.lastMdu_lt :
    blobAt (lastByte f.toFileMeta rangeStart rangeLen) / 64 < f.userMdus := by
  obtain ⟨hpos, hend⟩ := clipRangeLen_spec rangeLen hspec.inFile
  refine f.blobAt_lt ?_
  rw [lastByte, firstByte]
  omega

/-- The first leaf of the plan is that of the blob its first byte lies in. -/
theorem PlanSpec.firstLeaf_eq : plan.firstLeaf stripe =
    leafPosition stripe f.toFileMeta (blobAt (firstByte f.toFileMeta rangeStart)) := by
  rw [SessionPlan.firstLeaf, hspec.startMdu, hspec.startLeaf, leafPosition]

/-- A plan asks for the leaves from the first blob's to the last blob's. -/
theorem PlanSpec.contains_iff {leaf : Nat} : plan.Contains stripe leaf ↔
    leafPosition stripe f.toFileMeta (blobAt (firstByte f.toFileMeta rangeStart)) ≤ leaf ∧
      leaf ≤ leafPosition stripe f.toFileMeta
        (blobAt (lastByte f.toFileMeta rangeStart rangeLen)) := by
  rw [SessionPlan.Contains, hspec.lastLeaf, hspec.firstLeaf_eq, Nat.lt_succ_iff]

/-- Covering all bytes of the range is covering all blobs from the first to the last, since every
blob between them has a byte of the range. -/
theorem PlanSpec.covers_iff (hs : stripe = mode1StripeParams ∨ SlotStripe stripe) :
    Covers stripe f.toFileMeta plan ↔
      ∀ blob, blobAt (firstByte f.toFileMeta rangeStart) ≤ blob →
        blob ≤ blobAt (lastByte f.toFileMeta rangeStart rangeLen) →
        plan.Contains stripe (leafPosition stripe f.toFileMeta blob) := by
  obtain ⟨hpos, hend⟩ := clipRangeLen_spec rangeLen hspec.inFile
  have hfile := f.end_lt
  -- Where a byte of the file lies, in the source's terms.
  have hplace : ∀ offset : UInt64, offset.toNat < f.length.toNat →
      (f.startOffset + offset).toNat = f.startOffset.toNat + offset.toNat ∧
      ∃ blob leaf, rawOffsetToEncodedBlobIndex ((f.startOffset + offset) % rawMduCapacityU64) =
          .ok blob ∧ leafIndexForBlobIndex blob stripe = .ok leaf ∧
        (1 + f.witnessCount + (f.startOffset + offset) / rawMduCapacityU64).toNat *
            stripe.leafCount.toNat + leaf.toNat =
          leafPosition stripe f.toFileMeta (blobAt (f.startOffset.toNat + offset.toNat)) := by
    intro offset hoffset
    have hsum : (f.startOffset + offset).toNat = f.startOffset.toNat + offset.toNat := by
      rw [UInt64.toNat_add]
      omega
    obtain ⟨hmdu, blob, hblob, hnat⟩ :=
      f.blobOf (show (f.startOffset + offset).toNat < _ by omega)
    obtain ⟨leaf, hleaf, hleafNat⟩ := leafIndexForBlobIndex_ok hs
      (show blob.toNat < 64 by omega)
    rw [hsum] at hmdu hnat
    exact ⟨hsum, blob, leaf, hblob, hleaf, by rw [hmdu, hleafNat, hnat, leafPosition]⟩
  constructor
  -- a blob of the range has a byte in it
  · intro hcovers blob hlow hhigh
    obtain ⟨byte, hbyte, hge, hle⟩ := exists_byte hlow hhigh hspec.bytes_le
    -- The offset of that byte in the file.
    have hoffset : (UInt64.ofNat (byte - f.startOffset.toNat)).toNat =
        byte - f.startOffset.toNat := by
      rw [UInt64.toNat_ofNat', Nat.mod_eq_of_lt]
      rw [lastByte, firstByte] at hle
      omega
    rw [lastByte] at hle
    rw [firstByte] at hge hle
    obtain ⟨hsum, _, _, hblob, hleaf, hposition⟩ :=
      hplace (.ofNat (byte - f.startOffset.toNat)) (by omega)
    obtain ⟨_, _, hblob', hleaf', hcontains⟩ := hcovers (.ofNat (byte - f.startOffset.toNat))
      (by rw [hspec.rangeStart_eq, UInt64.le_iff_toNat_le]; omega)
      (by rw [hspec.rangeStart_eq, hspec.rangeLen_eq]; omega)
    rw [hblob] at hblob'
    cases hblob'
    rw [hleaf] at hleaf'
    cases hleaf'
    have hback : f.startOffset.toNat + (UInt64.ofNat (byte - f.startOffset.toNat)).toNat =
        byte := by
      omega
    rwa [hposition, hback, hbyte] at hcontains
  -- and a byte of the range is in one of the blobs
  · intro hblobs offset hlow hhigh
    rw [hspec.rangeStart_eq, UInt64.le_iff_toNat_le] at hlow
    rw [hspec.rangeStart_eq, hspec.rangeLen_eq] at hhigh
    obtain ⟨hsum, blob, leaf, hblob, hleaf, hposition⟩ := hplace offset (by omega)
    refine ⟨blob, leaf, hblob, hleaf, ?_⟩
    rw [hposition]
    refine hblobs _ (Nat.div_le_div_right ?_) (Nat.div_le_div_right ?_)
    · rw [firstByte]
      omega
    · rw [lastByte, firstByte]
      omega

/-- The number of the first leaf, as opening computes it. -/
theorem PlanSpec.startGlobal (hs : stripe = mode1StripeParams ∨ SlotStripe stripe) :
    (plan.startMduIndex * stripe.leafCount + plan.startBlobIndex.toUInt64).toNat =
      plan.firstLeaf stripe ∧
    plan.firstLeaf stripe + plan.blobCount.toNat < 2 ^ 61 := by
  have hlast := hspec.lastMdu_lt
  have hends := hspec.ends_le
  have htable := f.inTable
  have hfirst : plan.firstLeaf stripe < 2 ^ 60 := by
    rw [hspec.firstLeaf_eq, leafPosition]
    exact leafPosition_lt hs (by omega) (leafNumber_lt hs (Nat.mod_lt _ (by decide)))
  have hend : plan.firstLeaf stripe + plan.blobCount.toNat < 2 ^ 60 + 1 := by
    rw [hspec.lastLeaf, leafPosition]
    exact Nat.succ_lt_succ
      (leafPosition_lt hs (by omega) (leafNumber_lt hs (Nat.mod_lt _ (by decide))))
  rw [SessionPlan.firstLeaf] at hfirst hend ⊢
  refine ⟨?_, by omega⟩
  rw [UInt64.toNat_add, UInt64.toNat_mul, UInt32.toNat_toUInt64, Nat.mod_eq_of_lt (by omega),
    Nat.mod_eq_of_lt (by omega)]

/-- The check of the content passes: the file is in the slab, and the deal counts the MDUs of the
slab. -/
theorem PlanSpec.inContent (hs : stripe = mode1StripeParams ∨ SlotStripe stripe)
    (hfits : leafNumber stripe (blobAt (lastByte f.toFileMeta rangeStart rangeLen) % 64) <
      stripe.leafCount.toNat)
    (hcontent : deal.totalMdus = 0 ∨
      deal.totalMdus.toNat = 1 + f.witnessCount.toNat + f.userMdus) :
    deal.totalMdus ≠ 0 → plan.startMduIndex < deal.totalMdus ∧
      plan.startMduIndex * stripe.leafCount + plan.startBlobIndex.toUInt64 + plan.blobCount ≤
        deal.totalMdus * stripe.leafCount := by
  intro hne
  -- the deal counts its MDUs, so they are those of the slab
  have htotal := hcontent.resolve_left hne
  have hlast := hspec.lastMdu_lt
  have hends := hspec.ends_le
  have htable := f.inTable
  obtain ⟨hglobal, hsmall⟩ := hspec.startGlobal hs
  refine ⟨?_, ?_⟩
  · rw [UInt64.lt_iff_toNat_lt, hspec.startMdu, htotal]
    omega
  · -- The last leaf is in the last MDU or before it.
    have hprod :
        (1 + f.witnessCount.toNat + blobAt (lastByte f.toFileMeta rangeStart rangeLen) / 64 +
        1) * stripe.leafCount.toNat ≤ deal.totalMdus.toNat * stripe.leafCount.toNat :=
      Nat.mul_le_mul_right _ (by omega)
    rw [Nat.add_mul, Nat.one_mul] at hprod
    have hmax : deal.totalMdus.toNat * stripe.leafCount.toNat ≤ 65537 * 2 ^ 40 :=
      Nat.mul_le_mul (by omega) (leafCount_lt hs).le
    have hend := hspec.lastLeaf
    rw [leafPosition] at hend
    rw [UInt64.le_iff_toNat_le, UInt64.toNat_add, hglobal, UInt64.toNat_mul,
      Nat.mod_eq_of_lt (by omega), Nat.mod_eq_of_lt (by omega)]
    omega

/-- In Mode 1 every plan works: there are no slots, and the leaves from the first to the last are
the blobs between. -/
theorem PlanSpec.works_mode1 (hs : stripe = mode1StripeParams)
    (hcontent : deal.totalMdus = 0 ∨
      deal.totalMdus.toNat = 1 + f.witnessCount.toNat + f.userMdus) :
    PlanWorks stripe f.toFileMeta deal plan where
  covers := by
    rw [hspec.covers_iff (Or.inl hs)]
    intro blob hlow hhigh
    -- Leaves are in the order of the blobs.
    have hposition : ∀ b, leafPosition stripe f.toFileMeta b =
        (1 + f.witnessCount.toNat + b / 64) * 64 + b % 64 := by
      rw [hs]
      intro b
      rfl
    rw [hspec.contains_iff, hposition, hposition, hposition]
    omega
  inSlot := by
    intro hmode
    rw [hs] at hmode
    exact absurd hmode (by decide)
  accepted := by
    intro msg hmsg
    obtain ⟨hglobal, hsmall⟩ := hspec.startGlobal (Or.inl hs)
    have hstart := hspec.startLeaf
    -- every leaf is one of the MDU
    have hfits : leafNumber stripe (blobAt (lastByte f.toFileMeta rangeStart rangeLen) % 64) <
        stripe.leafCount.toNat := by
      rw [hs]
      exact Nat.mod_lt _ (by decide)
    have hcheck := hspec.inContent (Or.inl hs) hfits hcontent
    rw [checkBlobRange_iff, hmsg.startMduIndex, hmsg.startBlobIndex, hmsg.blobCount, hglobal]
    refine ⟨?_, by omega, ?_, hcheck⟩
    · rw [UInt32.lt_iff_toNat_lt, hstart, hs]
      exact Nat.mod_lt _ (by decide)
    · intro hmode
      rw [hs] at hmode
      exact absurd hmode (by decide)

/-- Opening accepts a Mode 2 plan only within one MDU: the last leaf, counted from the first MDU,
has to be in the stripe. -/
theorem PlanSpec.sameMdu_of_accepted (hs : SlotStripe stripe) (hmsg : RequestsPlan plan msg)
    (h : checkBlobRange deal stripe msg = .ok ()) :
    blobAt (firstByte f.toFileMeta rangeStart) / 64 =
        blobAt (lastByte f.toFileMeta rangeStart rangeLen) / 64 ∧
      leafNumber stripe (blobAt (firstByte f.toFileMeta rangeStart) % 64) <
        stripe.leafCount.toUInt32.toNat := by
  rw [checkBlobRange_iff] at h
  obtain ⟨hstart, -, hslots, -⟩ := h
  rw [UInt32.lt_iff_toNat_lt, hmsg.startBlobIndex, hspec.startLeaf] at hstart
  refine ⟨?_, hstart⟩
  obtain ⟨-, hsmall⟩ := hspec.startGlobal (Or.inr hs)
  have hpos := hspec.count_pos
  -- the last leaf, counted from the start of the first MDU
  have hsum : msg.startBlobIndex.toNat + msg.blobCount.toNat =
      plan.startBlobIndex.toNat + plan.blobCount.toNat - 1 + 1 := by
    rw [hmsg.startBlobIndex, hmsg.blobCount]
    omega
  rw [SessionPlan.firstLeaf] at hsmall
  have hlast := ((checkSlotRange_iff hs (by omega) hsum).mp (hslots hs.mode)).1
  -- A later MDU would put a whole MDU of leaves between the ends.
  have hends := hspec.ends_le
  have hend := hspec.lastLeaf
  rw [SessionPlan.firstLeaf, hspec.startMdu, leafPosition] at hend
  by_contra hne
  have hlater : 1 + f.witnessCount.toNat + blobAt (firstByte f.toFileMeta rangeStart) / 64 + 1 ≤
      1 + f.witnessCount.toNat + blobAt (lastByte f.toFileMeta rangeStart rangeLen) / 64 := by
    omega
  have hprod := Nat.mul_le_mul_right stripe.leafCount.toNat hlater
  rw [Nat.add_mul, Nat.one_mul] at hprod
  omega

/-- Within one MDU, a Mode 2 plan covers its range exactly when there is one blob or one column. The
blob that follows the first is in the next column, which the leaves of the plan do not come to. -/
theorem PlanSpec.covers_mode2_iff (hs : SlotStripe stripe)
    (hmdu : blobAt (firstByte f.toFileMeta rangeStart) / 64 =
      blobAt (lastByte f.toFileMeta rangeStart rangeLen) / 64) :
    Covers stripe f.toFileMeta plan ↔
      (blobAt (firstByte f.toFileMeta rangeStart) =
        blobAt (lastByte f.toFileMeta rangeStart rangeLen) ∨ stripe.k = 1) := by
  have hends := hspec.ends_le
  have hcolumn := hspec.column hs.mode
  rw [hspec.covers_iff (Or.inr hs)]
  simp only [hspec.contains_iff, leafPosition]
  generalize blobAt (firstByte f.toFileMeta rangeStart) = first at *
  generalize blobAt (lastByte f.toFileMeta rangeStart rangeLen) = last at *
  constructor
  · intro hcovers
    by_contra hnot
    rw [not_or] at hnot
    -- The second blob of the range is the one that is missed.
    have hnext := hcovers (first + 1) (by omega) (by omega)
    have hdiv : (first + 1) / 64 = first / 64 := by omega
    have hmod : (first + 1) % 64 = first % 64 + 1 := by omega
    rw [hdiv, ← hmdu, hmod] at hnext
    have houtside := hs.leafNumber_succ_outside hnot.2 (show first % 64 + 1 < 64 by omega)
      (show last % 64 < 64 by omega) hcolumn
    exact houtside ⟨by omega, by omega⟩
  -- one blob, or blobs in one column
  · rintro (rfl | hk) blob hlow hhigh
    · have hblob : blob = first := le_antisymm hhigh hlow
      rw [hblob]
      exact ⟨le_rfl, le_rfl⟩
    · have hdiv : blob / 64 = first / 64 := by omega
      rw [hs.leafNumber_of_one hk, hs.leafNumber_of_one hk, hs.leafNumber_of_one hk, ← hmdu, hdiv]
      omega

/-- The slot of every leaf of a Mode 2 plan in one MDU is that of its two ends, since the slot grows
with the leaf. -/
theorem PlanSpec.slot_of_contains (hs : SlotStripe stripe)
    (hmdu : blobAt (firstByte f.toFileMeta rangeStart) / 64 =
      blobAt (lastByte f.toFileMeta rangeStart rangeLen) / 64)
    (hfits : leafNumber stripe (blobAt (lastByte f.toFileMeta rangeStart rangeLen) % 64) <
      stripe.leafCount.toNat) {leaf : Nat} (hleaf : plan.Contains stripe leaf) :
    leaf % stripe.leafCount.toNat / stripe.rows.toNat =
      blobAt (firstByte f.toFileMeta rangeStart) % 64 % stripe.k.toNat := by
  rw [hspec.contains_iff, leafPosition, leafPosition, ← hmdu] at hleaf
  obtain ⟨hlow, hhigh⟩ := hleaf
  -- both ends are in one slot
  have hcolumn := hspec.column hs.mode
  have hfirstSlot := hs.leafNumber_div (Nat.mod_lt (blobAt (firstByte f.toFileMeta rangeStart))
    (show 64 > 0 by decide))
  have hlastSlot := hs.leafNumber_div (Nat.mod_lt
    (blobAt (lastByte f.toFileMeta rangeStart rangeLen)) (show 64 > 0 by decide))
  -- The leaf in its MDU lies between those of the two ends.
  obtain ⟨rest, hrest⟩ := Nat.exists_eq_add_of_le ((Nat.le_add_right _ _).trans hlow)
  have hmod : leaf % stripe.leafCount.toNat = rest := by
    rw [hrest, Nat.add_comm, Nat.add_mul_mod_self_right, Nat.mod_eq_of_lt (by omega)]
  rw [hmod]
  have hge : leafNumber stripe (blobAt (firstByte f.toFileMeta rangeStart) % 64) ≤ rest := by omega
  have hle : rest ≤ leafNumber stripe
    (blobAt (lastByte f.toFileMeta rangeStart rangeLen) % 64) := by omega
  -- and the slot of the leaf is between the two
  have hge := Nat.div_le_div_right (c := stripe.rows.toNat) hge
  have hle := Nat.div_le_div_right (c := stripe.rows.toNat) hle
  rw [hfirstSlot] at hge
  rw [hlastSlot, hcolumn] at hle
  exact le_antisymm hle hge

/-- A Mode 2 plan within one MDU, whose leaves are within the stripe, stays in the slot of its
provider and can be opened. The list of providers has the provider of the slot at its place. -/
theorem PlanSpec.opens_mode2 (hs : SlotStripe stripe)
    (hmdu : blobAt (firstByte f.toFileMeta rangeStart) / 64 =
      blobAt (lastByte f.toFileMeta rangeStart rangeLen) / 64)
    (hstart : leafNumber stripe (blobAt (firstByte f.toFileMeta rangeStart) % 64) <
      stripe.leafCount.toUInt32.toNat)
    (hproviders : SlotOrder deal dealProviders)
    (hcontent : deal.totalMdus = 0 ∨
      deal.totalMdus.toNat = 1 + f.witnessCount.toNat + f.userMdus) :
    InProviderSlot stripe deal plan ∧
      ∀ msg, RequestsPlan plan msg → checkBlobRange deal stripe msg = .ok () := by
  -- the provider of the plan is that of the slot
  obtain ⟨providers, listed, hok, hlisted, hprovider⟩ := hspec.slotProvider hs.mode
  obtain ⟨slot, hslot, hslotNat⟩ := hproviders providers hok _ listed hlisted
  rw [← hprovider] at hslot
  obtain ⟨slotCount, -, hslots⟩ := hs.slots
  have hfirstSlot := hs.leafNumber_div (Nat.mod_lt (blobAt (firstByte f.toFileMeta rangeStart))
    (show 64 > 0 by decide))
  have hlastSlot := hs.leafNumber_div (Nat.mod_lt
    (blobAt (lastByte f.toFileMeta rangeStart rangeLen)) (show 64 > 0 by decide))
  have hcolumn := hspec.column hs.mode
  -- The leaf count is a number of whole slots, so both ends are in it.
  have hfits : leafNumber stripe (blobAt (lastByte f.toFileMeta rangeStart rangeLen) % 64) <
      stripe.leafCount.toNat := by
    have hlow : leafNumber stripe (blobAt (firstByte f.toFileMeta rangeStart) % 64) <
        slotCount * stripe.rows.toNat := by
      rw [← hslots]
      rw [UInt64.toNat_toUInt32] at hstart
      omega
    rw [hslots, ← Nat.div_lt_iff_lt_mul hs.rows_pos, hlastSlot, hcolumn, ← hfirstSlot,
      Nat.div_lt_iff_lt_mul hs.rows_pos]
    exact hlow
  refine ⟨fun _ => ⟨slot, hslot, fun leaf hleaf => ?_⟩, fun msg hmsg => ?_⟩
  -- the slot of each leaf
  · have hcount := leafCount_lt (Or.inr hs)
    have hmod : leaf % stripe.leafCount.toNat < stripe.leafCount.toNat := Nat.mod_lt _ (by omega)
    rw [hs.slotForLeafIndex_eq]
    congr 1
    rw [← UInt64.toNat_inj, UInt64.toNat_div, UInt64.toNat_ofNat', Nat.mod_eq_of_lt (by omega),
      hspec.slot_of_contains hs hmdu hfits hleaf, hslotNat]
  · obtain ⟨hglobal, hsmall⟩ := hspec.startGlobal (Or.inr hs)
    have hcheck := hspec.inContent (Or.inr hs) hfits hcontent
    have hend := hspec.lastLeaf
    rw [SessionPlan.firstLeaf, hspec.startMdu, leafPosition, ← hmdu] at hend
    have hsum : msg.startBlobIndex.toNat + msg.blobCount.toNat =
        leafNumber stripe (blobAt (lastByte f.toFileMeta rangeStart rangeLen) % 64) + 1 := by
      rw [hmsg.startBlobIndex, hmsg.blobCount]
      omega
    have hsmall64 := hs.leafNumber_lt (Nat.mod_lt
      (blobAt (lastByte f.toFileMeta rangeStart rangeLen)) (show 64 > 0 by decide))
    rw [checkBlobRange_iff, hmsg.startMduIndex, hmsg.startBlobIndex, hmsg.blobCount, hglobal]
    refine ⟨?_, by omega, fun _ => ?_, hcheck⟩
    · rw [UInt32.lt_iff_toNat_lt, hspec.startLeaf]
      exact hstart
    · rw [checkSlotRange_iff hs (by omega) hsum, hmsg.startBlobIndex, hmsg.provider,
        hspec.startLeaf, hfirstSlot, hlastSlot, hcolumn]
      exact ⟨hfits, rfl, slot, hslot, hslotNat⟩

end Spec

end Plan

/-- For every file of a slab, every range and every stripe of a deal: a plan covers its range,
within the slot of its provider, and can be opened, exactly when the range is `Plannable`. The deal
has the stripe that the planner reads, its content is that of the slab where it is counted, and the
provider list is in the order of the slots. -/
theorem planned_session_iff (f : SlabFile) (rangeStart rangeLen : UInt64) (deal : Deal)
    (stripe : StripeParams) (hstripe : stripeParamsForDeal deal = .ok stripe)
    (hcontent : deal.totalMdus = 0 ∨
      deal.totalMdus.toNat = 1 + f.witnessCount.toNat + f.userMdus)
    (dealProviders : Except String (List Str)) (hproviders : SlotOrder deal dealProviders)
    (rawRangeStart rawRangeLen cachedProviderAddress : Str)
    (hrangeStart : parseRangeParam "range_start" rawRangeStart = .ok rangeStart)
    (hrangeLen : parseRangeParam "range_len" rawRangeLen = .ok rangeLen) (plan : SessionPlan)
    (hplan : gatewayPlanRetrievalSession stripe (.ok f.toFileMeta) rawRangeStart rawRangeLen
      cachedProviderAddress dealProviders = .ok plan) :
    PlanWorks stripe f.toFileMeta deal plan ↔
      Plannable stripe f.toFileMeta rangeStart rangeLen := by
  have hs := stripeParamsForDeal_cases hstripe
  -- the parameters of the request are parsed
  have hplan : planRange stripe f.toFileMeta rangeStart rangeLen cachedProviderAddress
      dealProviders =
      .ok plan := by
    simp only [gatewayPlanRetrievalSession, except_bind_ok, mapError_eq_ok, hrangeStart,
      hrangeLen] at hplan
    obtain ⟨_, hfile, _, hstart, _, hlen, hplan⟩ := hplan
    cases hfile
    cases hstart
    cases hlen
    exact hplan
  have hspec := planRange_spec hs hplan
  rcases hs with hs | hs
  · refine iff_of_true (hspec.works_mode1 hs hcontent) fun hmode => ?_
    rw [hs] at hmode
    exact absurd hmode (by decide)
  · constructor
    -- an accepted plan is in one MDU, and covers its range
    · rintro ⟨hcovers, -, haccepted⟩ -
      let msg : MsgOpenRetrievalSession :=
        ⟨[], 0, plan.provider, [], plan.startMduIndex, plan.startBlobIndex, plan.blobCount, 0, 0⟩
      have hmsg : RequestsPlan plan msg := ⟨rfl, rfl, rfl, rfl⟩
      obtain ⟨hmdu, hstart⟩ := hspec.sameMdu_of_accepted hs hmsg (haccepted msg hmsg)
      exact ⟨((hspec.covers_mode2_iff hs hmdu).mp hcovers).imp_right fun hk => ⟨hk, hmdu⟩, hstart⟩
    · intro hplannable
      obtain ⟨hrange, hstart⟩ := hplannable hs.mode
      have hmdu : blobAt (firstByte f.toFileMeta rangeStart) / 64 =
          blobAt (lastByte f.toFileMeta rangeStart rangeLen) / 64 := by
        rcases hrange with hsame | ⟨-, hmdu⟩
        · rw [hsame]
        · exact hmdu
      obtain ⟨hslot, haccepted⟩ := hspec.opens_mode2 hs hmdu hstart hproviders hcontent
      exact ⟨(hspec.covers_mode2_iff hs hmdu).mpr (hrange.imp_right And.left), hslot, haccepted⟩

/-! ### A striped file -/

/-- The providers of a deal with twelve slots. -/
def stripedProviders : List Str := (List.range 12).map fun i =>
    "nil1slot".toList ++ [Char.ofNat (97 + i)]

/-- A deal with eight data and four parity slots. -/
def stripedDeal : Deal where
  id := 0
  manifestRoot := List.replicate 48 1
  size := 1142784
  owner := "nil1owner".toList
  escrowBalance := 1000
  startBlock := 1
  endBlock := 1000
  providers := stripedProviders
  redundancyMode := 2
  currentReplication := 12
  serviceHint := "General:rs=8+4".toList
  maxMonthlySpend := 0
  totalMdus := 0
  spendWindowStartHeight := 0
  spendWindowSpent := 0
  mode2Profile := some ⟨8, 4⟩
  mode2Slots := stripedProviders.zipIdx.map fun ⟨p, i⟩ => ⟨.ofNat i, p, .active, [], 1, 0⟩
  currentGen := 1
  witnessMdus := 1

/-- The providers of the sample deal are listed in the order of its slots. -/
theorem stripedDeal_slotOrder : SlotOrder stripedDeal (.ok stripedProviders) := by
  intro providers hok slot provider hlisted
  cases hok
  have hall : ∀ i < 12, ∀ p ∈ stripedProviders[i]?,
      (providerSlotIndex stripedDeal (trimSpace p)).map (·.toNat) = some i := by
    decide +kernel
  have hlt : slot < stripedProviders.length := (List.getElem?_eq_some_iff.mp hlisted).1
  have hindex := hall slot hlt provider hlisted
  rw [Option.map_eq_some_iff] at hindex
  exact hindex

/-- Its only file, which fills the first nine blobs. -/
def stripedFile : SlabFile where
  startOffset := 0
  length := 1142784
  witnessCount := 1
  userMdus := 1
  inUserMdus := by decide
  inTable := by decide

/-- The plan for the whole file has two leaves, those of blobs 0 and 8. Blob 1 is not in it, though
it has bytes of the file. -/
theorem plan_misses_blobs : ∃ plan,
    gatewayPlanRetrievalSession (planStripe (.ok stripedDeal.serviceHint))
      (.ok stripedFile.toFileMeta) [] [] [] (.ok stripedProviders) = .ok plan ∧
    stripeParamsForDeal stripedDeal = .ok (planStripe (.ok stripedDeal.serviceHint)) ∧
    SlotOrder stripedDeal (.ok stripedProviders) ∧
    ¬Covers (planStripe (.ok stripedDeal.serviceHint)) stripedFile.toFileMeta plan := by
  refine ⟨⟨"nil1slota".toList, 0, 1142784, 2, 0, 2⟩, by decide +kernel, by decide +kernel,
    stripedDeal_slotOrder, ?_⟩
  intro hcovers
  -- the byte 126976 is the first of blob 1
  obtain ⟨blob, leaf, hblob, hleaf, hcontains⟩ := hcovers 126976 (by decide) (by decide)
  have hblob₁ : rawOffsetToEncodedBlobIndex
      ((stripedFile.startOffset + 126976) % rawMduCapacityU64) = .ok 1 := by
    decide +kernel
  have hleaf₈ : leafIndexForBlobIndex 1 (planStripe (.ok stripedDeal.serviceHint)) = .ok 8 := by
    decide +kernel
  rw [hblob₁] at hblob
  cases hblob
  rw [hleaf₈] at hleaf
  cases hleaf
  -- The plan ends at leaf 193, and blob 1 is leaf 200.
  rw [SessionPlan.Contains] at hcontains
  exact absurd hcontains.2 (by decide +kernel)

/-- A range within the second blob of the same file. -/
theorem planned_session_iff_stripedFile : ∃ plan,
    gatewayPlanRetrievalSession (planStripe (.ok stripedDeal.serviceHint))
      (.ok stripedFile.toFileMeta) "126976".toList "1000".toList [] (.ok stripedProviders) =
        .ok plan ∧
    PlanWorks
      (planStripe (.ok stripedDeal.serviceHint)) stripedFile.toFileMeta stripedDeal plan := by
  refine ⟨⟨"nil1slotb".toList, 126976, 1000, 2, 8, 1⟩, by decide +kernel, ?_⟩
  refine (planned_session_iff stripedFile 126976 1000 stripedDeal
    (planStripe (.ok stripedDeal.serviceHint)) (by decide +kernel) (Or.inl rfl)
    (.ok stripedProviders) stripedDeal_slotOrder "126976".toList "1000".toList []
    (by decide +kernel) (by decide +kernel) _ (by decide +kernel)).mpr fun _ => ?_
  decide +kernel

end NilStore.Gateway
