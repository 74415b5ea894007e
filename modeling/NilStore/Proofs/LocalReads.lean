import NilStore.Core.Expand
import NilStore.Proofs.LocalSlab
import NilStore.Website.FileSharder

/-!
# `NilStore.Proofs.LocalReads`: what the browser reads out of its own slab

A file starts with an MDU of its own, and its last 31 bytes or less are right-aligned in their
scalar. The browser's reader does not know where a file ends in the slab: it takes the greatest end
of a listed file for the end of all data. So the last chunk of a file that another one follows is
read as if it were full (`localView`), and `local_read` says what every read of a range returns. A
read of the whole file is right exactly when the file is the last one, or when its last chunk is
empty or zero.

A slice of an MDU that holds valid data up to some length is a slice of what the core's decoder
makes of it for that length (`decodeRawSliceFromMdu_ok`).
-/

set_option autoImplicit false

namespace NilStore.Website

open NilStore.Lib NilStore.Core

/-! ### A slice of an MDU -/

section Decode

variable {mdu payload : Bytes} {rawValidLen : Nat}

/-- A scalar gives 31 bytes, fewer at the end of the raw bytes and none behind it. -/
theorem length_decodeScalar (hmdu : mdu.length = mduSize)
    (hvalid : rawValidLen ≤ mduPayloadBytes) (i : Nat) :
    (decodeScalar mdu rawValidLen i).length = min (rawValidLen - 31 * i) 31 := by
  rw [mduPayloadBytes] at hvalid
  unfold decodeScalar
  rw [List.length_take, List.length_drop, hmdu, mduSize, scalarPayloadBytes, scalarBytes]
  omega

/-- The payload that the decoder makes of an MDU, scalar by scalar. -/
theorem decoded_words (h : nilDecodePayloadFromMdu mdu rawValidLen = .ok payload) :
    payload.length = rawValidLen ∧
      ∀ i, 31 * i < rawValidLen → wordAt 31 i payload = decodeScalar mdu rawValidLen i := by
  unfold nilDecodePayloadFromMdu at h
  split at h
  · cases h
  · rename_i hfits
    obtain ⟨hmdu, hvalid⟩ := not_or.mp hfits
    have hpayload := Except.ok.inj h
    obtain ⟨hlength, hat⟩ := wordAt_flatMap_range
      (fun i => length_decodeScalar (not_not.mp hmdu) (Nat.not_lt.mp hvalid) i)
      ((rawValidLen + scalarPayloadBytes - 1) / scalarPayloadBytes)
    rw [hpayload, scalarPayloadBytes] at hlength hat
    constructor
    · omega
    · intro i hi
      exact hat i (by omega)

/-- One step copies a part of what the decoder makes of a scalar. -/
theorem scalarPiece_eq {cursor : Nat} (h : cursor < rawValidLen) (remaining : Nat) :
    scalarPiece mdu rawValidLen cursor remaining =
      (min remaining (min (rawValidLen - 31 * (cursor / 31)) 31 - cursor % 31),
        slice (decodeScalar mdu rawValidLen (cursor / 31)) (cursor % 31)
          (min remaining (min (rawValidLen - 31 * (cursor / 31)) 31 - cursor % 31))) := by
  have hpart : ∀ (len : Nat) {base n : Nat}, cursor % 31 + n ≤ len →
      slice mdu (base + cursor % 31) n = slice ((mdu.drop base).take len) (cursor % 31) n := by
    intro len base n hn
    exact (slice_slice hn).symm
  unfold scalarPiece decodeScalar
  by_cases hpartial : rawValidLen % scalarPayloadBytes ≠ 0 ∧
      cursor / scalarPayloadBytes = rawValidLen / scalarPayloadBytes
  · simp only [if_pos hpartial, if_neg hpartial.1]
    rw [scalarPayloadBytes] at hpartial ⊢
    have hlen : min (rawValidLen - 31 * (cursor / 31)) 31 = rawValidLen % 31 := by omega
    rw [Nat.mul_comm _ 31, hlen, hpart (rawValidLen % 31) (by omega)]
  · simp only [if_neg hpartial]
    rw [scalarPayloadBytes] at hpartial ⊢
    have hlen : min (rawValidLen - 31 * (cursor / 31)) 31 = 31 := by omega
    rw [Nat.mul_comm _ 31, hlen, hpart 31 (by omega)]
    rfl

/-- A slice of an MDU is a slice of what the decoder makes of it. The slice is copied scalar by
scalar, each of them from the 31 bytes that it holds. -/
theorem decodeRawSliceFromMdu_ok (h : nilDecodePayloadFromMdu mdu rawValidLen = .ok payload)
    {rawStart rawLen : Nat} (hinside : rawStart + rawLen ≤ rawValidLen) :
    decodeRawSliceFromMdu mdu rawStart rawLen rawValidLen =
      .ok (slice payload rawStart rawLen) := by
  obtain ⟨hlength, hwords⟩ := decoded_words h
  unfold decodeRawSliceFromMdu
  split
  · rename_i hzero
    rw [Nat.le_zero.mp hzero, slice_zero]
  · rw [if_neg (Nat.not_lt.mpr hinside)]
    -- one scalar: its part of the slice, up to its end or the end of the slice
    have hpiece : ∀ cursor remaining, 0 < remaining → cursor + remaining = rawStart + rawLen →
        ∃ count, 0 < count ∧ count ≤ remaining ∧
          (Except.ok (scalarPiece mdu rawValidLen (0 + cursor) remaining) : Except String _) =
            .ok (count, slice payload cursor count) := by
      intro cursor remaining hpos hend
      rw [Nat.zero_add]
      refine ⟨min remaining
        (min (rawValidLen - 31 * (cursor / 31)) 31 - cursor % 31), by omega, by omega, ?_⟩
      rw [scalarPiece_eq (by omega), ← hwords (cursor / 31) (by omega), slice_wordAt (by omega),
        Nat.div_add_mod]
    rw [← Nat.zero_add rawStart, fillLoop_ok (by omega) hpiece le_rfl rfl (by simp), overwrite_zero]
    · rw [Nat.zero_add]
    · rw [length_slice (by omega), List.length_replicate]

end Decode

/-! ### What the reader takes a file for -/

/-- The bytes that the reader takes the file for. Of a file that another one follows, the last chunk
is read from the front of its scalar. -/
def localView (contents : Bytes) (isLast : Bool) : Bytes :=
  if isLast then contents
  else
    contents.take (31 * (contents.length / 31)) ++
      (alignRight 0 31 (contents.drop (31 * (contents.length / 31)))).take (contents.length % 31)

/-- A scalar that is read as if it were full. -/
theorem decodeScalar_full {piece : Bytes} {i : Nat} (hi : i < scalarsPerMdu) :
    decodeScalar (payloadMdu piece) mduPayloadBytes i =
      alignRight 0 31 ((piece.drop (31 * i)).take 31) := by
  have hlen : min (mduPayloadBytes - i * 31) 31 = 31 := by
    rw [scalarsPerMdu] at hi
    rw [mduPayloadBytes]
    omega
  have hshort : ((piece.drop (31 * i)).take 31).length ≤ 31 := List.length_take_le _ _
  have hpad : 32 - ((piece.drop (31 * i)).take 31).length =
      31 - ((piece.drop (31 * i)).take 31).length + 1 := by
    omega
  have hword := congrArg (List.drop 1) (@scalar_payloadMdu piece i hi)
  rw [wordAt, List.drop_take, List.drop_drop, alignRight, hpad, List.replicate_succ,
    List.cons_append, List.drop_succ_cons, List.drop_zero] at hword
  rw [decodeScalar, scalarPayloadBytes, scalarBytes, hlen, Nat.mul_comm i 32]
  exact hword

/-- An element of an MDU that is read as if it were full is the one of the view. The last scalar of
a short MDU is aligned to the right, so as a full one it begins with zeros. -/
theorem getElem?_full {contents payload : Bytes} {j : Nat}
    (hwords : ∀ i, 31 * i < mduPayloadBytes → wordAt 31 i payload =
      alignRight 0 31
        ((((contents.drop (j * mduPayloadBytes)).take mduPayloadBytes).drop (31 * i)).take 31))
    {p : Nat} (hp : p < ((contents.drop (j * mduPayloadBytes)).take mduPayloadBytes).length) :
    payload[p]? = (localView contents false)[j * mduPayloadBytes + p]? := by
  have hcap : mduPayloadBytes = 31 * 262144 := rfl
  -- An MDU begins with a scalar of the file.
  obtain ⟨first, hfirst⟩ : ∃ first, j * mduPayloadBytes = 31 * first :=
    ⟨j * scalarsPerMdu, by rw [mduPayloadBytes, scalarsPerMdu]; omega⟩
  rw [List.length_take, List.length_drop] at hp
  generalize j * mduPayloadBytes = base at *
  have hchunk : (((contents.drop base).take mduPayloadBytes).drop (31 * (p / 31))).take 31 =
      (contents.drop (base + 31 * (p / 31))).take 31 := by
    rw [List.drop_take, List.drop_drop, List.take_take]
    have hlen : min 31 (mduPayloadBytes - 31 * (p / 31)) = 31 := by omega
    rw [hlen]
  have hlength : ((contents.drop (base + 31 * (p / 31))).take 31).length =
      min 31 (contents.length - (base + 31 * (p / 31))) := by
    rw [List.length_take, List.length_drop]
  have hfront : (contents.take (31 * (contents.length / 31))).length =
      31 * (contents.length / 31) := by
    rw [List.length_take]
    omega
  -- in a full scalar nothing moves; the last one moves to the right
  rw [getElem?_eq_wordAt (by decide : 0 < 31) p, hwords (p / 31) (by omega), hchunk, localView,
    if_neg (by decide)]
  by_cases hfull : base + 31 * (p / 31) + 31 ≤ contents.length
  · -- A full chunk is where it belongs.
    have hpad : 31 - ((contents.drop (base + 31 * (p / 31))).take 31).length = 0 := by omega
    rw [alignRight, hpad, List.replicate_zero, List.nil_append,
      List.getElem?_take_of_lt (Nat.mod_lt _ (by decide)), List.getElem?_drop,
      List.getElem?_append_left (by omega), List.getElem?_take_of_lt (by omega), Nat.add_assoc,
      Nat.div_add_mod]
  · -- The last chunk of the file begins where its full chunks end.
    have hlast : base + 31 * (p / 31) = 31 * (contents.length / 31) := by omega
    have htail : (contents.drop (31 * (contents.length / 31))).take 31 =
        contents.drop (31 * (contents.length / 31)) := by
      rw [List.take_of_length_le]
      rw [List.length_drop]
      omega
    have hplace : base + p - 31 * (contents.length / 31) = p % 31 := by omega
    rw [hlast, htail, List.getElem?_append_right (by omega), hfront, hplace,
      List.getElem?_take_of_lt (by omega)]

/-- The browser packs a payload as the core does. -/
theorem encodeToMdu_short {payload : Bytes} (h : payload.length ≤ mduPayloadBytes) :
    encodeToMdu payload = payloadMdu payload := by
  have hcore := Core.encodeToMdu_eq payload
  rw [Core.encodeToMdu, List.take_of_length_le h] at hcore
  have hloop := encodeFrom_eq payload 0 (List.replicate mduSize 0)
  rw [Nat.zero_mul, Nat.zero_mul, List.drop_zero] at hloop
  rw [encodeToMdu, hloop]
  exact hcore

/-- What a slice of an MDU of the file holds, when the valid data ends with the file or covers the
MDU. In the first case it is a slice of the file, and in the second one of the view. -/
theorem decoded_piece {contents : Bytes} (isLast : Bool) {j offset n : Nat}
    (hinside : offset + n ≤ ((contents.drop (j * mduPayloadBytes)).take mduPayloadBytes).length) :
    decodeRawSliceFromMdu
      (encodeToMdu ((contents.drop (j * mduPayloadBytes)).take mduPayloadBytes)) offset n
      (if isLast then ((contents.drop (j * mduPayloadBytes)).take mduPayloadBytes).length
        else mduPayloadBytes) =
      .ok (slice (localView contents isLast) (j * mduPayloadBytes + offset) n) := by
  have hshort : ((contents.drop (j * mduPayloadBytes)).take mduPayloadBytes).length ≤
      mduPayloadBytes :=
    List.length_take_le _ _
  rw [encodeToMdu_short hshort]
  -- is the file the last one of the slab?
  cases isLast with
  | true =>
      rw [if_pos rfl, decodeRawSliceFromMdu_ok (decode_encode hshort) hinside]
      congr 1
      refine slice_congr fun p _ hp => ?_
      rw [List.getElem?_take_of_lt (by omega), List.getElem?_drop, localView, if_pos rfl]
  | false =>
      rw [if_neg (by decide)]
      -- a full MDU decodes too
      obtain ⟨payload, hdecode⟩ : ∃ payload, nilDecodePayloadFromMdu
          (payloadMdu ((contents.drop (j * mduPayloadBytes)).take mduPayloadBytes))
            mduPayloadBytes =
            .ok payload := by
        rw [nilDecodePayloadFromMdu, if_neg]
        · exact ⟨_, rfl⟩
        · rw [length_payloadMdu hshort]
          omega
      rw [decodeRawSliceFromMdu_ok hdecode (by omega)]
      congr 1
      refine slice_congr fun p _ hp => ?_
      refine getElem?_full (fun i hi => ?_) (by omega)
      rw [(decoded_words hdecode).2 i hi, decodeScalar_full]
      rw [mduPayloadBytes] at hi
      rw [scalarsPerMdu]
      omega

/-! ### Where the data ends -/

/-- The end of a file. -/
def NilfsFileEntry.fileEnd (f : NilfsFileEntry) : Nat := f.startOffset + f.sizeBytes

/-- The greatest end is that of a file, and no file ends behind it. It is computed in doubles, which
are exact below `2^53`. -/
theorem inferMaxEnd_spec {files : List NilfsFileEntry}
    (h : ∀ g ∈ files, 0 < g.sizeBytes ∧ g.fileEnd < 2 ^ 53) :
    (∀ g ∈ files, g.fileEnd ≤ inferMaxEnd files) ∧
      (inferMaxEnd files = 0 ∨ ∃ g ∈ files, inferMaxEnd files = g.fileEnd) := by
  unfold inferMaxEnd
  -- by the files; each end raises the maximum or leaves it
  induction files using List.reverseRecOn with
  | nil => simp
  | append_singleton files g ih =>
      obtain ⟨hle, hsome⟩ := ih fun g hg => h g (List.mem_append_left _ hg)
      obtain ⟨hpos, hlt⟩ := h g (by simp)
      have hround : toBinary64 (g.startOffset + g.sizeBytes) = g.fileEnd := toBinary64_eq_self hlt
      rw [List.foldl_append, List.foldl_cons, List.foldl_nil, if_neg (Nat.not_le.mpr hpos)]
      generalize files.foldl _ 0 = maxEnd at *
      simp only [hround]
      split
      · rename_i hmore
        constructor
        · intro f hf
          rcases List.mem_append.mp hf with hf | hf
          · exact (hle f hf).trans hmore.le
          · rw [List.mem_singleton.mp hf]
        · exact Or.inr ⟨g, by simp, rfl⟩
      · rename_i hless
        constructor
        · intro f hf
          rcases List.mem_append.mp hf with hf | hf
          · exact hle f hf
          · rw [List.mem_singleton.mp hf]
            exact Nat.not_lt.mp hless
        · rcases hsome with hzero | ⟨f, hf, heq⟩
          · exact Or.inl hzero
          · exact Or.inr ⟨f, List.mem_append_left _ hf, heq⟩

/-- No listed file starts behind the file. -/
def isLastFile (files : List NilfsFileEntry) (f : NilfsFileEntry) : Bool :=
  files.all fun g => g.startOffset ≤ f.startOffset

/-- The file is in the browser's slab: each listed file starts with an MDU of its own, and the
pieces of this one are in its MDUs. -/
structure InLocalSlab (dir : DealDirectory) (files : List NilfsFileEntry) (layout : LocalLayout)
    (f : NilfsFileEntry) (contents : Bytes) : Prop where
  inferred : inferWitnessCountFromOpfs dir files = .ok layout
  listed : f ∈ files
  size : f.sizeBytes = contents.length
  sized : ∀ g ∈ files, 0 < g.sizeBytes ∧ g.fileEnd < 2 ^ 53
  aligned : ∀ g ∈ files, mduPayloadBytes ∣ g.startOffset
  apart : ∀ g ∈ files, g = f ∨ g.fileEnd ≤ f.startOffset ∨ f.fileEnd ≤ g.startOffset
  stored : ∀ j, j * mduPayloadBytes < contents.length →
    readMdu dir (layout.slabStartIdx + (f.startOffset / mduPayloadBytes + j)) =
      some (encodeToMdu ((contents.drop (j * mduPayloadBytes)).take mduPayloadBytes))

section Read

variable {dir : DealDirectory} {files : List NilfsFileEntry} {layout : LocalLayout}
  {f : NilfsFileEntry}
  {contents : Bytes}

/-- The layout ends where the last file does. -/
theorem maxEnd_of_inferred (h : inferWitnessCountFromOpfs dir files = .ok layout) :
    layout.maxEnd = inferMaxEnd files := by
  obtain ⟨_, -, h⟩ := except_bind_ok.mp h
  obtain ⟨_, -, h⟩ := except_bind_ok.mp h
  rw [← Except.ok.inj h]

/-- Behind a file there is room for the whole of its last MDU, before the next one starts. -/
theorem piece_le_next {cap start next size j : Nat} (hstart : cap ∣ start) (hnext : cap ∣ next)
    (hbehind : start + size ≤ next) (hj : j * cap < size) : start + j * cap + cap ≤ next := by
  obtain ⟨a, rfl⟩ := hstart
  obtain ⟨b, rfl⟩ := hnext
  have hlt : a + j < b := by
    by_contra hge
    have hmul := Nat.mul_le_mul_left cap (Nat.not_lt.mp hge)
    rw [Nat.mul_add, Nat.mul_comm cap j] at hmul
    omega
  have hmul := Nat.mul_le_mul_left cap (Nat.succ_le_of_lt hlt)
  rw [Nat.mul_succ, Nat.mul_add, Nat.mul_comm cap j] at hmul
  omega

/-- How much of an MDU of the file the reader takes for valid: what the file has there, if it is the
last one of the slab, and the whole MDU otherwise. -/
theorem InLocalSlab.rawValidLen (h : InLocalSlab dir files layout f contents) {j : Nat}
    (hj : j * mduPayloadBytes < contents.length) :
    min mduPayloadBytes (layout.maxEnd - (f.startOffset + j * mduPayloadBytes)) =
      if isLastFile files f then ((contents.drop (j * mduPayloadBytes)).take mduPayloadBytes).length
      else mduPayloadBytes := by
  obtain ⟨hle, hsome⟩ := inferMaxEnd_spec h.sized
  have hown := hle f h.listed
  have hsize := h.size
  rw [maxEnd_of_inferred h.inferred]
  -- for the last file the greatest end is its own
  by_cases hlast : isLastFile files f = true
  · have hend : inferMaxEnd files = f.fileEnd := by
      rcases hsome with hzero | ⟨g, hg, heq⟩
      · have hpos := (h.sized f h.listed).1
        unfold NilfsFileEntry.fileEnd at hown ⊢
        omega
      · have hstart : g.startOffset ≤ f.startOffset := by
          simpa using List.all_eq_true.mp hlast g hg
        have hpos := (h.sized f h.listed).1
        rcases h.apart g hg with rfl | hbefore | hafter
        · exact heq
        · unfold NilfsFileEntry.fileEnd at *
          omega
        · unfold NilfsFileEntry.fileEnd at *
          omega
    rw [if_pos hlast, hend, List.length_take, List.length_drop, NilfsFileEntry.fileEnd]
    omega
  -- another file begins behind it
  · rw [if_neg hlast]
    obtain ⟨g, hg, hstart⟩ : ∃ g ∈ files, f.startOffset < g.startOffset := by
      by_contra hnone
      refine hlast (List.all_eq_true.mpr fun g hg => ?_)
      simp only [decide_eq_true_eq]
      by_contra hgt
      exact hnone ⟨g, hg, Nat.not_le.mp hgt⟩
    have hbehind : f.fileEnd ≤ g.startOffset := by
      rcases h.apart g hg with rfl | hbefore | hafter
      · exact absurd hstart (lt_irrefl _)
      · unfold NilfsFileEntry.fileEnd at hbefore
        omega
      · exact hafter
    have hmax := hle g hg
    unfold NilfsFileEntry.fileEnd at hbehind hmax
    -- The file behind it starts with an MDU, so it starts behind the whole MDU.
    have hroom := piece_le_next (h.aligned f h.listed) (h.aligned g hg) hbehind (hsize ▸ hj)
    generalize j * mduPayloadBytes = base at *
    generalize mduPayloadBytes = cap at *
    omega

/-- The cursor is in an MDU of the file. -/
theorem cursor_place {cap start : Nat} (place : Nat) (hcap : 0 < cap) (hstart : cap ∣ start) :
    (start + place) / cap = start / cap + place / cap ∧ (start + place) % cap = place % cap ∧
      (start / cap + place / cap) * cap = start + place / cap * cap ∧
      place / cap * cap + place % cap = place ∧ place % cap < cap := by
  obtain ⟨a, rfl⟩ := hstart
  refine ⟨?_, ?_, ?_, Nat.div_add_mod' place cap, Nat.mod_lt place hcap⟩
  · rw [Nat.mul_add_div hcap, Nat.mul_div_cancel_left _ hcap]
  · rw [Nat.mul_add_mod]
  · rw [Nat.add_mul, Nat.mul_div_cancel_left _ hcap, Nat.mul_comm a]

/-- One step copies a part of the view: from the cursor to the end of the range, of the valid data
or of the MDU, whichever comes first. -/
theorem InLocalSlab.mduPiece_eq (h : InLocalSlab dir files layout f contents)
    {place remaining : Nat} (hpos : 0 < remaining) (hend : place + remaining ≤ contents.length) :
    ∃ count, 0 < count ∧ count ≤ remaining ∧
      mduPiece dir layout.slabStartIdx layout.maxEnd (f.startOffset + place) remaining =
        .ok (count, slice (localView contents (isLastFile files f)) place count) := by
  -- the cursor, as an MDU and an offset in it
  obtain ⟨hindex, hoffset, hbase, hsplit, hmod⟩ :=
    cursor_place place (by decide : 0 < mduPayloadBytes) (h.aligned f h.listed)
  have hstored := h.stored (place / mduPayloadBytes)
  have hvalid := fun hj => h.rawValidLen (j := place / mduPayloadBytes) hj
  have hdecode : ∀ n, place % mduPayloadBytes + n ≤
      ((contents.drop (place / mduPayloadBytes * mduPayloadBytes)).take mduPayloadBytes).length →
        _ :=
    fun n hn => decoded_piece (isLastFile files f) hn
  have hlength :
      ((contents.drop (place / mduPayloadBytes * mduPayloadBytes)).take mduPayloadBytes).length =
      min mduPayloadBytes (contents.length - place / mduPayloadBytes * mduPayloadBytes) := by
    rw [List.length_take, List.length_drop]
  unfold mduPiece
  simp only [hindex, hoffset, hbase]
  generalize place / mduPayloadBytes = j at *
  generalize place % mduPayloadBytes = offset at *
  generalize mduPayloadBytes = cap at *
  have hj : j * cap < contents.length := by omega
  obtain ⟨valid, hval⟩ : ∃ valid, valid =
      if isLastFile files f then ((contents.drop (j * cap)).take cap).length else cap := ⟨_, rfl⟩
  simp only [← hval] at hvalid hdecode
  -- In either case the cursor is in the valid part, and what is read is in the MDU.
  have hbounds : offset < valid ∧ valid ≤ cap := by
    rw [hval]
    split <;> omega
  refine ⟨min remaining (valid - offset), by omega, by omega, ?_⟩
  rw [hvalid hj]
  refine except_bind_ok.mpr ⟨(), rejectIf_eq_ok.mpr (by omega), ?_⟩
  refine except_bind_ok.mpr ⟨(), rejectIf_eq_ok.mpr (by omega), ?_⟩
  refine except_bind_ok.mpr ⟨_, orFail_eq_ok.mpr (hstored hj), ?_⟩
  refine except_bind_ok.mpr ⟨_, hdecode _ (by omega), ?_⟩
  rw [hsplit]

/-- What is read of a range. -/
def readLength (size rangeStart rangeLen : Nat) : Nat :=
  if rangeLen > 0 then min (size - rangeStart) rangeLen else size - rangeStart

/-- The view has the length of the contents. -/
theorem length_localView (contents : Bytes) (isLast : Bool) :
    (localView contents isLast).length = contents.length := by
  unfold localView
  split
  · rfl
  · have htail : (contents.drop (31 * (contents.length / 31))).length ≤ 31 := by
      rw [List.length_drop]
      omega
    rw [List.length_append, List.length_take, List.length_take, length_alignRight htail]
    omega

/-- A read returns the range of the view. -/
theorem InLocalSlab.read_eq (h : InLocalSlab dir files layout f contents) {rangeStart : Nat}
    (rangeLen : Nat) (hstart : rangeStart < f.sizeBytes) :
    readNilfsFileFromOpfs dir f files rangeStart rangeLen =
      .ok (slice (localView contents (isLastFile files f)) rangeStart
        (readLength f.sizeBytes rangeStart rangeLen)) := by
  have hle : rangeStart + readLength f.sizeBytes rangeStart rangeLen ≤ contents.length := by
    rw [← h.size, readLength]
    split <;> omega
  have hview := length_localView contents (isLastFile files f)
  unfold readNilfsFileFromOpfs
  refine except_bind_ok.mpr ⟨(), rejectIf_eq_ok.mpr (by omega), ?_⟩
  refine except_bind_ok.mpr ⟨layout, h.inferred, ?_⟩
  show fillLoop _ _ (readLength f.sizeBytes rangeStart rangeLen) _
    (readLength f.sizeBytes rangeStart rangeLen) 0
    (List.replicate (readLength f.sizeBytes rangeStart rangeLen) 0) = _
  rw [fillLoop_ok (by omega) (fun place remaining hpos hend =>
    h.mduPiece_eq hpos (by omega)) le_rfl rfl
    (by simp), overwrite_zero]
  rw [length_slice (by omega), List.length_replicate]

/-- Zeros in front of a list push the end of it out. They change nothing only in a list of zeros. -/
theorem take_zeros_append {tail : Bytes} {k : Nat} (hk : 0 < k) :
    (List.replicate k 0 ++ tail).take tail.length = tail ↔ ∀ b ∈ tail, b = 0 := by
  constructor
  · intro h b hb
    obtain ⟨p, hp⟩ := List.mem_iff_getElem?.mp hb
    -- An element is zero, or it is the element `k` places before it.
    induction p using Nat.strong_induction_on generalizing b with
    | _ p ih =>
        have hlt : p < tail.length := (List.getElem?_eq_some_iff.mp hp).1
        rw [← h, List.getElem?_take_of_lt hlt] at hp
        by_cases hfront : p < k
        · rw [List.getElem?_append_left (by simpa using hfront), List.getElem?_replicate,
            if_pos hfront] at hp
          exact (Option.some.inj hp).symm
        · rw [List.getElem?_append_right (by simpa using hfront), List.length_replicate] at hp
          exact ih (p - k) (by omega) b (List.mem_of_getElem? hp) hp
  · intro h
    have hzeros : tail = List.replicate tail.length 0 := List.eq_replicate_iff.mpr ⟨rfl, h⟩
    rw [hzeros, List.replicate_append_replicate, List.take_replicate, List.length_replicate]
    congr 1
    omega

/-- The view is the file when it is the last one, or when its last chunk is zero. -/
theorem localView_eq_iff (isLast : Bool) :
    localView contents isLast = contents ↔
      isLast = true ∨ ∀ b ∈ contents.drop (31 * (contents.length / 31)), b = 0 := by
  cases isLast with
  | true => simp [localView]
  | false =>
      have hlength : (contents.drop (31 * (contents.length / 31))).length =
          contents.length % 31 := by
        rw [List.length_drop]
        omega
      have hpad : 0 < 31 - (contents.drop (31 * (contents.length / 31))).length := by omega
      have hsplit := List.take_append_drop (31 * (contents.length / 31)) contents
      simp only [localView, Bool.false_eq_true, if_false, false_or]
      rw [← take_zeros_append hpad, hlength, ← hlength]
      constructor
      · intro hsame
        have hboth := hsame.trans hsplit.symm
        exact List.append_cancel_left hboth
      · intro htail
        rw [alignRight, htail, hsplit]

/-- In front of its last chunk, the view is the file. -/
theorem slice_localView (isLast : Bool) {start len : Nat}
    (h : start + len ≤ 31 * (contents.length / 31)) :
    slice (localView contents isLast) start len = slice contents start len := by
  cases isLast with
  | true => rfl
  | false =>
      have hfront : (contents.take (31 * (contents.length / 31))).length =
          31 * (contents.length / 31) := by
        rw [List.length_take]
        omega
      simp only [localView, Bool.false_eq_true, if_false]
      rw [slice, slice, List.drop_append_of_le_length (by omega),
        List.take_append_of_le_length (by rw [List.length_drop]; omega), List.drop_take,
        List.take_take]
      congr 1
      omega

end Read

/-- A slab as the browser and the gateway make it: each file starts with an MDU of its own, behind
the witness MDUs, and its pieces are in its MDUs. -/
structure SlabOf (mdus : List Bytes) (files : List NilfsFileEntry) (w : Nat)
    (contents : NilfsFileEntry → Bytes) : Prop where
  count : mdus.length = 1 + w + userMdus files
  size : ∀ f ∈ files, f.sizeBytes = (contents f).length
  sized : ∀ f ∈ files, 0 < f.sizeBytes ∧ f.fileEnd < 2 ^ 53
  aligned : ∀ f ∈ files, mduPayloadBytes ∣ f.startOffset
  apart : ∀ f ∈ files, ∀ g ∈ files, g = f ∨ g.fileEnd ≤ f.startOffset ∨ f.fileEnd ≤ g.startOffset
  stored : ∀ f ∈ files, ∀ j, j * mduPayloadBytes < (contents f).length →
    mdus[1 + w + (f.startOffset / mduPayloadBytes + j)]? =
      some (encodeToMdu (((contents f).drop (j * mduPayloadBytes)).take mduPayloadBytes))

/-- After every run in which no saved slab was larger than the last one, every read of a range
returns that range of the file's view. So it returns the range of the file when the file is the last
one of the slab, or when the range ends before the file's last chunk; and a read of the whole file
returns the file in the first case and when its last chunk is zero, and in no other. -/
theorem local_read (sha256 : Bytes → Bytes) (past rest : List DirEvent) (manifestRoot : Str)
    (manifestBlob : Option Bytes) (mdus : List Bytes) (shards : List SlabShard)
    (hsmall : mdus.length ≤ 2 ^ 53) (hlargest : mostMdus past ≤ mdus.length)
    (hrest : ∀ e ∈ rest, e.NoSave)
    (files : List NilfsFileEntry) (w : Nat) (contents : NilfsFileEntry → Bytes)
    (hslab : SlabOf mdus files w contents) (f : NilfsFileEntry) (hf : f ∈ files) :
    let dir := run (DirEvent.apply sha256) .empty
      (past ++ .persist manifestRoot manifestBlob mdus shards :: rest)
    (∀ rangeStart rangeLen, rangeStart < f.sizeBytes →
      readNilfsFileFromOpfs dir f files rangeStart rangeLen =
        .ok (slice (localView (contents f) (isLastFile files f)) rangeStart
          (readLength f.sizeBytes rangeStart rangeLen)) ∧
      ((isLastFile files f ∨
          rangeStart + readLength f.sizeBytes rangeStart rangeLen ≤
            31 * ((contents f).length / 31)) →
        readNilfsFileFromOpfs dir f files rangeStart rangeLen =
          .ok (slice (contents f) rangeStart (readLength f.sizeBytes rangeStart rangeLen)))) ∧
    (readNilfsFileFromOpfs dir f files 0 0 = .ok (contents f) ↔
      isLastFile files f ∨ ∀ b ∈ (contents f).drop (31 * ((contents f).length / 31)), b = 0) := by
  intro dir
  -- no larger slab was there before, so the layout is inferred right
  have hinferred : inferWitnessCountFromOpfs dir files = .ok _ :=
    inferred_saved ⟨hlargest.trans hsmall, hsmall⟩ hrest hslab.count
  rw [Nat.sub_eq_zero_of_le hlargest, Nat.add_zero] at hinferred
  have h : InLocalSlab dir files _ f (contents f) := {
    inferred := hinferred
    listed := hf
    size := hslab.size f hf
    sized := hslab.sized
    aligned := hslab.aligned
    apart := hslab.apart f hf
    stored := fun j hj => readMdu_saved hsmall hrest (hslab.stored f hf j hj) }
  constructor
  -- a range of the file
  · intro rangeStart rangeLen hstart
    have hread := h.read_eq rangeLen hstart
    refine ⟨hread, ?_⟩
    rintro (hlast | hbefore)
    · rw [hread, hlast]
      rfl
    · rw [hread, slice_localView _ hbefore]
  -- the whole file is the range of its length
  · have hpos := (h.sized f h.listed).1
    have hwhole : slice (localView (contents f) (isLastFile files f)) 0
        (readLength f.sizeBytes 0 0) =
        localView (contents f) (isLastFile files f) := by
      have hlength := length_localView (contents f) (isLastFile files f)
      rw [slice, List.drop_zero, readLength, if_neg (lt_irrefl 0), List.take_of_length_le]
      rw [hlength, h.size]
      omega
    rw [h.read_eq 0 hpos, hwhole, ← localView_eq_iff]
    exact ⟨Except.ok.inj, congrArg Except.ok⟩

/-- A file of 33 bytes, the last two of them in a chunk of their own. -/
def firstFile : Bytes := List.replicate 31 1 ++ [7, 8]

/-- A file behind it. -/
def secondFile : Bytes := [9]

/-- The slab of the two. -/
def twoFiles : List NilfsFileEntry := [⟨"a".toList, 33, 0, 0⟩, ⟨"b".toList, 1, mduPayloadBytes, 0⟩]

/-- What is in them. -/
def twoContents (f : NilfsFileEntry) : Bytes := if f.startOffset = 0 then firstFile else secondFile

/-- A file that fits in one MDU is one piece. -/
theorem short_piece {contents : Bytes} (h : contents.length ≤ mduPayloadBytes) {j : Nat}
    (hj : j * mduPayloadBytes < contents.length) :
    j = 0 ∧ (contents.drop (j * mduPayloadBytes)).take mduPayloadBytes = contents := by
  have hzero : j = 0 := by
    by_contra hne
    have hmul := Nat.mul_le_mul_right mduPayloadBytes (Nat.one_le_iff_ne_zero.mpr hne)
    rw [Nat.one_mul] at hmul
    exact absurd (h.trans hmul) (Nat.not_le.mpr hj)
  subst hzero
  rw [Nat.zero_mul, List.drop_zero, List.take_of_length_le h]
  exact ⟨rfl, rfl⟩

/-- The two sample files are saved as a slab: one witness MDU, and an MDU for each file. -/
theorem slabOf_twoFiles :
    SlabOf [[], [], encodeToMdu firstFile, encodeToMdu secondFile] twoFiles 1 twoContents where
  count := by
    have huser : userMdus twoFiles = 2 := by decide
    rw [huser]
    rfl
  size := by decide
  sized := by decide
  aligned := by decide
  apart := by decide
  stored := by
    intro f hf j hj
    have hshort : (twoContents f).length ≤ mduPayloadBytes := by
      unfold twoContents
      split <;> decide
    obtain ⟨rfl, hpiece⟩ := short_piece hshort hj
    rw [hpiece]
    -- the first file is in the third MDU of the slab, and the second behind it
    rcases List.mem_cons.mp hf with rfl | hf
    · rfl
    · rw [List.mem_singleton.mp hf]
      have hindex : mduPayloadBytes / mduPayloadBytes = 1 := by decide
      show [[], [], encodeToMdu firstFile,
        encodeToMdu secondFile][1 + 1 + (mduPayloadBytes / mduPayloadBytes + 0)]? = _
      rw [hindex]
      rfl

/-- The first file is not read back, since another one follows it. Its first chunk is. -/
theorem local_read_twoFiles :
    let dir := run (DirEvent.apply id) .empty
      ([] ++ .persist [] none [[], [], encodeToMdu firstFile, encodeToMdu secondFile] [] :: [])
    readNilfsFileFromOpfs dir ⟨"a".toList, 33, 0, 0⟩ twoFiles 0 0 ≠ .ok firstFile ∧
      readNilfsFileFromOpfs dir ⟨"a".toList, 33, 0, 0⟩ twoFiles 0 31 =
        .ok (List.replicate 31 1) := by
  have hread :=
    local_read id [] [] [] none [[], [], encodeToMdu firstFile, encodeToMdu secondFile] []
    (by decide) (by decide) (by simp) twoFiles 1 twoContents slabOf_twoFiles ⟨"a".toList, 33, 0, 0⟩
    List.mem_cons_self
  constructor
  · intro hwhole
    rcases hread.2.mp hwhole with hlast | hzero
    · exact absurd hlast (by decide)
    · exact absurd (hzero 7 (by decide)) (by decide)
  · exact (hread.1 0 31 (by decide)).2 (Or.inr (by decide))

end NilStore.Website
