import NilStore.Gateway.Reader
import NilStore.Gateway.StripeParams

/-!
# `NilStore.Proofs.WitnessReader`: commitments read back from the witness MDUs

The encoder right-aligns the last chunk of the whole witness stream in its scalar. The reader of one
user MDU's commitments takes the range it reads for the file, and expects the last chunk of this
range to be right-aligned. `readRange` says what a read of a range returns: all of it but the bytes
in the last chunk, which are taken from where the reader expects them. `witness_roundTrip_iff` says
when these are the right ones: always for a slab with one user MDU, and for more of them only by
coincidence.

The proof follows the reader with the invariant `Ready stream r bytes`: `r` is at a place of the
stream from where it is going to deliver `bytes`.
-/

set_option autoImplicit false

namespace NilStore.Gateway

open NilStore.Lib NilStore.Core

/-- The directory holds the MDUs of the stream. -/
def HoldsStream (dealDir : DealDir) (stream : Bytes) : Prop :=
  ∀ mdu, mdu * rawMduCapacity < stream.length →
    dealDir (1 + mdu) = some (payloadMdu (witnessChunk stream mdu))

/-- Scalar `g` of the stream, counted over all MDUs. -/
def streamScalar (stream : Bytes) (g : Nat) : Bytes :=
  alignRight 0 32 ((stream.drop (31 * g)).take 31)

/-- The scalars of an MDU are those of the stream. -/
theorem wordAt_witnessMdu (stream : Bytes) (mdu : Nat) {i : Nat} (hi : i < scalarsPerMdu) :
    wordAt 32 i (payloadMdu (witnessChunk stream mdu)) =
      streamScalar stream (mdu * scalarsPerMdu + i) := by
  have hplace : 31 * (mdu * scalarsPerMdu + i) = mdu * rawMduCapacity + 31 * i := by
    rw [scalarsPerMdu, rawMduCapacity]
    omega
  have hroom : min 31 (rawMduCapacity - 31 * i) = 31 := by
    rw [scalarsPerMdu] at hi
    rw [rawMduCapacity]
    omega
  rw [scalar_payloadMdu hi, witnessChunk_eq, streamScalar, hplace, List.drop_take, List.take_take,
    List.drop_drop, hroom]

/-! ### Slices of the stream -/

/-- Two slices that meet are one slice. -/
theorem slice_append (stream : Bytes) {a b c : Nat} (hab : a ≤ b) (hbc : b ≤ c) :
    slice stream a b ++ slice stream b c = slice stream a c := by
  have htake : stream.take c = stream.take b ++ (stream.drop b).take (c - b) := by
    rw [← List.take_add]
    congr 1
    omega
  rw [slice, slice, slice, htake]
  by_cases hlong : b ≤ stream.length
  · have hlength : (stream.take b).length = b := List.length_take_of_le hlong
    rw [List.drop_left' hlength, List.drop_append_of_le_length (by omega)]
  · have hempty : stream.drop b = [] := List.drop_of_length_le (by omega)
    have hend : (stream.take b).drop b = [] :=
      List.drop_of_length_le (List.length_take_le _ _)
    rw [hempty, List.take_nil, List.append_nil, hend, List.append_nil]

/-- A slice inside the stream has its full length. -/
theorem length_slice {stream : Bytes} {a b : Nat} (h : b ≤ stream.length) :
    (slice stream a b).length = b - a := by
  rw [slice, List.length_drop, List.length_take, Nat.min_eq_left h]

/-! ### The invariant of the reader -/

/-- What the reader takes from scalar `g` of the stream. -/
def fetched (stream : Bytes) (fileStart fileLen g : Nat) : Bytes :=
  ((streamScalar stream g).drop (payloadBounds fileStart fileLen (31 * g)).1).take
    (payloadBounds fileStart fileLen (31 * g)).2

/-- What the reader takes from `count` scalars from `g` on, without the first `offset` bytes of the
first. -/
def upcoming (stream : Bytes) (fileStart fileLen : Nat) : Nat → Nat → Nat → Bytes
  | _, _, 0 => []
  | g, offset, count + 1 =>
      (fetched stream fileStart fileLen g).drop offset ++
        upcoming stream fileStart fileLen (g + 1) 0 count

/-- The scalar that the reader takes next, counted over all MDUs. -/
def NilfsDecodedReader.place (r : NilfsDecodedReader) : Nat :=
  r.currentUserMdu * scalarsPerMdu + r.currentScalar

/-- The reader is going to deliver `bytes`. From its MDU on, the directory holds the stream. -/
structure Ready (stream : Bytes) (r : NilfsDecodedReader) (bytes : Bytes) : Prop where
  holds : ∀ mdu, r.currentUserMdu ≤ mdu → mdu * rawMduCapacity < stream.length →
    r.dealDir (r.slabStartIdx + mdu) = some (payloadMdu (witnessChunk stream mdu))
  file : r.file =
    some ((payloadMdu (witnessChunk stream r.currentUserMdu)).drop (32 * r.currentScalar))
  scalar_le : r.currentScalar ≤ scalarsPerMdu
  offset : r.payloadOffset = 0 ∨ r.currentScalar < scalarsPerMdu
  remaining : r.remaining = bytes.length
  ahead : ∃ count, (∀ i < count, 31 * (r.place + i) < stream.length) ∧
    bytes <+: r.payloadBuf.drop r.payloadBufIndex ++
      upcoming stream r.fileStartOffset r.fileLen r.place r.payloadOffset count

section Steps

variable {stream bytes : Bytes} {r : NilfsDecodedReader}

/-- With an empty buffer and something left to read, a scalar is ahead. -/
theorem Ready.next_scalar (h : Ready stream r bytes)
    (hempty : ¬r.payloadBufIndex < r.payloadBuf.length) (hremaining : 0 < r.remaining) :
    ∃ count, (∀ i < count + 1, 31 * (r.place + i) < stream.length) ∧
      bytes <+: (fetched stream r.fileStartOffset r.fileLen r.place).drop r.payloadOffset ++
        upcoming stream r.fileStartOffset r.fileLen (r.place + 1) 0 count := by
  obtain ⟨count, hbelow, hprefix⟩ := h.ahead
  rw [List.drop_of_length_le (by omega), List.nil_append] at hprefix
  cases count with
  | zero =>
      -- Nothing is ahead, so nothing is left to read.
      have hlength := hprefix.length_le
      rw [← h.remaining, upcoming, List.length_nil] at hlength
      omega
  | succ count => exact ⟨count, hbelow, hprefix⟩

/-- A copy out of the buffer. -/
theorem Ready.copy {count : Nat} (h : Ready stream r bytes)
    (hbuf : count ≤ r.payloadBuf.length - r.payloadBufIndex) :
    Ready stream { r with
      payloadBufIndex := r.payloadBufIndex + count, remaining := r.remaining - count }
      (bytes.drop count) := by
  obtain ⟨ahead, hbelow, hprefix⟩ := h.ahead
  have hshorter : bytes.drop count <+: r.payloadBuf.drop (r.payloadBufIndex + count) ++
      upcoming stream r.fileStartOffset r.fileLen r.place r.payloadOffset ahead := by
    have hdrop := hprefix.drop count
    rwa [List.drop_append_of_le_length (by rw [List.length_drop]; exact hbuf), List.drop_drop]
      at hdrop
  exact
    { holds := h.holds
      file := h.file
      scalar_le := h.scalar_le
      offset := h.offset
      remaining := by rw [List.length_drop, h.remaining]
      ahead := ⟨ahead, hbelow, hshorter⟩ }

/-- The bytes that a copy takes out of the buffer are the next ones. -/
theorem Ready.copied (h : Ready stream r bytes) (count : Nat) (hcount : count ≤ r.remaining)
    (hbuf : count ≤ r.payloadBuf.length - r.payloadBufIndex) :
    slice r.payloadBuf r.payloadBufIndex (r.payloadBufIndex + count) = bytes.take count := by
  obtain ⟨ahead, -, hprefix⟩ := h.ahead
  obtain ⟨rest, hrest⟩ := hprefix
  have htake := congrArg (List.take count) hrest
  rw [List.take_append_of_le_length (by rw [← h.remaining]; exact hcount),
    List.take_append_of_le_length (by rw [List.length_drop]; exact hbuf)] at htake
  rw [htake, slice, List.drop_take, Nat.add_sub_cancel_left]

/-- The next scalar of the file. The reader takes the payload of the range out of it and moves
on. -/
theorem Ready.takeScalar {rest : Bytes} (h : Ready stream r bytes) (hfile : r.file = some rest)
    (hempty : ¬r.payloadBufIndex < r.payloadBuf.length) (hremaining : 0 < r.remaining)
    (hscalar : r.currentScalar < scalarsPerMdu) :
    Ready stream (r.takeScalar (rest.take scalarBytes) (rest.drop scalarBytes)) bytes := by
  -- there is something left, so the next chunk is below the end
  obtain ⟨count, hbelow, hprefix⟩ := h.next_scalar hempty hremaining
  have hrest : rest =
      (payloadMdu (witnessChunk stream r.currentUserMdu)).drop (32 * r.currentScalar) :=
    Option.some.inj (hfile.symm.trans h.file)
  have hword : rest.take scalarBytes = streamScalar stream r.place := by
    rw [hrest]
    exact wordAt_witnessMdu stream r.currentUserMdu hscalar
  have hstart : r.currentUserMdu * rawMduCapacity + r.currentScalar * scalarPayloadBytes =
      31 * r.place := by
    rw [NilfsDecodedReader.place, rawMduCapacity, scalarPayloadBytes, scalarsPerMdu]
    omega
  -- what is kept of it, and what is left of the file
  have hbuf : (r.takeScalar (rest.take scalarBytes) (rest.drop scalarBytes)).payloadBuf =
      fetched stream r.fileStartOffset r.fileLen r.place := by
    rw [fetched, ← hword, ← hstart]
    rfl
  have hdrop : rest.drop scalarBytes = (payloadMdu (witnessChunk stream r.currentUserMdu)).drop
      (32 * (r.currentScalar + 1)) := by
    rw [hrest, List.drop_drop]
    rfl
  have hplace : (r.takeScalar (rest.take scalarBytes) (rest.drop scalarBytes)).place =
      r.place + 1 :=
    (Nat.add_assoc _ _ _).symm
  refine
    { holds := h.holds
      file := congrArg some hdrop
      scalar_le := Nat.succ_le_of_lt hscalar
      offset := Or.inl rfl
      remaining := h.remaining
      ahead := ⟨count, ?_, ?_⟩ }
  · intro i hi
    have hlt := hbelow (i + 1) (by omega)
    rw [hplace]
    omega
  · rw [hbuf, hplace]
    exact hprefix

/-- The next MDU. The reader opens its file when the scalars of the last one are used up. -/
theorem Ready.openNext (h : Ready stream r bytes)
    (hempty : ¬r.payloadBufIndex < r.payloadBuf.length) (hremaining : 0 < r.remaining)
    (hscalar : ¬r.currentScalar < scalarsPerMdu) :
    ∃ r', NilfsDecodedReader.openCurrent { r with
        currentUserMdu := r.currentUserMdu + 1, currentScalar := 0, payloadOffset := 0 } = .ok r' ∧
      Ready stream r' bytes := by
  obtain ⟨count, hbelow, hprefix⟩ := h.next_scalar hempty hremaining
  have hend : r.currentScalar = scalarsPerMdu := Nat.le_antisymm h.scalar_le (Nat.not_lt.mp hscalar)
  have hoffset : r.payloadOffset = 0 := h.offset.resolve_right hscalar
  -- the place is the first of the next MDU
  have hplace : r.place = (r.currentUserMdu + 1) * scalarsPerMdu + 0 := by
    rw [NilfsDecodedReader.place, hend, Nat.add_mul, Nat.one_mul, Nat.add_zero]
  -- which is in the stream, so its file is there
  have hmdu : (r.currentUserMdu + 1) * rawMduCapacity < stream.length := by
    have hlt := hbelow 0 (Nat.succ_pos _)
    rw [hplace, scalarsPerMdu] at hlt
    rw [rawMduCapacity]
    omega
  have hopen := h.holds _ (Nat.le_succ _) hmdu
  refine ⟨{ r with
    currentUserMdu := r.currentUserMdu + 1
    currentScalar := 0
    file := some ((payloadMdu (witnessChunk stream (r.currentUserMdu + 1))).drop (0 * scalarBytes))
    payloadOffset := 0
    payloadBuf := []
    payloadBufIndex := 0 }, ?_, ?_⟩
  · refine NilfsDecodedReader.openCurrent_ok ?_
    exact hopen
  · refine
      { holds := fun mdu hmdu => h.holds mdu (Nat.le_of_succ_le hmdu)
        file := congrArg (fun n => some (List.drop n _)) (Nat.zero_mul scalarBytes)
        scalar_le := Nat.zero_le _
        offset := Or.inl rfl
        remaining := h.remaining
        ahead := ⟨count + 1, ?_, ?_⟩ }
    · intro i hi
      have hlt := hbelow i hi
      rw [hplace] at hlt
      exact hlt
    · rw [hoffset, hplace] at hprefix
      show bytes <+: ([] : Bytes) ++ upcoming stream r.fileStartOffset r.fileLen
        ((r.currentUserMdu + 1) * scalarsPerMdu + 0) 0 (count + 1)
      rw [List.nil_append, upcoming]
      exact hprefix

/-- One call of `Read` delivers what there is room for. It ends when the room is used or when
nothing remains. -/
theorem Ready.readLoop (stream : Bytes) (r : NilfsDecodedReader) (room : Nat) (out : Bytes) :
    ∀ bytes, Ready stream r bytes → 0 < out.length + r.remaining →
      ∃ r', r.readLoop room out = (r', out ++ bytes.take room, none) ∧
        Ready stream r' (bytes.drop room) := by
  -- the cases are those of the loop; an open file is never missing
  fun_induction NilfsDecodedReader.readLoop r room out with
  | case1 r room out hloop hfull count ih =>
      intro bytes h hsome
      have hcopied := h.copied count (by omega) (by omega)
      have hgrown : 0 < (out ++ bytes.take count).length + (r.remaining - count) := by
        rw [List.length_append, List.length_take, ← h.remaining]
        omega
      rw [hcopied] at ih ⊢
      obtain ⟨r', hread, hready⟩ := ih _ (h.copy (by omega)) hgrown
      have hroom : room = count + (room - count) := by omega
      refine ⟨r', ?_, ?_⟩
      · rw [hread, hroom, List.take_add, Nat.add_sub_cancel_left, List.append_assoc]
      · rw [List.drop_drop, ← hroom] at hready
        exact hready
  | case2 r room out hloop hempty hfile =>
      intro bytes h hsome
      rw [h.file] at hfile
      cases hfile
  | case3 r room out hloop hempty rest hfile hscalar hrest ih =>
      intro bytes h hsome
      exact ih _ (h.takeScalar hfile hempty hloop.2 hscalar) hsome
  | case4 r room out hloop hempty rest hfile hscalar hrest =>
      intro bytes h hsome
      -- An MDU file ends with its last scalar.
      have hlength := length_payloadMdu (length_witnessChunk_le stream r.currentUserMdu)
      rw [Option.some.inj (hfile.symm.trans h.file), List.length_drop, hlength] at hrest
      simp only [mduSize, scalarBytes, scalarsPerMdu] at hrest hscalar
      omega
  | case5 r room out hloop hempty rest hfile hscalar next r' hopen ih =>
      intro bytes h hsome
      obtain ⟨opened, hok, hready⟩ := h.openNext hempty hloop.2 hscalar
      cases hopen.symm.trans hok
      exact ih _ hready (by rw [hready.remaining, ← h.remaining]; exact hsome)
  | case6 r room out hloop hempty rest hfile hscalar next text hopen =>
      intro bytes h hsome
      obtain ⟨opened, hok, -⟩ := h.openNext hempty hloop.2 hscalar
      cases hopen.symm.trans hok
  | case7 r room out hloop =>
      intro bytes h hsome
      have hdone : ¬(out.length = 0 ∧ r.remaining = 0) := by omega
      rw [if_neg hdone]
      by_cases hroom : room = 0
      · rw [hroom, List.take_zero, List.append_nil]
        exact ⟨r, rfl, h⟩
      · have hbytes : bytes = [] := by
          have hremaining := h.remaining
          rw [← List.length_eq_zero_iff]
          omega
        subst hbytes
        rw [List.take_nil, List.append_nil, List.drop_nil]
        exact ⟨r, rfl, h⟩

/-- Reading to the end delivers everything. Each call makes the rest shorter, however much room it
has. -/
theorem Ready.readAll (spare : Nat → Nat) (b : Bytes) (h : Ready stream r bytes) :
    r.readAll spare b = .ok (b ++ bytes) := by
  induction hlength : bytes.length using Nat.strong_induction_on generalizing r bytes b with
  | _ m ih =>
      rw [NilfsDecodedReader.readAll]
      -- nothing is left, and the reader says so
      by_cases hend : r.remaining = 0
      · have hread : r.read (spare b.length + 1) = (r, [], some .eof) := by
          rw [NilfsDecodedReader.read, if_pos hend]
        have hbytes : bytes = [] := List.length_eq_zero_iff.mp (by rw [← h.remaining]; exact hend)
        split
        · rename_i hsome
          cases hread.symm.trans hsome
        · rename_i hsome
          cases hread.symm.trans hsome
          rw [hbytes]
        · rename_i hsome
          cases hread.symm.trans hsome
      · obtain ⟨next, hloop, hready⟩ :=
          Ready.readLoop stream r (spare b.length + 1) [] bytes h (by omega)
        have hread : r.read (spare b.length + 1) =
            (next, bytes.take (spare b.length + 1), none) := by
          rw [NilfsDecodedReader.read, if_neg hend, if_neg (Nat.succ_ne_zero _), hloop]
          rfl
        have hshorter : (bytes.drop (spare b.length + 1)).length < m := by
          have hremaining := h.remaining
          rw [List.length_drop]
          omega
        -- what the call delivers goes in front of the rest
        split
        · rename_i hsome
          cases hread.symm.trans hsome
          rw [ih _ hshorter _ hready rfl, List.append_assoc, List.take_append_drop]
        · rename_i hsome
          cases hread.symm.trans hsome
        · rename_i hsome
          cases hread.symm.trans hsome

end Steps

/-! ### A read of a range -/

/-- What is not the final chunk of the reader's file, and full, is taken as it was written. -/
theorem fetched_full {stream : Bytes} {fileStart fileLen g : Nat}
    (hfull : 31 * g + 31 ≤ stream.length)
    (hbounds : payloadBounds fileStart fileLen (31 * g) = (1, 31)) :
    fetched stream fileStart fileLen g = slice stream (31 * g) (31 * g + 31) := by
  have hlength : ((stream.drop (31 * g)).take 31).length = 31 := by
    rw [List.length_take, List.length_drop]
    omega
  have hdrop := drop_alignRight ((stream.drop (31 * g)).take 31) 32
  rw [hlength] at hdrop
  rw [fetched, hbounds, streamScalar]
  show (List.drop (32 - 31) _).take 31 = _
  rw [hdrop, List.take_take, Nat.min_self, slice, List.drop_take, Nat.add_sub_cancel_left]

/-- Full scalars and one more. The offset is that of the first scalar alone. -/
theorem upcoming_eq {stream : Bytes} {fileStart fileLen : Nat} (count g offset : Nat)
    (hfull : ∀ i < count, 31 * (g + i) + 31 ≤ stream.length ∧
      payloadBounds fileStart fileLen (31 * (g + i)) = (1, 31))
    (hoffset : offset ≤ 31) (hcount : offset = 0 ∨ 0 < count) :
    upcoming stream fileStart fileLen g offset (count + 1) =
      slice stream (31 * g + offset) (31 * (g + count)) ++
        fetched stream fileStart fileLen (g + count) := by
  -- by the number of the full scalars
  induction count generalizing g offset with
  | zero =>
      have hzero : offset = 0 := by omega
      have hempty : slice stream (31 * g) (31 * g) = [] := by
        rw [slice, List.drop_of_length_le (List.length_take_le _ _)]
      rw [hzero, upcoming, upcoming, List.append_nil, List.drop_zero, Nat.add_zero, Nat.add_zero,
        hempty, List.nil_append]
  | succ count ih =>
      obtain ⟨hlength, hbounds⟩ :
          31 * g + 31 ≤ stream.length ∧ payloadBounds fileStart fileLen (31 * g) = (1, 31) :=
        hfull 0 (Nat.succ_pos _)
      have hrest : ∀ i < count, 31 * (g + 1 + i) + 31 ≤ stream.length ∧
          payloadBounds fileStart fileLen (31 * (g + 1 + i)) = (1, 31) := by
        intro i hi
        have hnext := hfull (i + 1) (by omega)
        rw [Nat.add_comm i 1, ← Nat.add_assoc] at hnext
        exact hnext
      -- the first one from the offset on
      have hfirst : (fetched stream fileStart fileLen g).drop offset =
          slice stream (31 * g + offset) (31 * (g + 1) + 0) := by
        rw [fetched_full hlength hbounds, slice, slice, List.drop_drop, Nat.mul_succ, Nat.add_zero]
      have hplace : g + 1 + count = g + (count + 1) := by omega
      rw [upcoming, hfirst, ih (g + 1) 0 hrest (Nat.zero_le _) (Or.inl rfl), ← List.append_assoc,
        slice_append stream (by omega) (by omega), hplace]

/-- How many bytes of payload the reader of a range expects in the scalar of the range's last
byte. -/
def expectedLen (start span : Nat) : Nat :=
  let rem := (span - 1) % 31 + 1
  if start % 31 = 0 ∨ 31 < start % 31 + rem then rem else 31

/-- The bytes of a range in its last chunk are in the place where the reader of the range expects
them: at the beginning of the last `expectedLen` bytes of the scalar. -/
def TailInPlace (stream : Bytes) (start span : Nat) : Prop :=
  let last := (start + span - 1) / 31
  let wanted := start + span - 31 * last
  ((streamScalar stream last).drop (32 - expectedLen start span)).take wanted =
    (stream.drop (31 * last)).take wanted

instance (stream : Bytes) (start span : Nat) : Decidable (TailInPlace stream start span) := by
  unfold TailInPlace
  infer_instance

/-- Before the last chunk of a range, no chunk is taken for the final one. -/
theorem payloadBounds_inner {start span g : Nat} (hspan : 0 < span)
    (hg : g < (start + span - 1) / 31) : payloadBounds start span (31 * g) = (1, 31) := by
  rw [payloadBounds, scalarPayloadBytes]
  simp only
  rw [if_neg]
  omega

/-- The last chunk of a range. -/
theorem payloadBounds_last {start span : Nat} (hspan : 0 < span) :
    payloadBounds start span (31 * ((start + span - 1) / 31)) =
      (32 - expectedLen start span, expectedLen start span) := by
  rw [payloadBounds, scalarPayloadBytes, expectedLen, scalarBytes]
  simp only
  by_cases hfinal : start % 31 = 0 ∨ 31 < start % 31 + ((span - 1) % 31 + 1)
  · have hchunk : 0 < span ∧ 31 * ((start + span - 1) / 31) ≥ start ∧
        (31 * ((start + span - 1) / 31) - start) / 31 = (span - 1) / 31 := by omega
    rw [if_pos hfinal, if_pos hchunk]
    split <;> split <;> congr 1 <;> omega
  · have hchunk : ¬(0 < span ∧ 31 * ((start + span - 1) / 31) ≥ start ∧
        (31 * ((start + span - 1) / 31) - start) / 31 = (span - 1) / 31) := by omega
    rw [if_neg hfinal, if_neg hchunk]

/-- No more is wanted of the last chunk than is expected in it. -/
theorem wanted_le (start : Nat) {span : Nat} (hspan : 0 < span) :
    start + span - 31 * ((start + span - 1) / 31) ≤ expectedLen start span ∧
      expectedLen start span ≤ 31 := by
  rw [expectedLen]
  split <;> omega

/-- A scalar of the stream takes one word. -/
theorem length_streamScalar (stream : Bytes) (g : Nat) : (streamScalar stream g).length = 32 := by
  refine length_alignRight ?_
  rw [List.length_take]
  omega

/-- A read of a range returns the range up to its last chunk, and of that what is where the reader
expects it. The reader looks for the last bytes as if the file ended there. -/
theorem readRange (spare : Nat → Nat) {dealDir : DealDir} {stream : Bytes} {start span : Nat}
    (hholds : HoldsStream dealDir stream) (hspan : 31 < span) (hle : start + span ≤ stream.length) :
    ∃ r, newNilfsDecodedReader dealDir 1 start span start span = .ok r ∧
      r.readAll spare [] = .ok (slice stream start (31 * ((start + span - 1) / 31)) ++
        ((streamScalar stream ((start + span - 1) / 31)).drop (32 - expectedLen start span)).take
          (start + span - 31 * ((start + span - 1) / 31))) := by
  have hspan0 : 0 < span := by omega
  obtain ⟨hwanted, hexpected⟩ := wanted_le start hspan0
  have hscalar : start % rawMduCapacity / 31 < scalarsPerMdu := by
    rw [rawMduCapacity, scalarsPerMdu]
    omega
  have hplace : start / rawMduCapacity * scalarsPerMdu + start % rawMduCapacity / 31 =
      start / 31 := by
    rw [rawMduCapacity, scalarsPerMdu]
    omega
  have hoffset : start % rawMduCapacity % 31 = start % 31 := by
    rw [rawMduCapacity]
    omega
  have hmdu : start / rawMduCapacity * rawMduCapacity < stream.length := by
    rw [rawMduCapacity]
    omega
  obtain ⟨count, hcount⟩ : ∃ count, (start + span - 1) / 31 = start / 31 + (count + 1) :=
    ⟨(start + span - 1) / 31 - start / 31 - 1, by omega⟩
  -- What the reader takes from the chunks of the range.
  have hinner : ∀ i < count + 1, 31 * (start / 31 + i) + 31 ≤ stream.length ∧
      payloadBounds start span (31 * (start / 31 + i)) = (1, 31) := by
    intro i hi
    constructor
    · omega
    · exact payloadBounds_inner hspan0 (by omega)
  have hlast : fetched stream start span ((start + span - 1) / 31) =
      ((streamScalar stream ((start + span - 1) / 31)).drop (32 - expectedLen start span)).take
        (expectedLen start span) := by
    rw [fetched, payloadBounds_last hspan0]
  have hupcoming : upcoming stream start span (start / 31) (start % 31) (count + 1 + 1) =
      slice stream start (31 * ((start + span - 1) / 31)) ++
        fetched stream start span ((start + span - 1) / 31) := by
    have hstart : 31 * (start / 31) + start % 31 = start := Nat.div_add_mod start 31
    rw [upcoming_eq (count + 1) (start / 31) (start % 31) hinner (by omega) (Or.inr (by omega)),
      hstart, hcount]
  -- what is read is as long as the range
  have hlength : (slice stream start (31 * ((start + span - 1) / 31)) ++
      ((streamScalar stream ((start + span - 1) / 31)).drop (32 - expectedLen start span)).take
        (start + span - 31 * ((start + span - 1) / 31))).length = span := by
    rw [List.length_append, length_slice (by omega), List.length_take, List.length_drop,
      length_streamScalar]
    omega
  refine ⟨{
    dealDir, slabStartIdx := 1, fileStartOffset := start, fileLen := span, remaining := span
    currentUserMdu := start / rawMduCapacity
    currentScalar := start % rawMduCapacity / 31
    file := some ((payloadMdu (witnessChunk stream (start / rawMduCapacity))).drop
      (start % rawMduCapacity / 31 * scalarBytes))
    payloadOffset := start % rawMduCapacity % 31
    payloadBuf := []
    payloadBufIndex := 0 }, ?_, ?_⟩
  -- the reader opens the MDU of the start
  · rw [newNilfsDecodedReader, if_neg (by omega)]
    have hinside : ¬start % rawMduCapacity / scalarPayloadBytes ≥ scalarsPerMdu :=
      Nat.not_le.mpr hscalar
    simp only [if_neg hinside]
    exact NilfsDecodedReader.openCurrent_ok (hholds _ hmdu)
  -- and is ready to read what is upcoming
  · apply Ready.readAll spare []
    show Ready stream _ _
    refine
      { holds := fun mdu _ => hholds mdu
        file := congrArg (fun n => some (List.drop n _)) (Nat.mul_comm _ _)
        scalar_le := Nat.le_of_lt hscalar
        offset := Or.inr hscalar
        remaining := hlength.symm
        ahead := ⟨count + 1 + 1, ?_, ?_⟩ }
    · intro i hi
      show 31 * (start / rawMduCapacity * scalarsPerMdu + start % rawMduCapacity / 31 + i) < _
      rw [hplace]
      omega
    · show _ <+: ([] : Bytes) ++ upcoming stream start span
        (start / rawMduCapacity * scalarsPerMdu + start % rawMduCapacity / 31)
        (start % rawMduCapacity % 31) (count + 1 + 1)
      rw [List.nil_append, hplace, hoffset, hupcoming, hlast]
      exact (List.prefix_append_right_inj _).mpr (List.take_prefix_take_left hwanted)

/-! ### The commitments of user MDUs -/

/-- The MDUs that the writer makes of a stream: it is cut into chunks of the capacity of an MDU, and
each is encoded. -/
def encodeStream (stream : Bytes) : Except String (List Bytes) :=
  (stream.toChunks rawMduCapacity).mapM cryptoFfiEncodePayloadToMdu

/-- The commitments of user MDU `j`. -/
def userCommitments (leafCount j : Nat) (commitments : List Bytes) : Bytes :=
  ((commitments.drop (j * leafCount)).take leafCount).flatten

/-- The commitments of `n` user MDUs. -/
def WitnessList (leafCount n : Nat) (commitments : List Bytes) : Prop :=
  commitments.length = n * leafCount ∧ ∀ commitment ∈ commitments, commitment.length = 48

/-- The commitments of each user MDU are read back from the witness MDUs. -/
def ReadsBack (spare : Nat → Nat) (leafCount n : Nat) (commitments : List Bytes) : Prop :=
  ∃ mdus, encodeStream commitments.flatten = .ok mdus ∧ ∀ j < n,
    readWitnessCommitments spare (witnessDir mdus) leafCount j =
      .ok (userCommitments leafCount j commitments)

/-- The stream is always encoded, chunk by chunk. -/
theorem encodeStream_ok (stream : Bytes) :
    encodeStream stream = .ok ((stream.toChunks rawMduCapacity).map payloadMdu) := by
  refine mapM_ok fun chunk hchunk => cryptoFfiEncodePayloadToMdu_ok ?_
  obtain ⟨i, hi⟩ := List.mem_iff_getElem?.mp hchunk
  rw [getElem?_toChunks (by decide)] at hi
  split at hi
  · cases hi
    exact List.length_take_le _ _
  · cases hi

/-- The directory with the MDUs of a stream holds it. -/
theorem holdsStream_encodeStream (stream : Bytes) :
    HoldsStream (witnessDir ((stream.toChunks rawMduCapacity).map payloadMdu)) stream := by
  intro mdu hmdu
  rw [Nat.mul_comm] at hmdu
  rw [Nat.add_comm, witnessDir, List.getElem?_map, getElem?_toChunks (by decide), if_pos hmdu,
    witnessChunk_eq, Nat.mul_comm]
  rfl

section Commitments

variable {leafCount n j : Nat} {commitments : List Bytes}

/-- The commitments take 48 bytes each. -/
theorem WitnessList.length_flatten (h : WitnessList leafCount n commitments) :
    commitments.flatten.length = n * (leafCount * 48) := by
  rw [length_flatten_words h.2, h.1]
  ring

/-- The commitments of a user MDU are a slice of the stream. -/
theorem userCommitments_eq (h : WitnessList leafCount n commitments) :
    userCommitments leafCount j commitments =
      slice commitments.flatten (j * (leafCount * 48)) (j * (leafCount * 48) + leafCount * 48) := by
  have hstart : j * (leafCount * 48) = 48 * (j * leafCount) := by ring
  have hcount : leafCount * 48 = 48 * leafCount := Nat.mul_comm _ _
  have hdrop : ∀ commitment ∈ commitments.drop (j * leafCount), commitment.length = 48 :=
    fun commitment hcommitment => h.2 commitment (List.mem_of_mem_drop hcommitment)
  rw [userCommitments, slice, List.drop_take, Nat.add_sub_cancel_left, hstart, hcount,
    drop_flatten_words h.2, take_flatten_words hdrop]

/-- The range of a user MDU is in the stream. -/
theorem WitnessList.range_le (h : WitnessList leafCount n commitments) (hj : j < n) :
    j * (leafCount * 48) + leafCount * 48 ≤ commitments.flatten.length := by
  rw [h.length_flatten, ← Nat.succ_mul]
  exact Nat.mul_le_mul_right _ hj

/-- The commitments of one user MDU are read back exactly when their last bytes are in place.
Everything before the last chunk of the range is read as it was written. -/
theorem readWitnessCommitments_iff (spare : Nat → Nat) {dealDir : DealDir}
    (hholds : HoldsStream dealDir commitments.flatten) (h : WitnessList leafCount n commitments)
    (hleaf : leafCount ≠ 0) (hj : j < n) :
    readWitnessCommitments spare dealDir leafCount j =
      .ok (userCommitments leafCount j commitments) ↔
      TailInPlace commitments.flatten (j * (leafCount * 48)) (leafCount * 48) := by
  -- the range is inside the stream, and longer than a chunk
  have hle := h.range_le hj
  have hspan : 31 < leafCount * 48 := by omega
  generalize hstart : j * (leafCount * 48) = start at hle
  generalize hspan' : leafCount * 48 = span at hle hspan
  have hspan0 : 0 < span := by omega
  obtain ⟨r, hnew, hread⟩ := readRange spare hholds hspan hle
  obtain ⟨hwanted, hexpected⟩ := wanted_le start hspan0
  -- What is wanted: the range, cut at its last chunk.
  have hwant : userCommitments leafCount j commitments =
      slice commitments.flatten start (31 * ((start + span - 1) / 31)) ++
        (commitments.flatten.drop (31 * ((start + span - 1) / 31))).take
          (start + span - 31 * ((start + span - 1) / 31)) := by
    rw [userCommitments_eq h, hstart, hspan', ← slice_append commitments.flatten
      (b := 31 * ((start + span - 1) / 31)) (by omega) (by omega)]
    congr 1
    rw [slice, List.drop_take]
  have hlength : (slice commitments.flatten start (31 * ((start + span - 1) / 31)) ++
      ((streamScalar commitments.flatten ((start + span - 1) / 31)).drop
        (32 - expectedLen start span)).take
          (start + span - 31 * ((start + span - 1) / 31))).length = span := by
    rw [List.length_append, length_slice (by omega), List.length_take, List.length_drop,
      length_streamScalar]
    omega
  have hresult : readWitnessCommitments spare dealDir leafCount j =
      .ok (slice commitments.flatten start (31 * ((start + span - 1) / 31)) ++
        ((streamScalar commitments.flatten ((start + span - 1) / 31)).drop
          (32 - expectedLen start span)).take
            (start + span - 31 * ((start + span - 1) / 31))) := by
    refine readWitnessCommitments_ok hleaf ?_ hread ?_
    · rw [hstart, hspan']
      exact hnew
    · rw [hspan']
      exact hlength
  rw [hresult, hwant, Except.ok.injEq, List.append_cancel_left_eq, TailInPlace]

end Commitments

/-- In a slab with one user MDU, the range is the whole stream. -/
theorem tailInPlace_one {stream : Bytes} (h : stream ≠ []) :
    TailInPlace stream 0 stream.length := by
  have hpos : 0 < stream.length := List.length_pos_iff.mpr h
  have hheld : (stream.drop (31 * ((0 + stream.length - 1) / 31))).length =
      expectedLen 0 stream.length := by
    rw [List.length_drop, expectedLen]
    split <;> omega
  have hle := (wanted_le 0 hpos).2
  have hchunk := List.take_of_length_le (hheld.trans_le hle)
  rw [TailInPlace, streamScalar, hchunk, ← hheld, drop_alignRight]

/-- A stream with a single byte 1, at the beginning of the chunk in which the first range ends. -/
def markedStream (span total : Nat) : Bytes :=
  (List.replicate total 0).set (31 * ((span - 1) / 31)) 1

/-- The sample stream is zero but for one byte. -/
theorem getElem?_markedStream {span total i : Nat} (hi : i < total) :
    (markedStream span total)[i]? = some (if i = 31 * ((span - 1) / 31) then 1 else 0) := by
  rw [markedStream, List.getElem?_set]
  split
  · rename_i hplace
    rw [if_pos (by rw [List.length_replicate]; omega), if_pos hplace.symm]
  · rename_i hplace
    rw [List.getElem?_replicate, if_pos hi, if_neg fun h => hplace h.symm]

/-- With more than one user MDU, the first range may end in a full chunk, where its bytes are not in
place. The stream is marked at the first byte of that chunk. -/
theorem not_tailInPlace_marked {span total : Nat} (hspan : 31 < span) (htotal : span + 31 ≤ total)
    (hrem : span % 31 ≠ 0) : ¬TailInPlace (markedStream span total) 0 span := by
  intro h
  -- the range ends inside a chunk of full length
  have hlength : (markedStream span total).length = total := by
    rw [markedStream, List.length_set, List.length_replicate]
  have hlast : 0 + span - 1 = span - 1 := by omega
  have hexpected : expectedLen 0 span = (span - 1) % 31 + 1 := by
    rw [expectedLen]
    split <;> omega
  have hchunk : (((markedStream span total).drop (31 * ((span - 1) / 31))).take 31).length =
      31 := by
    rw [List.length_take, List.length_drop, hlength]
    omega
  -- The reader takes a 0 for the first byte that it wants of the chunk, which is a 1.
  have hfirst := congrArg (fun l : Bytes => l[0]?) h
  have hwanted : 0 < 0 + span - 31 * ((span - 1) / 31) := by omega
  have hpad : ¬32 - ((span - 1) % 31 + 1) + 0 < (List.replicate (32 - 31) (0 : UInt8)).length := by
    rw [List.length_replicate]
    omega
  have hplace : 32 - ((span - 1) % 31 + 1) + 0 - (32 - 31) < 31 := by omega
  simp only [hlast, hexpected, streamScalar, alignRight, hchunk] at hfirst
  rw [List.getElem?_take_of_lt hwanted, List.getElem?_take_of_lt hwanted, List.getElem?_drop,
    List.getElem?_drop, List.getElem?_append_right (Nat.not_lt.mp hpad), List.length_replicate,
    List.getElem?_take_of_lt hplace, List.getElem?_drop, getElem?_markedStream (by omega),
    getElem?_markedStream (by omega), if_neg (by omega), if_pos (Nat.add_zero _)] at hfirst
  revert hfirst
  decide

/-- Cut into pieces of 48 bytes, a stream of the right length is a list of commitments. -/
theorem witnessList_toChunks {leafCount n : Nat} {stream : Bytes}
    (h : stream.length = 48 * (n * leafCount)) : WitnessList leafCount n (stream.toChunks 48) :=
  toChunks_of_length_mul (by decide) h

section Lists

variable {leafCount n : Nat} {commitments : List Bytes}

/-- One list of commitments: each range has its last bytes in place. -/
theorem readsBack_iff (spare : Nat → Nat) (h : WitnessList leafCount n commitments) (hn : 0 < n) :
    ReadsBack spare leafCount n commitments ↔
      leafCount ≠ 0 ∧ ∀ j < n,
        TailInPlace commitments.flatten (j * (leafCount * 48)) (leafCount * 48) := by
  have hholds := holdsStream_encodeStream commitments.flatten
  have hencode := encodeStream_ok commitments.flatten
  constructor
  · rintro ⟨mdus, hmdus, hread⟩
    cases hencode.symm.trans hmdus
    have hleaf : leafCount ≠ 0 := by
      intro hzero
      have hfirst := hread 0 hn
      rw [readWitnessCommitments, rejectIf, if_pos hzero] at hfirst
      cases hfirst
    refine ⟨hleaf, ?_⟩
    intro j hj
    exact (readWitnessCommitments_iff spare hholds h hleaf hj).mp (hread j hj)
  · rintro ⟨hleaf, hplace⟩
    refine ⟨_, hencode, ?_⟩
    intro j hj
    exact (readWitnessCommitments_iff spare hholds h hleaf hj).mpr (hplace j hj)

/-- A slab with one user MDU. -/
theorem readsBack_one (spare : Nat → Nat) (h : WitnessList leafCount 1 commitments)
    (hleaf : leafCount ≠ 0) : ReadsBack spare leafCount 1 commitments := by
  have hlength := h.length_flatten
  rw [Nat.one_mul] at hlength
  have hne : commitments.flatten ≠ [] := by
    intro hnil
    rw [hnil, List.length_nil] at hlength
    omega
  refine (readsBack_iff spare h Nat.one_pos).mpr ⟨hleaf, ?_⟩
  intro j hj
  have hj0 : j = 0 := by omega
  rw [hj0, Nat.zero_mul, ← hlength]
  exact tailInPlace_one hne

/-- The list of commitments with a single byte 1 in it. -/
def markedCommitments (leafCount n : Nat) : List Bytes :=
  (markedStream (leafCount * 48) (n * (leafCount * 48))).toChunks 48

/-- The sample commitments have the right sizes. -/
theorem witnessList_marked (leafCount n : Nat) :
    WitnessList leafCount n (markedCommitments leafCount n) := by
  refine witnessList_toChunks ?_
  rw [markedStream, List.length_set, List.length_replicate]
  ring

/-- A slab with more than one user MDU, and a list that is not read back. -/
theorem not_readsBack_marked (spare : Nat → Nat) (hleaf : ¬31 ∣ leafCount) (hn : 1 < n) :
    ¬ReadsBack spare leafCount n (markedCommitments leafCount n) := by
  have hpos : leafCount ≠ 0 := by
    intro hzero
    exact hleaf (hzero ▸ Nat.dvd_zero 31)
  have hlong : 2 * (leafCount * 48) ≤ n * (leafCount * 48) := Nat.mul_le_mul_right _ hn
  have hrem : leafCount * 48 % 31 ≠ 0 := by
    intro hzero
    have hcoprime : Nat.Coprime 31 48 := by decide
    exact hleaf (hcoprime.dvd_of_dvd_mul_right (Nat.dvd_of_mod_eq_zero hzero))
  rw [readsBack_iff spare (witnessList_marked leafCount n) (by omega)]
  rintro ⟨-, hplace⟩
  have hfirst := hplace 0 (by omega)
  rw [Nat.zero_mul, markedCommitments, flatten_toChunks (by decide)] at hfirst
  exact not_tailInPlace_marked (by omega) (by omega) hrem hfirst

end Lists

/-- For every stripe that the parser admits and every number of user MDUs, the commitments of a list
are read back exactly when the last bytes of each range are in place; and they are read back for all
lists exactly when there is one user MDU. (`leafCount` is 0 when `K + M` wraps around.) -/
theorem witness_roundTrip_iff (spare : Nat → Nat) (serviceHint : Str) (params : Chain.StripeParams)
    (hparams : stripeParamsFromHint serviceHint = .ok params) (n : Nat) (hn : 0 < n) :
    (∀ commitments, WitnessList params.leafCount.toNat n commitments →
      (ReadsBack spare params.leafCount.toNat n commitments ↔
        params.leafCount.toNat ≠ 0 ∧ ∀ j < n, TailInPlace commitments.flatten
          (j * (params.leafCount.toNat * 48)) (params.leafCount.toNat * 48))) ∧
    ((∀ commitments, WitnessList params.leafCount.toNat n commitments →
        ReadsBack spare params.leafCount.toNat n commitments) ↔
      params.leafCount.toNat ≠ 0 ∧ n = 1) := by
  refine ⟨fun commitments h => readsBack_iff spare h hn, ?_⟩
  constructor
  · intro hall
    have hmarked := hall _ (witnessList_marked params.leafCount.toNat n)
    have hleaf := ((readsBack_iff spare (witnessList_marked _ n) hn).mp hmarked).1
    refine ⟨hleaf, ?_⟩
    by_contra hmany
    have hdvd : ¬31 ∣ params.leafCount.toNat := fun hdvd =>
      hleaf (leafCount_zero_of_dvd hparams hdvd)
    exact not_readsBack_marked spare hdvd (by omega) hmarked
  · rintro ⟨hleaf, rfl⟩ commitments h
    exact readsBack_one spare h hleaf

/-- A Mode 1 deal with one user MDU. -/
theorem witness_roundTrip_iff_general :
    ReadsBack (fun _ => 511) 64 1 (markedCommitments 64 1) := by
  have hall : ∀ commitments, WitnessList 64 1 commitments →
      ReadsBack (fun _ => 511) 64 1 commitments :=
    (witness_roundTrip_iff (fun _ => 511) "General".toList Chain.mode1StripeParams
      (by decide +kernel)
      1 Nat.one_pos).2.mpr ⟨by decide, rfl⟩
  exact hall _ (witnessList_marked 64 1)

/-- A Mode 1 deal with two user MDUs: not all lists of commitments are read back. -/
theorem witness_roundTrip_two : WitnessList 64 2 (markedCommitments 64 2) ∧
    ¬ReadsBack (fun _ => 511) 64 2 (markedCommitments 64 2) :=
  ⟨witnessList_marked 64 2, not_readsBack_marked _ (by decide) (by decide)⟩

end NilStore.Gateway
