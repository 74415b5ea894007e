import NilStore.Gateway.Fetch
import NilStore.Proofs.FetchRange
import NilStore.Proofs.WitnessReader

/-!
# `NilStore.Proofs.FileReader`: a file read back from its MDUs

A file starts at the beginning of a user MDU, and its last chunk is right-aligned in its scalar. The
reader of the whole file knows where that chunk is, so it takes each chunk from where it was written
(`fetched_file`), whatever range it is opened for. `file_reads_back` says what every sequence of
calls of `Read` returns: the bytes of the range, as the buffers have room for them, and then
`io.EOF`.

The proof is that of `WitnessReader`, with the file put behind as many zeros as its start offset.
-/

set_option autoImplicit false

namespace NilStore.Gateway

open NilStore.Lib NilStore.Core NilStore.Chain

/-! ### Sequences of calls -/

/-- A sequence of calls of `Read`, with buffers of these sizes: what each of them returns. -/
def NilfsDecodedReader.reads (r : NilfsDecodedReader) : List Nat → List (Bytes × Option ReadError)
  | [] => []
  | size :: sizes => ((r.read size).2.1, (r.read size).2.2) :: (r.read size).1.reads sizes

/-- What a reader returns that delivers `bytes` and then ends. -/
def deliveries (bytes : Bytes) : List Nat → List (Bytes × Option ReadError)
  | [] => []
  | size :: sizes =>
      (bytes.take size, if bytes = [] then some .eof else none) ::
        deliveries (bytes.drop size) sizes

/-- The deliveries of a read are the first bytes, as many as the buffers hold. -/
theorem flatten_deliveries (bytes : Bytes) (sizes : List Nat) :
    ((deliveries bytes sizes).map (·.1)).flatten = bytes.take sizes.sum := by
  induction sizes generalizing bytes with
  | nil => simp [deliveries]
  | cons size sizes ih =>
      rw [deliveries, List.map_cons, List.flatten_cons, ih, List.sum_cons, List.take_add]

/-- When the buffers had room for everything, the next call ends. -/
theorem deliveries_append (bytes : Bytes) (sizes : List Nat) (size : Nat)
    (h : bytes.length ≤ sizes.sum) :
    deliveries bytes (sizes ++ [size]) = deliveries bytes sizes ++ [([], some .eof)] := by
  induction sizes generalizing bytes with
  | nil =>
      have hnil : bytes = [] := List.length_eq_zero_iff.mp (by simpa using h)
      subst hnil
      simp [deliveries]
  | cons first sizes ih =>
      have hrest : (bytes.drop first).length ≤ sizes.sum := by
        rw [List.sum_cons] at h
        rw [List.length_drop]
        omega
      rw [List.cons_append, deliveries, ih _ hrest, deliveries, List.cons_append]

/-- The reader delivers exactly these bytes: each call what it has room for, all calls together a
prefix that grows with their sizes, and the call after the last byte the end. -/
structure ReadsExactly (r : NilfsDecodedReader) (bytes : Bytes) : Prop where
  each : ∀ sizes, r.reads sizes = deliveries bytes sizes
  delivered : ∀ sizes, ((r.reads sizes).map (·.1)).flatten = bytes.take sizes.sum
  ends : ∀ sizes size, bytes.length ≤ sizes.sum →
    r.reads (sizes ++ [size]) = r.reads sizes ++ [([], some .eof)]

/-- A reader that delivers the right pieces to all buffers reads exactly. -/
theorem ReadsExactly.of_each {r : NilfsDecodedReader} {bytes : Bytes}
    (h : ∀ sizes, r.reads sizes = deliveries bytes sizes) : ReadsExactly r bytes where
  each := h
  delivered sizes := by rw [h, flatten_deliveries]
  ends sizes size hlength := by rw [h, h, deliveries_append bytes sizes size hlength]

/-- A reader that is at its end. -/
theorem reads_at_end {r : NilfsDecodedReader} (h : r.remaining = 0) (sizes : List Nat) :
    r.reads sizes = deliveries [] sizes := by
  induction sizes with
  | nil => rfl
  | cons size sizes ih =>
      have hread : r.read size = (r, [], some .eof) := by
        rw [NilfsDecodedReader.read, if_pos h]
      rw [NilfsDecodedReader.reads, hread, ih, deliveries, List.take_nil, List.drop_nil, if_pos rfl]

/-- A reader that is going to deliver `bytes` does, whatever the sizes of the buffers: each read
takes the next of them, and at the end there is nothing but the end of the file. -/
theorem Ready.reads {stream : Bytes} (sizes : List Nat) {r : NilfsDecodedReader} {bytes : Bytes}
    (h : Ready stream r bytes) : r.reads sizes = deliveries bytes sizes := by
  -- by the buffers, with the reader after each of them
  induction sizes generalizing r bytes with
  | nil => rfl
  | cons size sizes ih =>
      by_cases hend : r.remaining = 0
      · have hbytes : bytes = [] := List.length_eq_zero_iff.mp (by rw [← h.remaining]; exact hend)
        rw [hbytes]
        exact reads_at_end hend _
      · have hbytes : bytes ≠ [] := by
          rintro rfl
          exact hend (by rw [h.remaining]; rfl)
        by_cases hsize : size = 0
        · -- An empty buffer changes nothing.
          have hread : r.read size = (r, [], none) := by
            rw [NilfsDecodedReader.read, if_neg hend, if_pos hsize]
          rw [NilfsDecodedReader.reads, hread, ih h, deliveries, if_neg hbytes, hsize,
            List.take_zero, List.drop_zero]
        · obtain ⟨next, hloop, hready⟩ := Ready.readLoop stream r size [] bytes h (by omega)
          have hread : r.read size = (next, bytes.take size, none) := by
            rw [NilfsDecodedReader.read, if_neg hend, if_neg hsize, hloop]
            rfl
          rw [NilfsDecodedReader.reads, hread, ih hready, deliveries, if_neg hbytes]

/-! ### The chunks of a file -/

section File

variable {stream : Bytes} {start fileLen : Nat}

/-- Every chunk of the file is taken from where it was written, the last one too. -/
theorem fetched_file {g : Nat} (halign : start % 31 = 0) (hlength : stream.length = start + fileLen)
    (hstart : start ≤ 31 * g) (hg : 31 * g < stream.length) :
    fetched stream start fileLen g = slice stream (31 * g) (31 * (g + 1)) := by
  have hchunk : ((stream.drop (31 * g)).take 31).length = min 31 (stream.length - 31 * g) := by
    rw [List.length_take, List.length_drop]
  have hbounds : payloadBounds start fileLen (31 * g) =
      (32 - min 31 (stream.length - 31 * g), min 31 (stream.length - 31 * g)) := by
    rw [payloadBounds, scalarPayloadBytes, scalarBytes]
    simp only
    split
    · split <;> split <;> congr 1 <;> omega
    · congr 1 <;> omega
  have hdrop := drop_alignRight ((stream.drop (31 * g)).take 31) 32
  rw [hchunk] at hdrop
  rw [fetched, hbounds, streamScalar, hdrop, ← hchunk, List.take_length, slice, Nat.mul_succ,
    List.drop_take, Nat.add_sub_cancel_left]

/-- So a run of chunks is a part of the file, from the byte where the first chunk is entered to the
end of the last. -/
theorem upcoming_file (halign : start % 31 = 0) (hlength : stream.length = start + fileLen)
    (count g offset : Nat) (hoffset : offset ≤ 31) (hcount : offset = 0 ∨ 0 < count)
    (hinside : ∀ i < count, start ≤ 31 * (g + i) ∧ 31 * (g + i) < stream.length) :
    upcoming stream start fileLen g offset count =
      slice stream (31 * g + offset) (31 * (g + count)) := by
  -- by the number of chunks
  induction count generalizing g offset with
  | zero =>
      rw [upcoming, slice, List.drop_of_length_le]
      exact (List.length_take_le _ _).trans (by omega)
  | succ count ih =>
      have hfirst : start ≤ 31 * g ∧ 31 * g < stream.length := hinside 0 (Nat.succ_pos _)
      have hrest : ∀ i < count, start ≤ 31 * (g + 1 + i) ∧ 31 * (g + 1 + i) < stream.length := by
        intro i hi
        have hnext := hinside (i + 1) (by omega)
        rw [Nat.add_comm i 1, ← Nat.add_assoc] at hnext
        exact hnext
      have hchunk : (fetched stream start fileLen g).drop offset =
          slice stream (31 * g + offset) (31 * (g + 1) + 0) := by
        rw [fetched_file halign hlength hfirst.1 hfirst.2, slice, slice, List.drop_drop]
        simp only [Nat.add_zero]
      have hplace : g + 1 + count = g + (count + 1) := by omega
      rw [upcoming, hchunk, ih (g + 1) 0 (Nat.zero_le _) (Or.inl rfl) hrest,
        slice_append stream (by omega) (by omega), hplace]

end File

/-! ### A file in its MDUs -/

/-- The reader of a segment, as `resolveNilfsFileSegmentForFetch` opens it. -/
def Segment.openReader (dealDir : DealDir) (seg : Segment) : Except String NilfsDecodedReader :=
  newNilfsDecodedReader dealDir (1 + seg.info.witnessCount).toNat seg.info.startOffset.toNat
    seg.info.length.toNat seg.absOffset.toNat seg.segmentLen.toNat

/-- The file is in the directory where its record says: it starts with a user MDU, and its pieces
are encoded into this one and those after it. Its offsets are `uint64`. -/
structure FileInSlab (dealDir : DealDir) (info : SlabFileInfo) (file : Bytes) : Prop where
  length : info.length.toNat = file.length
  aligned : rawMduCapacity ∣ info.startOffset.toNat
  addressable : info.startOffset.toNat + file.length ≤ 2 ^ 64
  stored : ∀ j, j * rawMduCapacity < file.length → ∃ mdu,
    nilEncodePayloadToMdu ((file.drop (j * rawMduCapacity)).take rawMduCapacity) = .ok mdu ∧
      dealDir ((1 + info.witnessCount).toNat + (info.startOffset.toNat / rawMduCapacity + j)) =
        some mdu

/-- The file behind as many zeros as its start offset. -/
def placedFile (start : Nat) (file : Bytes) : Bytes := List.replicate start 0 ++ file

/-- A placed file ends at its start plus its length. -/
theorem length_placedFile (start : Nat) (file : Bytes) :
    (placedFile start file).length = start + file.length := by
  rw [placedFile, List.length_append, List.length_replicate]

/-- A slice of the placed file is the slice of the file. -/
theorem slice_placedFile (start : Nat) (file : Bytes) (a b : Nat) :
    slice (placedFile start file) (start + a) (start + b) = slice file a b := by
  have hlength : (List.replicate start (0 : UInt8)).length = start := List.length_replicate
  rw [slice, slice, placedFile, List.take_append, hlength, Nat.add_sub_cancel_left,
    List.take_of_length_le (by omega), List.drop_append, hlength, Nat.add_sub_cancel_left,
    List.drop_of_length_le (by omega), List.nil_append]

/-- From its first MDU on, the directory holds the placed file: the file behind zeros up to its
start offset, which is a multiple of the capacity of an MDU. -/
theorem FileInSlab.holds {dealDir : DealDir} {info : SlabFileInfo} {file : Bytes}
    (h : FileInSlab dealDir info file) {mdu : Nat}
    (hmdu : info.startOffset.toNat / rawMduCapacity ≤ mdu)
    (hlt : mdu * rawMduCapacity < (placedFile info.startOffset.toNat file).length) :
    dealDir ((1 + info.witnessCount).toNat + mdu) =
      some (payloadMdu (witnessChunk (placedFile info.startOffset.toNat file) mdu)) := by
  -- the start is a whole number of MDUs
  obtain ⟨first, hfirst⟩ := h.aligned
  have hpos : 0 < rawMduCapacity := by decide
  rw [hfirst, Nat.mul_div_cancel_left _ hpos] at hmdu
  obtain ⟨j, rfl⟩ := Nat.exists_eq_add_of_le hmdu
  rw [length_placedFile, hfirst, Nat.add_mul, Nat.mul_comm first] at hlt
  -- the MDU is one of the file
  obtain ⟨encoded, hencode, hdir⟩ := h.stored j (by omega)
  rw [hfirst, Nat.mul_div_cancel_left _ hpos] at hdir
  rw [hdir, witnessChunk_eq, hfirst]
  -- and it holds the piece of the file
  have hpiece :
      ((placedFile (rawMduCapacity * first) file).drop ((first + j) * rawMduCapacity)).take
      rawMduCapacity = (file.drop (j * rawMduCapacity)).take rawMduCapacity := by
    have hstart : (first + j) * rawMduCapacity = rawMduCapacity * first + j * rawMduCapacity := by
      rw [Nat.add_mul, Nat.mul_comm first]
    have hreplicate : (List.replicate (rawMduCapacity * first) (0 : UInt8)).length =
        rawMduCapacity * first := List.length_replicate
    rw [hstart, placedFile, ← List.drop_drop, List.drop_left' hreplicate]
  rw [hpiece]
  have hle : ((file.drop (j * rawMduCapacity)).take rawMduCapacity).length ≤ mduPayloadBytes :=
    List.length_take_le _ _
  rw [nilEncodePayloadToMdu_ok hle] at hencode
  cases hencode
  rfl

/-- **A file is read back**: whatever range of it the reader is opened for and whatever the buffers
are, it delivers the bytes of the range and then the end. -/
theorem file_reads_back (dealDir : DealDir) (file : Bytes) (seg : Segment)
    (h : FileInSlab dealDir seg.info file)
    (hinside : seg.rangeStart.toNat + seg.segmentLen.toNat ≤ file.length) :
    ∃ r, seg.openReader dealDir = .ok r ∧
      ReadsExactly r ((file.drop seg.rangeStart.toNat).take seg.segmentLen.toNat) := by
  by_cases hempty : seg.segmentLen.toNat = 0
  · -- Nothing is opened for an empty range.
    rw [Segment.openReader, newNilfsDecodedReader, if_pos hempty, hempty, List.take_zero]
    exact ⟨_, rfl, .of_each fun sizes => reads_at_end rfl sizes⟩
  · have haddressable := h.addressable
    have halign : seg.info.startOffset.toNat % 31 = 0 := by
      obtain ⟨first, hfirst⟩ := h.aligned
      rw [hfirst, rawMduCapacity]
      omega
    -- the offset of the first byte does not wrap
    have habs : seg.absOffset.toNat = seg.info.startOffset.toNat + seg.rangeStart.toNat := by
      rw [Segment.absOffset, UInt64.toNat_add, Nat.mod_eq_of_lt (by omega)]
    have hholds := fun mdu => @FileInSlab.holds dealDir seg.info file h mdu
    have hslice := slice_placedFile seg.info.startOffset.toNat file seg.rangeStart.toNat
      (seg.rangeStart.toNat + seg.segmentLen.toNat)
    have htotal := length_placedFile seg.info.startOffset.toNat file
    rw [Segment.openReader, habs, h.length]
    generalize placedFile seg.info.startOffset.toNat file = stream at hholds hslice htotal
    generalize seg.info.startOffset.toNat = start at *
    generalize seg.rangeStart.toNat = s at *
    generalize seg.segmentLen.toNat = len at *
    generalize (1 + seg.info.witnessCount).toNat = slab at *
    have hscalar : (start + s) % rawMduCapacity / 31 < scalarsPerMdu := by
      rw [rawMduCapacity, scalarsPerMdu]
      omega
    -- the scalar of the first byte, counted from the start of the slab
    have hplace : (start + s) / rawMduCapacity * scalarsPerMdu +
        (start + s) % rawMduCapacity / 31 = (start + s) / 31 := by
      rw [rawMduCapacity, scalarsPerMdu]
      omega
    have hoffset : (start + s) % rawMduCapacity % 31 = (start + s) % 31 := by
      rw [rawMduCapacity]
      omega
    have hmdu : (start + s) / rawMduCapacity * rawMduCapacity < stream.length := by
      rw [rawMduCapacity]
      omega
    have hfirst : start / rawMduCapacity ≤ (start + s) / rawMduCapacity :=
      Nat.div_le_div_right (Nat.le_add_right _ _)
    -- the range, as a part of the placed file
    have hbytes : (file.drop s).take len = slice stream (start + s) (start + (s + len)) := by
      rw [hslice, slice, List.drop_take, Nat.add_sub_cancel_left]
    have hlength : ((file.drop s).take len).length = len := by
      rw [List.length_take, List.length_drop]
      omega
    -- The chunks from the one of the first byte to the one of the last.
    obtain ⟨count, hcount⟩ : ∃ count, (start + s + len - 1) / 31 = (start + s) / 31 + count :=
      ⟨(start + s + len - 1) / 31 - (start + s) / 31, by omega⟩
    -- the chunks deliver the range, and perhaps some bytes behind it
    have hupcoming : upcoming stream start file.length ((start + s) / 31) ((start + s) % 31)
        (count + 1) = slice stream (start + s) (31 * ((start + s) / 31 + (count + 1))) := by
      have hdivmod : 31 * ((start + s) / 31) + (start + s) % 31 = start + s :=
        Nat.div_add_mod (start + s) 31
      rw [upcoming_file halign htotal (count + 1) _ _ (by omega) (Or.inr (Nat.succ_pos _)), hdivmod]
      intro i hi
      omega
    refine ⟨{
      dealDir, slabStartIdx := slab, fileStartOffset := start
      fileLen := file.length, remaining := len
      currentUserMdu := (start + s) / rawMduCapacity
      currentScalar := (start + s) % rawMduCapacity / 31
      file := some ((payloadMdu (witnessChunk stream ((start + s) / rawMduCapacity))).drop
        ((start + s) % rawMduCapacity / 31 * scalarBytes))
      payloadOffset := (start + s) % rawMduCapacity % 31
      payloadBuf := []
      payloadBufIndex := 0 }, ?_, ?_⟩
    · rw [newNilfsDecodedReader, if_neg hempty]
      have hscalar' : ¬(start + s) % rawMduCapacity / scalarPayloadBytes ≥ scalarsPerMdu :=
        Nat.not_le.mpr hscalar
      simp only [if_neg hscalar']
      exact NilfsDecodedReader.openCurrent_ok (hholds _ hfirst hmdu)
    · apply ReadsExactly.of_each
      intro sizes
      apply Ready.reads sizes
      show Ready stream _ _
      refine
        { holds := fun mdu hle hlt => hholds mdu (hfirst.trans hle) hlt
          file := congrArg (fun n => some (List.drop n _)) (Nat.mul_comm _ _)
          scalar_le := Nat.le_of_lt hscalar
          offset := Or.inr hscalar
          remaining := hlength.symm
          ahead := ⟨count + 1, ?_, ?_⟩ }
      · intro i hi
        show 31 * ((start + s) / rawMduCapacity * scalarsPerMdu +
          (start + s) % rawMduCapacity / 31 + i) < _
        rw [hplace]
        omega
      · show _ <+: ([] : Bytes) ++ upcoming stream start file.length
          ((start + s) / rawMduCapacity * scalarsPerMdu + (start + s) % rawMduCapacity / 31)
          ((start + s) % rawMduCapacity % 31) (count + 1)
        have happend := slice_append stream
          (show start + s ≤ start + (s + len) by omega)
          (show start + (s + len) ≤ 31 * ((start + s) / 31 + (count + 1)) by omega)
        rw [List.nil_append, hplace, hoffset, hupcoming, hbytes, ← happend]
        exact List.prefix_append _ _

/-- Forty bytes. -/
def shortFile : Bytes := (List.range 40).map UInt8.ofNat

/-- The directory of a slab with one witness MDU, where they are the only file. -/
def shortDir : DealDir := fun i => if i = 2 then some (payloadMdu shortFile) else none

/-- Ten bytes from the first chunk into the last one. -/
def shortSegment : Segment := ⟨⟨0, 40, 1, by decide⟩, 28, 10⟩

/-- They are read back across the chunks. -/
theorem file_reads_back_short :
    ∃ r, shortSegment.openReader shortDir = .ok r ∧
      ReadsExactly r [28, 29, 30, 31, 32, 33, 34, 35, 36, 37] := by
  have hfile : FileInSlab shortDir shortSegment.info shortFile := by
    refine ⟨by decide, ⟨0, by decide⟩, by decide, ?_⟩
    intro j hj
    have hlength : shortFile.length = 40 := by decide
    obtain rfl : j = 0 := by
      rw [hlength, rawMduCapacity] at hj
      omega
    have htake : (shortFile.drop (0 * rawMduCapacity)).take rawMduCapacity = shortFile := by
      rw [Nat.zero_mul, List.drop_zero, List.take_of_length_le]
      rw [hlength]
      decide
    refine ⟨payloadMdu shortFile, ?_, if_pos (by decide)⟩
    rw [htake]
    refine nilEncodePayloadToMdu_ok ?_
    rw [hlength]
    decide
  exact file_reads_back shortDir shortFile shortSegment hfile (by decide)

end NilStore.Gateway
