import NilStore.Gateway.Witness

/-!
# `NilStore.Gateway.Reader`: reading a range of bytes out of MDU files

`nil_gateway/resolve.go`. A `nilfsDecodedReader` delivers the payload bytes of a range that may
begin inside a scalar and may go on over several MDU files. It treats one scalar as the final one of
the file it reads: the one that lies `(fileLen - 1) / 31` chunks behind `fileStartOffset`.

`Read` fills a buffer in a loop whose steps copy bytes, open the next MDU or take the next scalar
from the file; the loop is total because each of them makes `pending` smaller. Its counters are
`uint64` and `int` in the source. They are offsets into files and lengths of buffers, and stay far
below `2 ^ 63`.
-/

set_option autoImplicit false

namespace NilStore.Gateway

open NilStore.Lib NilStore.Core

/-- `nilfsDecodedReader`. Of an open file it keeps the bytes that are still to be read. The buffer
`scalarBuf` is left out: `payloadBuf` is a part of it, and is used up before the next scalar is
read. -/
structure NilfsDecodedReader where
  dealDir : DealDir
  slabStartIdx : Nat
  fileStartOffset : Nat
  fileLen : Nat
  remaining : Nat
  currentUserMdu : Nat := 0
  currentScalar : Nat := 0
  file : Option Bytes := none
  payloadOffset : Nat := 0
  payloadBuf : Bytes := []
  payloadBufIndex : Nat := 0

/-- What `Read` reports in place of a nil error. The end of the file is no failure for its
callers. -/
inductive ReadError where
  | eof
  | failed (text : String)

namespace NilfsDecodedReader

/-- `openCurrent`. The file is opened at the scalar that comes next. -/
def openCurrent (r : NilfsDecodedReader) : Except String NilfsDecodedReader := do
  let bytes ← orFail (r.dealDir (r.slabStartIdx + r.currentUserMdu))
    ("open mdu_" ++ toString (r.slabStartIdx + r.currentUserMdu) ++
      ".bin: no such file or directory")
  return { r with
    file := some (bytes.drop (r.currentScalar * scalarBytes))
    payloadBuf := []
    payloadBufIndex := 0 }

/-- Opening the current MDU positions the file at the scalar the reader has reached. -/
theorem openCurrent_ok {r : NilfsDecodedReader} {bytes : Bytes}
    (h : r.dealDir (r.slabStartIdx + r.currentUserMdu) = some bytes) :
    r.openCurrent = .ok { r with
      file := some (bytes.drop (r.currentScalar * scalarBytes))
      payloadBuf := []
      payloadBufIndex := 0 } := by
  rw [openCurrent, h]
  rfl

end NilfsDecodedReader

/-- `newNilfsDecodedReader`. The start is split into an MDU, a scalar in it, and a byte in the
payload of the scalar. -/
def newNilfsDecodedReader (dealDir : DealDir)
    (slabStartIdx fileStartOffset fileLen startOffset length : Nat) :
    Except String NilfsDecodedReader :=
  if length = 0 then .ok { dealDir, slabStartIdx, fileStartOffset, fileLen, remaining := 0 }
  else
    let userMduIdx := startOffset / rawMduCapacity
    let offsetInMdu := startOffset % rawMduCapacity
    let scalarIdx := offsetInMdu / scalarPayloadBytes
    let payloadOffset := offsetInMdu % scalarPayloadBytes
    if scalarIdx ≥ scalarsPerMdu then
      .error ("start_offset out of bounds for MDU: " ++ toString startOffset)
    else
      NilfsDecodedReader.openCurrent
        { dealDir, slabStartIdx, fileStartOffset, fileLen, remaining := length,
          currentUserMdu := userMduIdx, currentScalar := scalarIdx, payloadOffset }

/-- Where the payload of a scalar begins in its 32 bytes, and how long it is. The scalar of the
final chunk of a file is right-aligned. -/
def payloadBounds (fileStartOffset fileLen scalarAbsStart : Nat) : Nat × Nat :=
  let finalChunkIdx := (fileLen - 1) / scalarPayloadBytes
  let chunkIdx := (scalarAbsStart - fileStartOffset) / scalarPayloadBytes
  if 0 < fileLen ∧ scalarAbsStart ≥ fileStartOffset ∧ chunkIdx = finalChunkIdx then
    let rem := fileLen % scalarPayloadBytes
    let chunkLen := if rem = 0 then scalarPayloadBytes else rem
    (if chunkLen < scalarPayloadBytes then scalarBytes - chunkLen else 1, chunkLen)
  else (1, scalarPayloadBytes)

/-- The payload is inside its scalar and not empty. -/
theorem payloadBounds_inside (fileStartOffset fileLen scalarAbsStart : Nat) :
    0 < (payloadBounds fileStartOffset fileLen scalarAbsStart).2 ∧
    (payloadBounds fileStartOffset fileLen scalarAbsStart).1 +
      (payloadBounds fileStartOffset fileLen scalarAbsStart).2 = 32 := by
  rw [payloadBounds, scalarPayloadBytes, scalarBytes]
  simp only
  split
  · split <;> split <;> constructor <;> omega
  · decide

namespace NilfsDecodedReader

/-- The payload of the scalar `scalarBuf`, which the reader has just taken from the file. Of it only
the bytes of the file are kept. -/
def takeScalar (r : NilfsDecodedReader) (scalarBuf rest : Bytes) : NilfsDecodedReader :=
  let scalarAbsStart := r.currentUserMdu * rawMduCapacity + r.currentScalar * scalarPayloadBytes
  let bounds := payloadBounds r.fileStartOffset r.fileLen scalarAbsStart
  { r with
    file := some rest
    payloadBuf := (scalarBuf.drop bounds.1).take bounds.2
    payloadBufIndex := r.payloadOffset
    payloadOffset := 0
    currentScalar := r.currentScalar + 1 }

/-- Bounds what `Read` still has to do: a copy uses up `remaining`, a scalar fills the buffer (or
uses up `payloadOffset`), and opening an MDU resets `currentScalar`. -/
def pending (r : NilfsDecodedReader) : Nat :=
  8 * r.remaining + 4 * min 1 r.payloadOffset +
    2 * (1 - (r.payloadBuf.length - r.payloadBufIndex)) +
    (r.currentScalar + 1 - scalarsPerMdu)

/-- Taking a scalar off the file lowers the measure of the read loop. -/
theorem pending_takeScalar {r : NilfsDecodedReader} {scalarBuf rest : Bytes}
    (hempty : ¬r.payloadBufIndex < r.payloadBuf.length) (hscalar : r.currentScalar < scalarsPerMdu)
    (hbuf : scalarBuf.length = 32) : (r.takeScalar scalarBuf rest).pending < r.pending := by
  obtain ⟨hpos, hinside⟩ := payloadBounds_inside r.fileStartOffset r.fileLen
    (r.currentUserMdu * rawMduCapacity + r.currentScalar * scalarPayloadBytes)
  simp only [pending, takeScalar, List.length_take, List.length_drop, hbuf]
  omega

/-- Going on to the next MDU lowers the measure of the read loop. -/
theorem pending_openCurrent {r r' : NilfsDecodedReader}
    (hempty : ¬r.payloadBufIndex < r.payloadBuf.length) (hscalar : ¬r.currentScalar < scalarsPerMdu)
    (h : openCurrent { r with
      currentUserMdu := r.currentUserMdu + 1, currentScalar := 0, payloadOffset := 0 } = .ok r') :
    r'.pending < r.pending := by
  rw [openCurrent, except_bind_ok] at h
  obtain ⟨bytes, -, h⟩ := h
  cases h
  simp only [pending, scalarsPerMdu, List.length_nil] at hscalar ⊢
  omega

/-- Handing bytes out lowers the measure of the read loop. -/
theorem pending_copy {r : NilfsDecodedReader} {count : Nat} (hcount : 0 < count)
    (hle : count ≤ r.remaining) :
    pending { r with
      payloadBufIndex := r.payloadBufIndex + count, remaining := r.remaining - count } <
        r.pending := by
  simp only [pending]
  omega

/-- The loop of `Read`, with room for `room` more bytes in the buffer that `out` is already in. A
round copies payload, reads a scalar or goes on to the next MDU. -/
def readLoop (r : NilfsDecodedReader) (room : Nat) (out : Bytes) :
    NilfsDecodedReader × Bytes × Option ReadError :=
  if 0 < room ∧ 0 < r.remaining then
    if r.payloadBufIndex < r.payloadBuf.length then
      -- as much as there is, as there is room for, and as the file still has
      let count := min (min room (r.payloadBuf.length - r.payloadBufIndex)) r.remaining
      readLoop
        { r with payloadBufIndex := r.payloadBufIndex + count, remaining := r.remaining - count }
        (room - count) (out ++ slice r.payloadBuf r.payloadBufIndex (r.payloadBufIndex + count))
    else
      match r.file with
      | none => (r, out, some (.failed "io: read/write on closed pipe"))
      | some rest =>
          if r.currentScalar < scalarsPerMdu then
            if scalarBytes ≤ rest.length then
              readLoop (r.takeScalar (rest.take scalarBytes) (rest.drop scalarBytes)) room out
            else
              -- `io.ReadFull` has used up the file.
              ({ r with file := some [] }, out,
                if 0 < out.length then none
                else if rest = [] then some .eof else some (.failed "unexpected EOF"))
          else
            let next : NilfsDecodedReader := { r with
              currentUserMdu := r.currentUserMdu + 1, currentScalar := 0, payloadOffset := 0 }
            match _ : openCurrent next with
            | .ok r' => readLoop r' room out
            | .error text =>
                ({ next with file := none }, out,
                  if 0 < out.length then none else some (.failed text))
  else (r, out, if out.length = 0 ∧ r.remaining = 0 then some .eof else none)
termination_by r.pending
decreasing_by
  · exact pending_copy (by omega) (by omega)
  · rename_i hempty hscalar hrest
    have hbuf : (rest.take scalarBytes).length = 32 := by
      rw [List.length_take]
      exact Nat.min_eq_left hrest
    exact pending_takeScalar hempty hscalar hbuf
  · rename_i hempty hscalar hopen
    exact pending_openCurrent hempty hscalar hopen

/-- `Read`, into a buffer of `size` bytes. What was read comes with the error, if there is one. -/
def read (r : NilfsDecodedReader) (size : Nat) : NilfsDecodedReader × Bytes × Option ReadError :=
  if r.remaining = 0 then (r, [], some .eof)
  else if size = 0 then (r, [], none)
  else readLoop r size []

/-- The loop hands out what `remaining` gives up. -/
theorem readLoop_remaining (r : NilfsDecodedReader) (room : Nat) (out : Bytes) :
    (readLoop r room out).1.remaining + (readLoop r room out).2.1.length =
      r.remaining + out.length := by
  fun_induction readLoop r room out with
  | case1 r room out hroom hfull count ih =>
      rw [ih, List.length_append, slice, List.length_drop, List.length_take]
      show r.remaining - count + _ = _
      omega
  | case2 r room out hroom hfull hfile => rfl
  | case3 r room out hroom hfull rest hfile hscalar hrest ih => exact ih
  | case4 r room out hroom hfull rest hfile hscalar hrest => rfl
  | case5 r room out hroom hfull rest hfile hscalar next r' hopen ih =>
      rw [ih]
      rw [openCurrent, except_bind_ok] at hopen
      obtain ⟨bytes, -, hopen⟩ := hopen
      cases hopen
      rfl
  | case6 r room out hroom hfull rest hfile hscalar next text hopen => rfl
  | case7 r room out hroom => rfl

/-- A `Read` that reports no error has read something. -/
theorem readLoop_nonempty (r : NilfsDecodedReader) (room : Nat) (out : Bytes)
    (hroom : 0 < room + out.length) (hnone : (readLoop r room out).2.2 = none) :
    0 < (readLoop r room out).2.1.length := by
  fun_induction readLoop r room out with
  | case1 r room out hloop hfull count ih =>
      refine ih ?_ hnone
      rw [List.length_append, slice, List.length_drop, List.length_take]
      omega
  | case2 r room out hloop hfull hfile => cases hnone
  | case3 r room out hloop hfull rest hfile hscalar hrest ih => exact ih hroom hnone
  -- an end of the file inside a scalar is an error where nothing was read
  | case4 r room out hloop hfull rest hfile hscalar hrest =>
      by_contra hout
      simp only [if_neg hout] at hnone
      split at hnone <;> cases hnone
  | case5 r room out hloop hfull rest hfile hscalar next r' hopen ih => exact ih hroom hnone
  | case6 r room out hloop hfull rest hfile hscalar next text hopen =>
      by_contra hout
      simp only [if_neg hout] at hnone
      cases hnone
  | case7 r room out hloop =>
      by_contra hout
      have hempty : out.length = 0 := Nat.eq_zero_of_not_pos hout
      have hdone : out.length = 0 ∧ r.remaining = 0 := by omega
      simp only [if_pos hdone] at hnone
      cases hnone

/-- Each `Read` without an error brings the end nearer. -/
theorem read_progress {r r' : NilfsDecodedReader} {size : Nat} {out : Bytes} (hsize : 0 < size)
    (h : r.read size = (r', out, none)) : r'.remaining < r.remaining := by
  rw [read] at h
  split at h
  · cases h
  · rw [if_neg (by omega)] at h
    have hremaining := readLoop_remaining r size []
    have hnonempty := readLoop_nonempty r size [] (by omega) (by rw [h])
    rw [h, List.length_nil] at hremaining
    rw [h] at hnonempty
    simp only at hremaining hnonempty
    omega

/-- `io.ReadAll`, after it has read `b`. How much room its buffer has at each call is up to the
growth of slices in Go, here `spare`, but it is never none. -/
def readAll (spare : Nat → Nat) (r : NilfsDecodedReader) (b : Bytes) : Except String Bytes :=
  match _ : r.read (spare b.length + 1) with
  | (r', out, none) => readAll spare r' (b ++ out)
  | (_, out, some .eof) => .ok (b ++ out)
  | (_, _, some (.failed text)) => .error text
termination_by r.remaining
decreasing_by
  rename_i hread
  exact read_progress (Nat.succ_pos _) hread

end NilfsDecodedReader

/-! ### The commitments of a user MDU -/

/-- How `generateProofHeaderJSON` reads the commitments of a user MDU back from the witness MDUs.
They lie there like the bytes of a file. -/
def readWitnessCommitments (spare : Nat → Nat) (dealDir : DealDir) (leafCount userOrdinal : Nat) :
    Except String Bytes := do
  rejectIf (leafCount = 0) "leaf_count must be > 0"
  let commitmentSpan := leafCount * 48
  let startOffset := userOrdinal * commitmentSpan
  let witnessReader ←
    (newNilfsDecodedReader dealDir 1 startOffset commitmentSpan startOffset commitmentSpan).mapError
      ("failed to open witness reader: " ++ ·)
  let witnessRaw ← (witnessReader.readAll spare []).mapError
    ("failed to read witness commitments: " ++ ·)
  rejectIf (witnessRaw.length ≠ commitmentSpan)
    ("invalid witness commitments length: got " ++ toString witnessRaw.length ++ " want " ++
      toString commitmentSpan)
  return witnessRaw

/-- The commitments of a user MDU that was read in full are its stretch of the witness stream, cut
into points of 48 bytes. -/
theorem readWitnessCommitments_ok {spare : Nat → Nat} {dealDir : DealDir}
    {leafCount userOrdinal : Nat}
    {r : NilfsDecodedReader} {witnessRaw : Bytes} (hleaf : leafCount ≠ 0)
    (hnew : newNilfsDecodedReader dealDir 1 (userOrdinal * (leafCount * 48)) (leafCount * 48)
      (userOrdinal * (leafCount * 48)) (leafCount * 48) = .ok r)
    (hread : r.readAll spare [] = .ok witnessRaw) (hlength : witnessRaw.length = leafCount * 48) :
    readWitnessCommitments spare dealDir leafCount userOrdinal = .ok witnessRaw := by
  simp only [readWitnessCommitments, except_bind_ok, rejectIf_eq_ok]
  refine ⟨(), hleaf, r, ?_, witnessRaw, ?_, (), not_not.mpr hlength, rfl⟩
  · rw [hnew]
    rfl
  · rw [hread]
    rfl

end NilStore.Gateway
