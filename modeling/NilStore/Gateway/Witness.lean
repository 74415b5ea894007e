import NilStore.Gateway.CryptoFfi
import NilStore.Lib.Loops
import NilStore.Lib.Tx

/-!
# `NilStore.Gateway.Witness`: the witness MDUs of a slab

`nil_gateway/ingest_mode2.go`. The commitments of all user MDUs make one stream, which
`mode2BuildArtifacts` cuts into the payloads of the witness MDUs. `mode2BuildArtifactsAppend` reads
the stream back from an existing slab before it adds to it. Both take the number of witness MDUs
from the builder of MDU #0.
-/

set_option autoImplicit false

namespace NilStore.Gateway

open NilStore.Lib NilStore.Core

/-- `RawMduCapacity`. -/
def rawMduCapacity : Nat := 8126464

/-- The MDU files of a slab's directory: the bytes of `mdu_<i>.bin`, if it is there. -/
abbrev DealDir := Nat → Option Bytes

/-- The bytes from `start` to `stop`. -/
def slice (bytes : Bytes) (start stop : Nat) : Bytes := (bytes.take stop).drop start

/-- The payload of witness MDU `i`. It is empty past the end of the stream. -/
def witnessChunk (witnessBytes : Bytes) (i : Nat) : Bytes :=
  let start := i * rawMduCapacity
  if start ≥ witnessBytes.length then []
  else slice witnessBytes start (min (start + rawMduCapacity) witnessBytes.length)

/-- The loop over the witness MDUs in `mode2BuildArtifacts` and `mode2BuildArtifactsAppend`: the
encoded MDUs. -/
def buildWitnessMdus (witnessCount : UInt64) (witnessBytes : Bytes) : Except String (List Bytes) :=
  (List.range witnessCount.toNat).mapM fun i =>
    (cryptoFfiEncodePayloadToMdu (witnessChunk witnessBytes i)).mapError fun text =>
      "encode witness mdu " ++ toString i ++ ": " ++ text

/-- The directory with these witness MDUs. MDU #0 is not among them. -/
def witnessDir (mdus : List Bytes) : DealDir
  | 0 => none
  | i + 1 => mdus[i]?

/-- The bytes of the stream that witness MDU `i` holds, when the stream has `total`. -/
def witnessSegLen (total i : Nat) : Nat :=
  let start := i * rawMduCapacity
  if start ≥ total then 0
  else if total - start > rawMduCapacity then rawMduCapacity
  else total - start

/-- The body of the loop over the witness MDUs in `mode2BuildArtifactsAppend`: what MDU `i` holds of
a stream of `total` bytes. -/
def decodeWitnessMdu (dir : DealDir) (total i : Nat) : Except String Bytes := do
  let encoded ← orFail (dir (1 + i)) ("failed to read existing witness mdu " ++ toString i)
  (cryptoFfiDecodePayloadFromMdu encoded (witnessSegLen total i)).mapError fun text =>
    "failed to decode witness mdu " ++ toString i ++ ": " ++ text

/-- That loop. The first MDU that cannot be decoded ends it. -/
def decodeWitnessMdus (dir : DealDir) (witnessCount : UInt64) (total : Nat) :
    Except String Bytes := do
  let pieces ← (List.range witnessCount.toNat).mapM (decodeWitnessMdu dir total)
  return pieces.flatten

/-- How `mode2BuildArtifactsAppend` recovers the stream of the existing slab. The length is computed
from the numbers of MDUs. -/
def recoverWitnessBytes (dir : DealDir) (oldUserMdus commitmentsPerMdu : UInt64) :
    Except String Bytes := do
  let oldWitnessCount :=
    (Mdu0Builder.newWithCommitments oldUserMdus commitmentsPerMdu).witnessMduCount
  let oldWitnessBytesTotal := (oldUserMdus * (commitmentsPerMdu * 48)).toNat
  let decoded ← decodeWitnessMdus dir oldWitnessCount oldWitnessBytesTotal
  let oldWitnessBytes := decoded.take oldWitnessBytesTotal
  rejectIf (oldWitnessBytes.length ≠ oldWitnessBytesTotal)
    ("decoded witness bytes mismatch (expected " ++ toString oldWitnessBytesTotal ++ ", got " ++
      toString oldWitnessBytes.length ++ ")")
  return oldWitnessBytes

/-! ### What the writer writes and the reader reads -/

/-- The `i`-th witness MDU takes the stream in steps of the raw capacity, not of the payload
bytes. -/
theorem witnessChunk_eq (witnessBytes : Bytes) (i : Nat) :
    witnessChunk witnessBytes i =
      (witnessBytes.drop (i * rawMduCapacity)).take rawMduCapacity := by
  rw [witnessChunk]
  split
  · rw [List.drop_of_length_le (by omega), List.take_nil]
  · rename_i hlt
    rw [slice, List.drop_take]
    by_cases hfull : i * rawMduCapacity + rawMduCapacity ≤ witnessBytes.length
    · rw [Nat.min_eq_left hfull, Nat.add_sub_cancel_left]
    · rw [Nat.min_eq_right (by omega), List.take_of_length_le, List.take_of_length_le]
      · rw [List.length_drop]
        omega
      · rw [List.length_drop]

/-- How many bytes of the stream the `i`-th witness MDU takes. -/
theorem length_witnessChunk (witnessBytes : Bytes) (i : Nat) :
    (witnessChunk witnessBytes i).length = witnessSegLen witnessBytes.length i := by
  rw [witnessChunk_eq, List.length_take, List.length_drop, witnessSegLen]
  split
  · omega
  · split <;> omega

/-- What a witness MDU takes always fits its payload. -/
theorem length_witnessChunk_le (witnessBytes : Bytes) (i : Nat) :
    (witnessChunk witnessBytes i).length ≤ mduPayloadBytes := by
  rw [witnessChunk_eq, List.length_take]
  exact Nat.min_le_left _ _

/-- The payloads of the first MDUs are the beginning of the stream. -/
theorem flatten_witnessChunks (witnessBytes : Bytes) (count : Nat) :
    ((List.range count).map (witnessChunk witnessBytes)).flatten =
      witnessBytes.take (count * rawMduCapacity) := by
  induction count with
  | zero => simp
  | succ count ih =>
      rw [List.range_succ, List.map_append, List.flatten_append, ih, List.map_singleton,
        List.flatten_singleton, witnessChunk_eq, Nat.succ_mul, List.take_add]

/-- The writer's MDUs. Those past the end of the stream have an empty payload. -/
def witnessMdus (witnessCount : UInt64) (witnessBytes : Bytes) : List Bytes :=
  (List.range witnessCount.toNat).map fun i => payloadMdu (witnessChunk witnessBytes i)

/-- The writer does not fail. -/
theorem buildWitnessMdus_ok (witnessCount : UInt64) (witnessBytes : Bytes) :
    buildWitnessMdus witnessCount witnessBytes = .ok (witnessMdus witnessCount witnessBytes) := by
  refine mapM_ok fun i _ => ?_
  rw [cryptoFfiEncodePayloadToMdu_ok (length_witnessChunk_le witnessBytes i)]
  rfl

/-- An MDU of the writer is decoded to its payload. -/
theorem decodeWitnessMdu_ok {witnessCount : UInt64} {i : Nat} (witnessBytes : Bytes)
    (h : i < witnessCount.toNat) :
    decodeWitnessMdu (witnessDir (witnessMdus witnessCount witnessBytes)) witnessBytes.length i =
      .ok (witnessChunk witnessBytes i) := by
  have hmdu : witnessDir (witnessMdus witnessCount witnessBytes) (1 + i) =
      some (payloadMdu (witnessChunk witnessBytes i)) := by
    rw [Nat.add_comm, witnessDir, witnessMdus, List.getElem?_map, List.getElem?_range h]
    rfl
  have hdecode := cryptoFfiDecodePayloadFromMdu_ok (length_witnessChunk_le witnessBytes i)
  rw [length_witnessChunk] at hdecode
  rw [decodeWitnessMdu, hmdu]
  show (cryptoFfiDecodePayloadFromMdu _ _).mapError _ = _
  rw [hdecode]
  rfl

/-- The reader reads as much of the stream as the MDUs hold. -/
theorem decodeWitnessMdus_ok (witnessCount : UInt64) (witnessBytes : Bytes) :
    decodeWitnessMdus (witnessDir (witnessMdus witnessCount witnessBytes)) witnessCount
      witnessBytes.length = .ok (witnessBytes.take (witnessCount.toNat * rawMduCapacity)) := by
  have hpieces : (List.range witnessCount.toNat).mapM (decodeWitnessMdu
      (witnessDir (witnessMdus witnessCount witnessBytes)) witnessBytes.length) =
      .ok ((List.range witnessCount.toNat).map (witnessChunk witnessBytes)) :=
    mapM_ok fun i hi => decodeWitnessMdu_ok witnessBytes (List.mem_range.mp hi)
  rw [decodeWitnessMdus, hpieces]
  show Except.ok _ = _
  rw [flatten_witnessChunks]

/-- What is recovered has the expected length. -/
theorem recoverWitnessBytes_length {dir : DealDir} {oldUserMdus commitmentsPerMdu : UInt64}
    {bytes : Bytes} (h : recoverWitnessBytes dir oldUserMdus commitmentsPerMdu = .ok bytes) :
    bytes.length = (oldUserMdus * (commitmentsPerMdu * 48)).toNat := by
  simp only [recoverWitnessBytes, except_bind_ok, rejectIf_eq_ok, not_not] at h
  obtain ⟨decoded, -, _, hlength, hbytes⟩ := h
  cases hbytes
  exact hlength

end NilStore.Gateway
