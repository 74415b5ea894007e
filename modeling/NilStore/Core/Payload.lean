import NilStore.Lib.Bytes
import NilStore.Lib.Chunks

/-!
# `NilStore.Core.Payload`: a payload in the scalars of an MDU

`nil_encode_payload_to_mdu` and `nil_decode_payload_from_mdu` of `nil_core/src/ffi.rs`. An MDU has
262144 scalars of 32 bytes. A scalar carries 31 bytes of the payload, right-aligned, so the last one
of a payload may have more than one byte of padding. The decoder is told the length of the payload,
and with it `decode_encode` is the round trip.
-/

set_option autoImplicit false

namespace NilStore.Core

open NilStore.Lib

/-- `MDU_SIZE`: the bytes of an MDU, which are 64 blobs. -/
def mduSize : Nat := 8388608

/-- `SCALAR_BYTES`: the bytes that a scalar takes in an MDU. -/
def scalarBytes : Nat := 32

/-- `SCALAR_PAYLOAD_BYTES`. The first byte of a scalar is kept free, so that it is below the
order. -/
def scalarPayloadBytes : Nat := 31

/-- `SCALARS_PER_MDU`: the scalars of the 64 blobs. -/
def scalarsPerMdu : Nat := 262144

/-- `MDU_PAYLOAD_BYTES`, which the gateway calls `RawMduCapacity`. -/
def mduPayloadBytes : Nat := 8126464

/-- `nil_encode_payload_to_mdu`. A short last chunk lies at the end of its scalar. -/
def nilEncodePayloadToMdu (payload : Bytes) : Except Int Bytes :=
  if payload.length > mduPayloadBytes then .error (-2)
  else .ok (packRight 0 scalarPayloadBytes scalarBytes scalarsPerMdu payload)

/-- The payload bytes of one scalar, of which `rawLen` bytes of payload end in it or after it. -/
def decodeScalar (mdu : Bytes) (rawLen scalarIdx : Nat) : Bytes :=
  let chunkLen := min (rawLen - scalarIdx * scalarPayloadBytes) scalarPayloadBytes
  (mdu.drop (scalarIdx * scalarBytes + (scalarBytes - chunkLen))).take chunkLen

/-- `nil_decode_payload_from_mdu`. The length has to be known, since an MDU does not say where its
payload ends. -/
def nilDecodePayloadFromMdu (mdu : Bytes) (rawLen : Nat) : Except Int Bytes :=
  if mdu.length ≠ mduSize ∨ rawLen > mduPayloadBytes then .error (-2)
  else
    let scalarsUsed := (rawLen + scalarPayloadBytes - 1) / scalarPayloadBytes
    .ok ((List.range scalarsUsed).flatMap (decodeScalar mdu rawLen))

/-! ### The round trip -/

/-- The MDU of a payload, without the check of the length. -/
def payloadMdu (payload : Bytes) : Bytes :=
  packRight 0 scalarPayloadBytes scalarBytes scalarsPerMdu payload

/-- A payload that fits is encoded, and the result is its `payloadMdu`. -/
theorem nilEncodePayloadToMdu_ok {payload : Bytes} (h : payload.length ≤ mduPayloadBytes) :
    nilEncodePayloadToMdu payload = .ok (payloadMdu payload) := by
  rw [nilEncodePayloadToMdu, if_neg (by omega), payloadMdu]

/-- An encoded payload fills one MDU, however short it is. -/
theorem length_payloadMdu {payload : Bytes} (h : payload.length ≤ mduPayloadBytes) :
    (payloadMdu payload).length = mduSize :=
  length_packRight (by decide) (by decide) h

/-- A scalar holds its 31 bytes of the payload, right-aligned. -/
theorem scalar_payloadMdu {payload : Bytes} {i : Nat} (h : i < scalarsPerMdu) :
    wordAt 32 i (payloadMdu payload) = alignRight 0 32 ((payload.drop (31 * i)).take 31) :=
  wordAt_packRight (by decide) (by decide) h

/-- The last bytes of a right-aligned word are what was aligned. -/
theorem drop_alignRight (chunk : Bytes) (w : Nat) :
    (alignRight 0 w chunk).drop (w - chunk.length) = chunk := by
  rw [alignRight, List.drop_left' List.length_replicate]

/-- A scalar of a payload is decoded to its bytes. -/
theorem decodeScalar_payloadMdu {payload : Bytes} {i : Nat} (h : i < scalarsPerMdu) :
    decodeScalar (payloadMdu payload) payload.length i = (payload.drop (31 * i)).take 31 := by
  have hlength : ((payload.drop (31 * i)).take 31).length = min (payload.length - i * 31) 31 := by
    rw [List.length_take, List.length_drop, Nat.mul_comm 31 i, Nat.min_comm]
  have hdrop := drop_alignRight ((payload.drop (31 * i)).take 31) 32
  rw [← scalar_payloadMdu h, hlength, wordAt, List.drop_take, List.drop_drop] at hdrop
  have hcount : 32 - (32 - min (payload.length - i * 31) 31) =
      min (payload.length - i * 31) 31 := by
    omega
  rw [hcount, Nat.mul_comm 32 i] at hdrop
  exact hdrop

/-- What was encoded is decoded, given its length. -/
theorem decode_encode {payload : Bytes} (h : payload.length ≤ mduPayloadBytes) :
    nilDecodePayloadFromMdu (payloadMdu payload) payload.length = .ok payload := by
  have hmdu : ¬((payloadMdu payload).length ≠ mduSize ∨ payload.length > mduPayloadBytes) := by
    rw [length_payloadMdu h]
    omega
  have hused : (payload.length + 31 - 1) / 31 ≤ scalarsPerMdu := by
    rw [mduPayloadBytes] at h
    rw [scalarsPerMdu]
    omega
  -- the scalars, decoded one by one, are the chunks of the payload
  have hchunks : (List.range ((payload.length + 31 - 1) / 31)).map
      (decodeScalar (payloadMdu payload) payload.length) = payload.toChunks 31 := by
    refine List.ext_getElem? fun i => ?_
    rw [List.getElem?_map, getElem?_toChunks (by decide)]
    by_cases hi : 31 * i < payload.length
    · have hlt : i < (payload.length + 31 - 1) / 31 := by omega
      rw [if_pos hi, List.getElem?_range hlt, Option.map_some,
        decodeScalar_payloadMdu (Nat.lt_of_lt_of_le hlt hused)]
    · have hnone : (List.range ((payload.length + 31 - 1) / 31))[i]? = none := by
        rw [List.getElem?_eq_none_iff, List.length_range]
        omega
      rw [if_neg hi, hnone, Option.map_none]
  have hflat := congrArg List.flatten hchunks
  rw [flatten_toChunks (by decide)] at hflat
  rw [nilDecodePayloadFromMdu, if_neg hmdu]
  exact congrArg Except.ok hflat

end NilStore.Core
