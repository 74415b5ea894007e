import NilStore.Cli.Shard
import NilStore.Website.FileSharder

/-!
# `NilStore.Proofs.PayloadPackers`: four packers of one payload

The Rust core, its C interface, `nil_cli` and the browser each pack a payload into an MDU. They make
the same buffer (`packers_agree`). Each scalar of it has a zero byte in front, so it is below the
modulus, and the decoder gives the payload back.
-/

set_option autoImplicit false

namespace NilStore.Core

open NilStore.Lib

/-- `nil_encode_payload_to_mdu`, with the buffer that it fills. -/
def nilEncodePayloadInto (payload outMdu : Bytes) : Except Int Bytes :=
  if outMdu.length ≠ mduSize then .error (-2)
  else if payload.length > mduPayloadBytes then .error (-2)
  else .ok (encodeChunks 0 (payload.toChunks scalarPayloadBytes) (List.replicate outMdu.length 0))

/-- Whatever stood in the buffer, it is filled with the packed payload. -/
theorem nilEncodePayloadInto_eq {payload outMdu : Bytes} (hout : outMdu.length = mduSize)
    (h : payload.length ≤ mduPayloadBytes) :
    nilEncodePayloadInto payload outMdu = .ok (payloadMdu payload) := by
  have hloop := encodeToMdu_eq payload
  rw [encodeToMdu] at hloop
  simp only [List.take_of_length_le h] at hloop
  rw [nilEncodePayloadInto, if_neg (not_not.mpr hout), if_neg (Nat.not_lt.mpr h), hout, hloop]

/-- A scalar of a packed payload is canonical. -/
theorem ofBeBytes_scalar_lt {payload : Bytes} {i : Nat} (h : i < scalarsPerMdu) :
    ofBeBytes (wordAt scalarBytes i (payloadMdu payload)) < frModulus := by
  have hshort : ((payload.drop (31 * i)).take 31).length ≤ 31 := List.length_take_le _ _
  have hscalar : wordAt scalarBytes i (payloadMdu payload) =
      alignRight 0 32 ((payload.drop (31 * i)).take 31) := scalar_payloadMdu h
  rw [hscalar, ← beBytes_ofBeBytes_alignRight (hshort.trans (by decide)), ofBeBytes_beBytes]
  refine lt_of_le_of_lt (Nat.mod_le _ _) (lt_of_lt_of_le (ofBeBytes_lt _) ?_)
  exact (Nat.pow_le_pow_right (by decide) hshort).trans (by decide)

/-- The four packers make one buffer of scalars, and it decodes to the payload. Every word of it is
below the order of the field, so the later conversion to scalars loses nothing. -/
theorem packers_agree (payload : Bytes) (h : payload.length ≤ mduPayloadBytes) :
    ∃ mdu, mdu.length = mduSize ∧ Cli.encodeToMdu payload = some mdu ∧
      (∀ outMdu, outMdu.length = mduSize → nilEncodePayloadInto payload outMdu = .ok mdu) ∧
      encodeToMdu payload = mdu ∧ Website.encodeToMdu payload = mdu ∧
      (∀ i < scalarsPerMdu, ofBeBytes (wordAt scalarBytes i mdu) < frModulus) ∧
      nilDecodePayloadFromMdu mdu payload.length = .ok payload := by
  have hcore : encodeToMdu payload = payloadMdu payload := by
    rw [encodeToMdu_eq, List.take_of_length_le h]
  have hbrowser : Website.encodeToMdu payload = payloadMdu payload := by
    have hloop := Website.encodeFrom_eq payload 0 (List.replicate mduSize 0)
    rw [Nat.zero_mul, Nat.zero_mul, List.drop_zero] at hloop
    rw [encodeToMdu] at hcore
    simp only [List.take_of_length_le h] at hcore
    rw [Website.encodeToMdu, hloop, hcore]
  exact ⟨payloadMdu payload, length_payloadMdu h, Cli.encodeToMdu_eq h,
    fun outMdu hout => nilEncodePayloadInto_eq hout h, hcore, hbrowser,
    fun i hi => ofBeBytes_scalar_lt hi, decode_encode h⟩

/-- A payload of one full chunk and a short one with a leading zero. -/
theorem packers_agree_short :
    ∃ mdu, mdu.length = mduSize ∧ Cli.encodeToMdu (List.replicate 31 255 ++ [0, 7]) = some mdu ∧
      Website.encodeToMdu (List.replicate 31 255 ++ [0, 7]) = mdu ∧
      nilDecodePayloadFromMdu mdu 33 = .ok (List.replicate 31 255 ++ [0, 7]) := by
  obtain ⟨mdu, hlength, hcli, -, -, hbrowser, -, hdecode⟩ :=
    packers_agree (List.replicate 31 255 ++ [0, 7]) (by decide)
  exact ⟨mdu, hlength, hcli, hbrowser, hdecode⟩

end NilStore.Core
