import NilStore.Core.Manifest
import NilStore.Core.Mdu0

/-!
# `NilStore.Gateway.CryptoFfi`: the Go bindings that build slabs

`x/crypto_ffi/binding.go`, as the gateway calls it: the commitment to a manifest, and payloads in
MDUs. The bindings check lengths before they pass pointers on, and turn result codes into errors.
-/

set_option autoImplicit false

namespace NilStore.Gateway

open NilStore.Lib NilStore.Core

/-- `nil_compute_manifest_commitment`: commitment and blob, or a result code. -/
def nilComputeManifestCommitment (kzgCtx : Option KzgContext) (hashes : Bytes) :
    Except Int (Bytes × Bytes) :=
  match kzgCtx with
  | none => .error (-1)
  | some ctx =>
      match computeManifestCommitment ctx (hashes.toChunks 32) with
      | .ok result => .ok result
      | .error _ => .error (-3)

/-- `crypto_ffi.ComputeManifestCommitment`. The lengths of the roots are checked here, since the
library sees them as one buffer. -/
def cryptoFfiComputeManifestCommitment (kzgCtx : Option KzgContext) (mduRoots : List Bytes) :
    Except String (Bytes × Bytes) :=
  if mduRoots = [] then .error "mdu_roots must be non-empty"
  else
    match mduRoots.findIdx? (·.length ≠ 32) with
    | some i =>
        .error ("invalid mdu_roots[" ++ toString i ++ "] length: expected 32, got " ++
          toString (mduRoots.getD i []).length)
    | none =>
        match nilComputeManifestCommitment kzgCtx mduRoots.flatten with
        | .ok result => .ok result
        | .error code =>
            .error ("nil_compute_manifest_commitment failed with code: " ++ toString code)

/-- `crypto_ffi.EncodePayloadToMdu`. A payload that is too long is refused before the library is
called. -/
def cryptoFfiEncodePayloadToMdu (payload : Bytes) : Except String Bytes :=
  if 0 < payload.length ∧ payload.length > mduPayloadBytes then
    .error ("payload too large: " ++ toString payload.length ++ " (max " ++
      toString mduPayloadBytes ++ ")")
  else
    match nilEncodePayloadToMdu payload with
    | .ok mdu => .ok mdu
    | .error code => .error ("nil_encode_payload_to_mdu failed with code: " ++ toString code)

/-- `crypto_ffi.DecodePayloadFromMdu`. Nothing to read is answered without the library. -/
def cryptoFfiDecodePayloadFromMdu (mduBytes : Bytes) (rawLen : Nat) : Except String Bytes :=
  if mduBytes.length ≠ mduSize then
    .error ("invalid mdu_bytes length: expected " ++ toString mduSize ++ ", got " ++
      toString mduBytes.length)
  else if rawLen > mduPayloadBytes then
    .error ("raw_len too large: " ++ toString rawLen ++ " (max " ++ toString mduPayloadBytes ++ ")")
  else if rawLen = 0 then .ok []
  else
    match nilDecodePayloadFromMdu mduBytes rawLen with
    | .ok payload => .ok payload
    | .error code => .error ("nil_decode_payload_from_mdu failed with code: " ++ toString code)

/-- Building a manifest succeeds exactly on a list of 32-byte roots that is not empty, with a loaded
setup. -/
theorem cryptoFfiComputeManifestCommitment_ok {kzgCtx : Option KzgContext} {mduRoots : List Bytes}
    {result : Bytes × Bytes} :
    cryptoFfiComputeManifestCommitment kzgCtx mduRoots = .ok result ↔
      mduRoots ≠ [] ∧ (∀ root ∈ mduRoots, root.length = 32) ∧ ∃ ctx, kzgCtx = some ctx ∧
        result = (commitBlob ctx (manifestBlob mduRoots), manifestBlob mduRoots) := by
  rw [cryptoFfiComputeManifestCommitment]
  by_cases hempty : mduRoots = []
  · simp [hempty]
  · rw [if_neg hempty]
    cases hbad : mduRoots.findIdx? (·.length ≠ 32) with
    | some i =>
        -- There is a root of another length.
        have hany : mduRoots.any (fun root => decide (root.length ≠ 32)) = true := by
          rw [← List.findIdx?_isSome, hbad]
          rfl
        obtain ⟨root, hroot, hlength⟩ := List.any_eq_true.mp hany
        constructor
        · intro h
          cases h
        · rintro ⟨-, hall, -⟩
          exact absurd (hall root hroot) (of_decide_eq_true hlength)
    -- the roots are joined, and the other side splits them again
    | none =>
        have hall : ∀ root ∈ mduRoots, root.length = 32 := by
          simpa [List.findIdx?_eq_none_iff] using hbad
        cases kzgCtx with
        | none => simp [nilComputeManifestCommitment]
        | some ctx =>
            have hchunks := toChunks_flatten (by decide : 0 < 32) hall
            simp only [nilComputeManifestCommitment, hchunks, computeManifestCommitment_ok]
            constructor
            · intro h
              exact ⟨hempty, hall, ctx, rfl, (Except.ok.inj h).symm⟩
            · rintro ⟨-, -, found, hfound, rfl⟩
              cases hfound
              rfl

/-- A payload that fits is encoded by the foreign call as by the core. -/
theorem cryptoFfiEncodePayloadToMdu_ok {payload : Bytes} (h : payload.length ≤ mduPayloadBytes) :
    cryptoFfiEncodePayloadToMdu payload = .ok (payloadMdu payload) := by
  rw [cryptoFfiEncodePayloadToMdu, if_neg (by omega), nilEncodePayloadToMdu_ok h]

/-- A payload is decoded from its MDU. -/
theorem cryptoFfiDecodePayloadFromMdu_ok {payload : Bytes} (h : payload.length ≤ mduPayloadBytes) :
    cryptoFfiDecodePayloadFromMdu (payloadMdu payload) payload.length = .ok payload := by
  rw [cryptoFfiDecodePayloadFromMdu, if_neg (not_not.mpr (length_payloadMdu h)), if_neg (by omega)]
  by_cases hempty : payload.length = 0
  · rw [if_pos hempty, List.length_eq_zero_iff.mp hempty]
  · rw [if_neg hempty, decode_encode h]

end NilStore.Gateway
