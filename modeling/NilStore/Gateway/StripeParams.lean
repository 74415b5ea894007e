import NilStore.Chain.Stripe

/-!
# `NilStore.Gateway.StripeParams`: the stripe of a deal, for the gateway

`nil_gateway/stripe_params.go`. The gateway reads the stripe from the service hint, with the parser
of the chain. The type `stripeParams` of the gateway has the same fields as the one of the keeper.
-/

set_option autoImplicit false

namespace NilStore.Gateway

open NilStore.Lib NilStore.Chain

/-- `stripeParamsFromHint`. The gateway reads the hint only, where the chain has a profile as
well. -/
def stripeParamsFromHint (serviceHint : Str) : Except String StripeParams := do
  let parsed ← parseServiceHint serviceHint
  match ← rsParamsFromHint parsed with
  | none => return mode1StripeParams
  | some rs => return ⟨2, rs.k, rs.m, rs.rows, rs.leafCount, rs.k + rs.m⟩

/-- `leafIndexForBlobIndex`. The blobs are numbered row by row, and the leaves slot by slot. -/
def leafIndexForBlobIndex (blobIndex : UInt32) (params : StripeParams) : Except String UInt64 :=
  if params.mode ≠ 2 then .ok blobIndex.toUInt64
  else if params.k = 0 ∨ params.rows = 0 then .error "invalid stripe params"
  else
    let row := blobIndex.toUInt64 / params.k
    let col := blobIndex.toUInt64 % params.k
    .ok (col * params.rows + row)

/-- `slotForLeafIndex`. In Mode 1 there is one slot. -/
def slotForLeafIndex (leafIndex : UInt64) (params : StripeParams) : Except String UInt64 :=
  if params.mode ≠ 2 then .ok 0
  else if params.rows = 0 then .error "invalid stripe params"
  else .ok (leafIndex / params.rows)

/-- What the parser admits: Mode 1, or `K` divides 64 and the sum of `K` and `M`, as it is computed,
is at most 12. -/
theorem stripeParamsFromHint_cases {serviceHint : Str} {params : StripeParams}
    (h : stripeParamsFromHint serviceHint = .ok params) :
    params = mode1StripeParams ∨ ∃ k m : UInt64, k ≠ 0 ∧ m ≠ 0 ∧ 64 % k = 0 ∧ k + m ≤ 12 ∧
      params = ⟨2, k, m, 64 / k, (k + m) * (64 / k), k + m⟩ := by
  rw [stripeParamsFromHint, except_bind_ok] at h
  obtain ⟨parsed, hparsed, h⟩ := h
  rw [except_bind_ok] at h
  obtain ⟨rs, hrs, h⟩ := h
  have hchecked := parseServiceHint_checked hparsed
  rw [rsParamsFromHint] at hrs
  split at hrs
  · cases hrs
    left
    exact (Except.ok.inj h).symm
  · rename_i hhas
    split at hrs
    · cases hrs
    · rename_i hnonzero
      -- the parser has checked the two numbers, so the division in the source is exact
      obtain ⟨hk, hdvd, hle⟩ := hchecked (not_not.mp hhas)
      cases hrs
      right
      exact ⟨parsed.rsk, parsed.rsm, hk, fun hm => hnonzero (Or.inr hm), hdvd, hle,
        (Except.ok.inj h).symm⟩

/-- The number of leaves of an accepted stripe has no factor 31, unless `K + M` has wrapped around
to zero. -/
theorem leafCount_zero_of_dvd {serviceHint : Str} {params : StripeParams}
    (h : stripeParamsFromHint serviceHint = .ok params) (hdvd : 31 ∣ params.leafCount.toNat) :
    params.leafCount.toNat = 0 := by
  rcases stripeParamsFromHint_cases h with rfl | ⟨k, m, hk, hm, hrows, hsum, rfl⟩
  · revert hdvd
    decide
  · have hk0 : k.toNat ≠ 0 := fun h0 => hk (UInt64.toNat_inj.mp h0)
    have hrows : 64 % k.toNat = 0 := by
      have htoNat := congrArg UInt64.toNat hrows
      rwa [UInt64.toNat_mod] at htoNat
    have hk64 : k.toNat ≤ 64 := Nat.le_of_dvd (by decide) (Nat.dvd_of_mod_eq_zero hrows)
    have hsum : (k + m).toNat ≤ 12 := UInt64.le_iff_toNat_le.mp hsum
    have hquot : (64 / k).toNat = 64 / k.toNat := UInt64.toNat_div 64 k
    have hsmall : 64 / k.toNat ≤ 64 := Nat.div_le_self _ _
    have hprod : (k + m).toNat * (64 / k.toNat) ≤ 12 * 64 := Nat.mul_le_mul hsum hsmall
    have hleaf : ((k + m) * (64 / k)).toNat = (k + m).toNat * (64 / k.toNat) := by
      rw [UInt64.toNat_mul, hquot, Nat.mod_eq_of_lt (by omega)]
    have hcheck : ∀ d ≤ 64, ∀ t ≤ 12, d ≠ 0 → 64 % d = 0 → 31 ∣ t * (64 / d) → t = 0 := by
      decide +kernel
    show ((k + m) * (64 / k)).toNat = 0
    rw [hleaf, hcheck k.toNat hk64 (k + m).toNat hsum hk0 hrows (hleaf ▸ hdvd), Nat.zero_mul]

end NilStore.Gateway
