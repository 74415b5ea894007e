import NilStore.Chain.Deals
import NilStore.Lib.Decimal

/-!
# `NilStore.Proofs.ServiceHints`: the stripe of a service hint

`ParseServiceHint` compares `K + M` with the base replication after an addition in `uint64`. The
last `rs` token that has a value decides, so the parameters are in range exactly when the sum of the
two numbers in it is below `2 ^ 64` (`rsInRange_iff`).
-/

set_option autoImplicit false

namespace NilStore.Chain

open NilStore.Lib

/-! ### The numbers in a hint -/

/-- The number that decimal digits write. -/
def decimalNumber (s : Str) : Nat := s.foldl (fun n c => n * 10 + (c.toNat - '0'.toNat)) 0

/-- The two numbers in the value of an `rs` token. -/
def rsNumbers (token : Str) : Option (Nat × Nat) :=
  match cut '=' (trimSpace token) with
  | none => none
  | some (key, val) =>
      if toLower (trimSpace key) = "rs".toList then
        match (trimSpace val).splitOn '+' with
        | [k, m] => some (decimalNumber (trimSpace k), decimalNumber (trimSpace m))
        | _ => none
      else none

/-- The numbers in the last `rs` token of a hint. -/
def lastRS (raw : Str) : Option (Nat × Nat) :=
  match cut ':' (trimSpace raw) with
  | none => none
  | some (_, extras) => ((extras.splitOn ':').filterMap rsNumbers).getLast?

/-- The number of a text of digits, as Lean reads it. -/
theorem decimalNumber_eq (s : Str) : decimalNumber s = Nat.ofDigitChars 10 s 0 := by
  rw [decimalNumber, Nat.ofDigitChars_eq_foldl]
  congr 1
  funext n c
  rw [Nat.mul_comm]

/-- What a parsed number is. -/
theorem toNat_parseUint {s : Str} {n : UInt64} (h : parseUint s = some n) :
    n.toNat = decimalNumber s := by
  rw [decimalNumber_eq, (parseUint_eq_some_iff.mp h).2.2]

/-- A text that is taken as a positive number is its decimal number. -/
theorem parsePositive_ok {s : Str} {text : String} {n : UInt64} (h : parsePositive s text = .ok n) :
    n.toNat = decimalNumber s ∧ n ≠ 0 := by
  rw [parsePositive] at h
  split at h
  · cases h
  · rename_i value hvalue
    split at h
    · cases h
    · rename_i hne
      cases h
      exact ⟨toNat_parseUint hvalue, hne⟩

/-! ### What the parser leaves -/

/-- The `rs` fields are those of the last `rs` token. -/
def FromTokens (info : ServiceHintInfo) (tokens : List Str) : Prop :=
  info.hasRS → info.rsm ≠ 0 ∧
    (tokens.filterMap rsNumbers).getLast? = some (info.rsk.toNat, info.rsm.toNat)

/-- The case `"rs"`. The value is split at the plus sign, and both parts are trimmed and
positive. -/
theorem parseRS_numbers {info info' : ServiceHintInfo} {val : Str}
    (h : parseRS info val = .ok info') :
    ∃ k m, val.splitOn '+' = [k, m] ∧ info'.rsm ≠ 0 ∧
      info'.rsk.toNat = decimalNumber (trimSpace k) ∧
        info'.rsm.toNat = decimalNumber (trimSpace m) := by
  rw [parseRS] at h
  simp only at h
  split at h
  · rename_i kChunk mChunk hsplit
    rw [except_bind_ok] at h
    obtain ⟨k, hk, h⟩ := h
    rw [except_bind_ok] at h
    obtain ⟨m, hm, h⟩ := h
    obtain ⟨hk, -⟩ := parsePositive_ok hk
    obtain ⟨hm, hm0⟩ := parsePositive_ok hm
    -- the checks of the ratio
    split at h
    · cases h
    · split at h
      · cases h
      · cases h
        exact ⟨kChunk, mChunk, hsplit, hm0, hk, hm⟩
  · cases h

/-- One token. Only an `rs` token with a value of two numbers changes what is known of them. -/
theorem parseHintToken_fromTokens {info info' : ServiceHintInfo} {token : Str} {seen : List Str}
    (hinfo : FromTokens info seen) (h : parseHintToken info token = .ok info') :
    FromTokens info' (seen ++ [token]) := by
  -- a token that is no `rs` token leaves the fields, and adds no numbers
  have hother : ∀ info' : ServiceHintInfo, info'.hasRS = info.hasRS → info'.rsk = info.rsk →
      info'.rsm = info.rsm → rsNumbers token = none → FromTokens info' (seen ++ [token]) := by
    intro info' hrs hk hm hnone hhas
    rw [hrs] at hhas
    rw [List.filterMap_append, List.filterMap_cons, hnone, List.filterMap_nil,
      List.append_nil, hk, hm]
    exact hinfo hhas
  rw [parseHintToken] at h
  split at h
  · rename_i hcut
    cases h
    exact hother info rfl rfl rfl (by rw [rsNumbers, hcut])
  · rename_i key val hcut
    -- the numbers of a token with a value
    have hnumbers : rsNumbers token =
        if toLower (trimSpace key) = "rs".toList then
          match (trimSpace val).splitOn '+' with
          | [k, m] => some (decimalNumber (trimSpace k), decimalNumber (trimSpace m))
          | _ => none
        else none := by
      rw [rsNumbers, hcut]
    simp only at h
    split at h
    -- an empty value, the owner, the replicas, `rs`, and the rest
    · rename_i hempty
      cases h
      refine hother info rfl rfl rfl ?_
      rw [hnumbers, hempty]
      split <;> rfl
    · split at h
      · rename_i howner
        cases h
        exact hother _ rfl rfl rfl (by rw [hnumbers, howner]; rfl)
      · split at h
        · rename_i hreplicas
          rw [except_bind_ok] at h
          obtain ⟨n, -, h⟩ := h
          cases h
          exact hother _ rfl rfl rfl (by rw [hnumbers, hreplicas]; rfl)
        · split at h
          · rename_i hrs
            obtain ⟨k, m, hsplit, hm0, hk, hm⟩ := parseRS_numbers h
            rw [hrs, if_pos rfl, hsplit] at hnumbers
            intro _
            refine ⟨hm0, ?_⟩
            rw [List.filterMap_append, List.filterMap_cons, hnumbers, List.filterMap_nil,
              List.getLast?_append, List.getLast?_singleton, hk, hm]
            rfl
          · rename_i hrs
            cases h
            exact hother info rfl rfl rfl (by rw [hnumbers, if_neg hrs])

/-- All tokens. -/
theorem foldlM_fromTokens (tokens : List Str) {info info' : ServiceHintInfo} {seen : List Str}
    (hinfo : FromTokens info seen) (h : tokens.foldlM parseHintToken info = .ok info') :
    FromTokens info' (seen ++ tokens) := by
  induction tokens generalizing info seen with
  | nil =>
      cases h
      rwa [List.append_nil]
  | cons token rest ih =>
      rw [List.foldlM_cons, except_bind_ok] at h
      obtain ⟨next, hnext, h⟩ := h
      have hrest := ih (parseHintToken_fromTokens hinfo hnext) h
      rwa [List.append_assoc, List.singleton_append] at hrest

/-- The parameters of a parsed hint are the last numbers in it. -/
theorem lastRS_of_parse {raw : Str} {info : ServiceHintInfo} (h : parseServiceHint raw = .ok info)
    (hrs : info.hasRS = true) :
    info.rsm ≠ 0 ∧ lastRS raw = some (info.rsk.toNat, info.rsm.toNat) := by
  rw [parseServiceHint] at h
  simp only at h
  split at h
  · cases h
    cases hrs
  · rename_i base extras hcut
    rw [lastRS, hcut]
    split at h
    · cases h
      cases hrs
    · have hstart : FromTokens { raw := trimSpace raw, base := trimSpace base } [] := by
        intro hflag
        cases hflag
      exact foldlM_fromTokens _ hstart h hrs

/-! ### The range -/

/-- The parameters are in range over the naturals, and nothing that is computed from them has
wrapped: the leaves of an MDU, the profile of a deal, and the number of providers that it asks
for. -/
structure RSInRange (info : ServiceHintInfo) : Prop where
  k_pos : 1 ≤ info.rsk.toNat
  m_pos : 1 ≤ info.rsm.toNat
  k_dvd : info.rsk.toNat ∣ 64
  sum_le : info.rsk.toNat + info.rsm.toNat ≤ dealBaseReplication.toNat
  leafCount : ∃ rs, rsParamsFromHint info = .ok (some rs) ∧
    rs.leafCount.toNat = (info.rsk.toNat + info.rsm.toNat) * (64 / info.rsk.toNat)
  profile : ∀ ctx id owner escrow spend duration assigned, ∃ p,
    (newDeal ctx id owner escrow spend duration info 2 assigned).mode2Profile = some p ∧
      p.k.toNat = info.rsk.toNat ∧ p.m.toNat = info.rsm.toNat
  replicas : ∀ requested mode, requestedStripe info = .ok (requested, mode) →
    mode = 2 ∧ 2 ≤ requested.toNat

/-- **The parameters of an accepted hint are in range** exactly when the sum of the last two `rs`
numbers is below `2 ^ 64`. A sum that wraps passes the check on the number of slots; the later `rs=`
wins, so only the last one counts. -/
theorem rsInRange_iff {raw : Str} {info : ServiceHintInfo} (h : parseServiceHint raw = .ok info)
    (hrs : info.hasRS = true) :
    RSInRange info ↔ ∀ k m, lastRS raw = some (k, m) → k + m < 2 ^ 64 := by
  obtain ⟨hm0, hlast⟩ := lastRS_of_parse h hrs
  obtain ⟨hk0, hdvd, hle⟩ := parseServiceHint_checked h hrs
  have hle : (info.rsk + info.rsm).toNat ≤ 12 := UInt64.le_iff_toNat_le.mp hle
  have hk : 1 ≤ info.rsk.toNat := Nat.one_le_iff_ne_zero.mpr fun h0 => hk0 (UInt64.toNat_inj.mp h0)
  have hm : 1 ≤ info.rsm.toNat := Nat.one_le_iff_ne_zero.mpr fun h0 => hm0 (UInt64.toNat_inj.mp h0)
  have hdvd : info.rsk.toNat ∣ 64 := by
    refine Nat.dvd_of_mod_eq_zero ?_
    have := congrArg UInt64.toNat hdvd
    rwa [UInt64.toNat_mod] at this
  rw [hlast]
  constructor
  · rintro hrange k m hkm
    obtain ⟨rfl, rfl⟩ := Prod.mk.inj (Option.some.inj hkm)
    have hsum : info.rsk.toNat + info.rsm.toNat ≤ 12 := hrange.sum_le
    omega
  · intro hsum
    specialize hsum _ _ rfl
    -- a sum below 2^64 does not wrap
    have hadd : (info.rsk + info.rsm).toNat = info.rsk.toNat + info.rsm.toNat := by
      rw [UInt64.toNat_add, Nat.mod_eq_of_lt hsum]
    rw [hadd] at hle
    refine ⟨hk, hm, hdvd, hle, ?_, ?_, ?_⟩
    -- the stripe, the deal and the request read the same numbers
    · refine ⟨⟨info.rsk, info.rsm, 64 / info.rsk, (info.rsk + info.rsm) * (64 / info.rsk)⟩, ?_, ?_⟩
      · rw [rsParamsFromHint, if_neg (by simp [hrs]), if_neg (by simp [hk0, hm0])]
      · have hrows : 64 / info.rsk.toNat ≤ 64 := Nat.div_le_self _ _
        have hprod : (info.rsk.toNat + info.rsm.toNat) * (64 / info.rsk.toNat) ≤ 12 * 64 :=
          Nat.mul_le_mul hle hrows
        show ((info.rsk + info.rsm) * (64 / info.rsk)).toNat = _
        rw [UInt64.toNat_mul, hadd, UInt64.toNat_div]
        exact Nat.mod_eq_of_lt (by show _ * (64 / _) < _; omega)
    · intro ctx id owner escrow spend duration assigned
      refine ⟨⟨info.rsk.toUInt32, info.rsm.toUInt32⟩, by rw [newDeal, if_pos rfl], ?_, ?_⟩
      · rw [UInt64.toNat_toUInt32]
        omega
      · rw [UInt64.toNat_toUInt32]
        omega
    · intro requested mode hstripe
      rw [requestedStripe, if_pos hrs] at hstripe
      split at hstripe
      · cases hstripe
      · obtain ⟨rfl, rfl⟩ := Prod.mk.inj (Except.ok.inj hstripe)
        exact ⟨rfl, by omega⟩

/-- A hint of the kind that deals are made with. -/
def eightPlusFour : ServiceHintInfo :=
  { raw := "Hot:rs=8+4".toList, base := "Hot".toList, rsk := 8, rsm := 4, hasRS := true }

/-- The sample hint is in range. -/
theorem rsInRange_eightPlusFour : RSInRange eightPlusFour := by
  have hparse : parseServiceHint "Hot:rs=8+4".toList = .ok eightPlusFour := by decide +kernel
  refine (rsInRange_iff hparse rfl).mpr fun k m hkm => ?_
  have hlast : lastRS "Hot:rs=8+4".toList = some (8, 4) := by decide +kernel
  obtain ⟨rfl, rfl⟩ := Prod.mk.inj (Option.some.inj (hlast.symm.trans hkm))
  decide

/-- A hint whose sum wraps around to 7. -/
def wrappedHint : Str := "Hot:rs=8+18446744073709551615".toList

/-- It is accepted, and `K + M` is far above the base replication. -/
theorem rs_out_of_range :
    ∃ info, parseServiceHint wrappedHint = .ok info ∧ info.hasRS = true ∧ ¬RSInRange info := by
  refine ⟨{ raw := wrappedHint, base := "Hot".toList, rsk := 8, rsm := 18446744073709551615,
            hasRS := true }, by decide +kernel, rfl, fun hrange => ?_⟩
  exact absurd hrange.sum_le (by decide)

end NilStore.Chain
