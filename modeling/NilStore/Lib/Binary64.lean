import Mathlib.Data.Nat.Log
import Mathlib.Tactic.Common
import Mathlib.Tactic.Linarith
import Mathlib.Tactic.Ring

/-!
# `NilStore.Lib.Binary64`: an integer as a 64-bit float

A natural number converts to the nearest number with 53 significant bits, a tie to the even one
(`toBinary64`). Up to `2 ^ 53` the conversion is exact, and below `2 ^ 64` it is off by at most
`2 ^ 10`. Dividing by a power of two is exact, so `ceilDivPow2` is the quotient rounded up.
-/

set_option autoImplicit false

namespace NilStore.Lib

/-- The nearest multiple of `2 ^ e`, a tie to the even one. -/
def roundHalfEven (n e : Nat) : Nat :=
  if 2 * (n % 2 ^ e) < 2 ^ e ∨ 2 * (n % 2 ^ e) = 2 ^ e ∧ n / 2 ^ e % 2 = 0 then n / 2 ^ e * 2 ^ e
  else (n / 2 ^ e + 1) * 2 ^ e

/-- The nearest number with 53 significant bits. A number below `2 ^ 53` is its own. -/
def toBinary64 (n : Nat) : Nat := roundHalfEven n (Nat.log2 n - 52)

/-- Rounding away no bits changes nothing. -/
theorem roundHalfEven_zero (n : Nat) : roundHalfEven n 0 = n := by
  simp [roundHalfEven, Nat.mod_one]

/-- Rounding goes up by at most one half. -/
theorem two_mul_roundHalfEven_le (n e : Nat) : 2 * roundHalfEven n e ≤ 2 * n + 2 ^ e := by
  have hsplit := Nat.div_add_mod n (2 ^ e)
  rw [Nat.mul_comm] at hsplit
  rw [roundHalfEven]
  split
  · omega
  · rename_i hup
    have hlarge : 2 ^ e ≤ 2 * (n % 2 ^ e) := by
      by_contra hsmall
      exact hup (Or.inl (Nat.not_le.mp hsmall))
    rw [Nat.add_mul, Nat.one_mul]
    omega

/-- A number with at most 53 bits is exact. -/
theorem toBinary64_eq_self {n : Nat} (h : n < 2 ^ 53) : toBinary64 n = n := by
  have hlog : Nat.log2 n - 52 = 0 := by
    rcases Nat.eq_zero_or_pos n with rfl | hpos
    · rfl
    · have hlt : Nat.log2 n < 53 := (Nat.log2_lt (Nat.pos_iff_ne_zero.mp hpos)).mpr h
      omega
  rw [toBinary64, hlog, roundHalfEven_zero]

/-- A `uint64` is rounded up by at most `2 ^ 10`. -/
theorem toBinary64_le {n : Nat} (h : n < 2 ^ 64) : toBinary64 n ≤ n + 2 ^ 10 := by
  have hlog : Nat.log2 n - 52 ≤ 11 := by
    rcases Nat.eq_zero_or_pos n with rfl | hpos
    · simp
    · have hlt : Nat.log2 n < 64 := (Nat.log2_lt (Nat.pos_iff_ne_zero.mp hpos)).mpr h
      omega
  have hpow : 2 ^ (Nat.log2 n - 52) ≤ 2 ^ 11 := Nat.pow_le_pow_right (by decide) hlog
  have hround := two_mul_roundHalfEven_le n (Nat.log2 n - 52)
  rw [toBinary64]
  omega

/-- Rounding gives zero for zero alone. -/
theorem toBinary64_pos {n : Nat} (h : 0 < n) : 0 < toBinary64 n := by
  have hle : 2 ^ (Nat.log2 n - 52) ≤ n :=
    le_trans (Nat.pow_le_pow_right (by decide) (Nat.sub_le _ _)) (Nat.log2_self_le h.ne')
  have hquotient : 0 < n / 2 ^ (Nat.log2 n - 52) := Nat.div_pos hle (Nat.two_pow_pos _)
  rw [toBinary64, roundHalfEven]
  split
  · exact Nat.mul_pos hquotient (Nat.two_pow_pos _)
  · exact Nat.mul_pos (Nat.succ_pos _) (Nat.two_pow_pos _)

/-- The quotient by a power of two, rounded up. -/
def ceilDivPow2 (n e : Nat) : Nat := (n + (2 ^ e - 1)) / 2 ^ e

end NilStore.Lib
