import Mathlib.Algebra.BigOperators.Intervals
import Mathlib.Algebra.Field.GeomSum
import Mathlib.Data.List.GetD
import Mathlib.RingTheory.RootsOfUnity.PrimitiveRoots
import Mathlib.Tactic.Abel
import Mathlib.Tactic.Ring

/-!
# `NilStore.Lib.Fft`: the iterative Fourier transform

The radix-2 transform of `2 ^ m` values: they are permuted by bit reversal, and then `m` stages
combine blocks of doubling length. After stage `s` each block of length `2 ^ s` holds the transform
of the values whose index has the block's number, reversed, in its low bits (`getD_stages`). So the
last stage leaves the transform of all values (`getD_fft`), and the inverse transform gives the
coefficients of the polynomial that takes the values on the powers of the root of unity
(`sum_ifft`).
-/

set_option autoImplicit false

namespace NilStore.Lib

open Finset

variable {F : Type} [Field F]

/-! ### The algorithm -/

/-- The low `bits` bits of a number in reverse. -/
def bitReverse : Nat → Nat → Nat
  | 0, _ => 0
  | bits + 1, i => bitReverse bits (i / 2) + i % 2 * 2 ^ bits

/-- The values in bit-reversed order. -/
def bitReversePermute (m : Nat) (values : List F) : List F :=
  (List.range (2 ^ m)).map fun i => values.getD (bitReverse m i) 0

/-- The butterflies of one stage: in each block of `2 * half` values, those of the two halves are
combined. The pairs are disjoint, so all of them are given at once. -/
def fftStage (omega : F) (n half : Nat) (values : List F) : List F :=
  let len := 2 * half
  let wlen := omega ^ (n / len)
  (List.range n).map fun p =>
    let j := p % len
    if j < half then values.getD p 0 + values.getD (p + half) 0 * wlen ^ j
    else values.getD (p - half) 0 - values.getD p 0 * wlen ^ (j - half)

/-- The first `s` stages. -/
def fftStages (omega : F) (m : Nat) (values : List F) : Nat → List F
  | 0 => bitReversePermute m values
  | s + 1 => fftStage omega (2 ^ m) (2 ^ s) (fftStages omega m values s)

/-- The transform of `2 ^ m` values. It is the discrete Fourier transform for a root of unity of
this order. -/
def fft (omega : F) (m : Nat) (values : List F) : List F := fftStages omega m values m

/-- The inverse transform. It divides by the number of values at the end. -/
def ifft (omega : F) (m : Nat) (values : List F) : List F :=
  (fft omega⁻¹ m values).map fun v => v * ((2 ^ m : Nat) : F)⁻¹

/-! ### What it computes -/

/-- Reversing an even index over one more bit gives the reversal of its half. -/
theorem bitReverse_two_mul (bits i : Nat) : bitReverse (bits + 1) (2 * i) = bitReverse bits i := by
  rw [bitReverse, Nat.mul_div_cancel_left i (by decide), Nat.mul_mod_right,
    Nat.zero_mul, Nat.add_zero]

/-- Reversing an odd index over one more bit sets the new top bit. -/
theorem bitReverse_two_mul_add_one (bits i : Nat) :
    bitReverse (bits + 1) (2 * i + 1) = bitReverse bits i + 2 ^ bits := by
  have hdiv : (2 * i + 1) / 2 = i := by omega
  have hmod : (2 * i + 1) % 2 = 1 := by omega
  rw [bitReverse, hdiv, hmod, Nat.one_mul]

/-- A sum over twice as many indices, by their parity. -/
theorem sum_range_two_mul {M : Type} [AddCommMonoid M] (f : Nat → M) (n : Nat) :
    ∑ t ∈ range (2 * n), f t = ∑ t ∈ range n, f (2 * t) + ∑ t ∈ range n, f (2 * t + 1) := by
  induction n with
  | zero => simp
  | succ n ih =>
      rw [Nat.mul_succ, sum_range_succ, sum_range_succ, ih, sum_range_succ, sum_range_succ]
      abel

/-- Entry `i` of a tabulated list is the value at `i`. -/
theorem getD_map_range (f : Nat → F) {n i : Nat} (h : i < n) :
    ((List.range n).map f).getD i 0 = f i := by
  rw [List.getD_eq_getElem?_getD, List.getElem?_map, List.getElem?_range h]
  rfl

/-- The stages give `2 ^ m` values. -/
theorem length_fftStages (omega : F) (m : Nat) (values : List F) (s : Nat) :
    (fftStages omega m values s).length = 2 ^ m := by
  cases s with
  | zero => simp [fftStages, bitReversePermute]
  | succ s => simp [fftStages, fftStage]

/-- Half way round, a root of unity of even order is `-1`. -/
theorem pow_half_eq_neg_one {omega : F} {m : Nat} (h : IsPrimitiveRoot omega (2 ^ (m + 1))) :
    omega ^ 2 ^ m = -1 := by
  have hsquare : omega ^ 2 ^ m * omega ^ 2 ^ m = 1 := by
    rw [← pow_add, ← two_mul, ← pow_succ', h.pow_eq_one]
  have hne : omega ^ 2 ^ m ≠ 1 := h.pow_ne_one_of_pos_of_lt (by positivity)
    (Nat.pow_lt_pow_right (by decide) (Nat.lt_succ_self m))
  exact (mul_self_eq_one_iff.mp hsquare).resolve_left hne

/-- The transform of the values at the indices `first`, `first + 2 ^ k`, `first + 2 * 2 ^ k`, .. -/
def dftOf (omega : F) (values : List F) (k s first r : Nat) : F :=
  ∑ t ∈ range (2 ^ s), values.getD (first + t * 2 ^ k) 0 * omega ^ (2 ^ k * (r * t))

section Butterfly

variable {omega : F} {values : List F} {k s : Nat}

/-- The transform of twice as many values, from those at the even and at the odd places. -/
theorem dftOf_succ (first r : Nat) : dftOf omega values k (s + 1) first r =
    dftOf omega values (k + 1) s first r +
      dftOf omega values (k + 1) s (first + 2 ^ k) r * (omega ^ 2 ^ k) ^ r := by
  have heven : ∀ t, values.getD (first + 2 * t * 2 ^ k) 0 * omega ^ (2 ^ k * (r * (2 * t))) =
      values.getD (first + t * 2 ^ (k + 1)) 0 * omega ^ (2 ^ (k + 1) * (r * t)) := by
    intro t
    have hplace : first + 2 * t * 2 ^ k = first + t * 2 ^ (k + 1) := by ring
    have hexp : 2 ^ k * (r * (2 * t)) = 2 ^ (k + 1) * (r * t) := by ring
    rw [hplace, hexp]
  have hodd : ∀ t, values.getD (first + (2 * t + 1) * 2 ^ k) 0 *
        omega ^ (2 ^ k * (r * (2 * t + 1))) =
      values.getD (first + 2 ^ k + t * 2 ^ (k + 1)) 0 * omega ^ (2 ^ (k + 1) * (r * t)) *
        (omega ^ 2 ^ k) ^ r := by
    intro t
    have hplace : first + (2 * t + 1) * 2 ^ k = first + 2 ^ k + t * 2 ^ (k + 1) := by ring
    have hexp : 2 ^ k * (r * (2 * t + 1)) = 2 ^ (k + 1) * (r * t) + 2 ^ k * r := by ring
    rw [hplace, hexp, pow_add omega, ← pow_mul, mul_assoc]
  rw [dftOf, pow_succ', sum_range_two_mul]
  simp only [heven, hodd]
  rw [← sum_mul]
  rfl

/-- Going half way round changes nothing at the even places. -/
theorem dftOf_add_half (h : IsPrimitiveRoot omega (2 ^ (k + 1 + s))) (first r : Nat) :
    dftOf omega values (k + 1) s first (r + 2 ^ s) = dftOf omega values (k + 1) s first r := by
  refine sum_congr rfl fun t _ => ?_
  have hexp : 2 ^ (k + 1) * ((r + 2 ^ s) * t) =
    2 ^ (k + 1) * (r * t) + 2 ^ (k + 1 + s) * t := by ring
  rw [hexp, pow_add omega, pow_mul omega (2 ^ (k + 1 + s)), h.pow_eq_one, one_pow, mul_one]

end Butterfly

/-- What the blocks hold after some of the stages. After stage `s` the values stand in blocks of `2
^ s`, and block `b` is the transform of every `2 ^ k`-th value, from the one on whose index is `b`
with its bits reversed. -/
theorem getD_stages {omega : F} (values : List F) {k s m : Nat} (hm : k + s = m)
    (homega : IsPrimitiveRoot omega (2 ^ m)) {b r : Nat} (hb : b < 2 ^ k) (hr : r < 2 ^ s) :
    (fftStages omega m values s).getD (b * 2 ^ s + r) 0 =
      dftOf omega values k s (bitReverse k b) r := by
  -- the induction is on the stages that are done; a stage joins two blocks to one
  induction s generalizing k b r with
  | zero =>
      have hk : k = m := by omega
      have hr : r = 0 := by simpa using hr
      subst hk hr
      -- before the first stage each block is one value, at its reversed place
      rw [fftStages, bitReversePermute, getD_map_range _ (by simpa using hb)]
      simp [dftOf]
  | succ s ih =>
      have hblocks : 2 ^ (k + 1) = 2 * 2 ^ k := pow_succ' 2 k
      have hlen : 2 * 2 ^ s = 2 ^ (s + 1) := (pow_succ' 2 s).symm
      have hn : 2 ^ m = 2 ^ k * (2 * 2 ^ s) := by rw [hlen, ← pow_add, hm]
      have hp : b * 2 ^ (s + 1) + r < 2 ^ m := by
        have hmul := Nat.mul_le_mul_right (2 ^ (s + 1)) (Nat.succ_le_of_lt hb)
        rw [Nat.succ_mul] at hmul
        rw [hn, hlen]
        omega
      have hj : (b * 2 ^ (s + 1) + r) % (2 * 2 ^ s) = r := by
        rw [hlen, Nat.mul_comm, Nat.mul_add_mod, Nat.mod_eq_of_lt hr]
      have hwlen : 2 ^ m / (2 * 2 ^ s) = 2 ^ k := by
        rw [hn, Nat.mul_div_cancel _ (by positivity)]
      -- The two halves of the block are the blocks `2 * b` and `2 * b + 1` of the stage before.
      have hlow : ∀ r' < 2 ^ s, (fftStages omega m values s).getD (b * 2 ^ (s + 1) + r') 0 =
          dftOf omega values (k + 1) s (bitReverse k b) r' := by
        intro r' hr'
        have hplace : b * 2 ^ (s + 1) + r' = 2 * b * 2 ^ s + r' := by ring
        rw [hplace, ih (show k + 1 + s = m by omega) (by omega) hr', bitReverse_two_mul]
      have hhigh : ∀ r' < 2 ^ s,
          (fftStages omega m values s).getD (b * 2 ^ (s + 1) + r' + 2 ^ s) 0 =
            dftOf omega values (k + 1) s (bitReverse k b + 2 ^ k) r' := by
        intro r' hr'
        have hplace : b * 2 ^ (s + 1) + r' + 2 ^ s = (2 * b + 1) * 2 ^ s + r' := by ring
        rw [hplace, ih (show k + 1 + s = m by omega) (by omega) hr', bitReverse_two_mul_add_one]
      rw [fftStages, fftStage, getD_map_range _ hp]
      simp only [hj, hwlen]
      rw [dftOf_succ]
      by_cases hhalf : r < 2 ^ s
      · rw [if_pos hhalf, hlow r hhalf, hhigh r hhalf]
      · obtain ⟨r', rfl⟩ := Nat.exists_eq_add_of_le (Nat.not_lt.mp hhalf)
        have hr' : r' < 2 ^ s := by omega
        have hback : b * 2 ^ (s + 1) + (2 ^ s + r') - 2 ^ s = b * 2 ^ (s + 1) + r' := by omega
        have hplace : b * 2 ^ (s + 1) + (2 ^ s + r') = b * 2 ^ (s + 1) + r' + 2 ^ s := by omega
        have hroot : IsPrimitiveRoot omega (2 ^ (k + 1 + s)) := by
          have hexp : k + 1 + s = m := by omega
          rwa [hexp]
        have hneg : (omega ^ 2 ^ k) ^ (2 ^ s + r') = -(omega ^ 2 ^ k) ^ r' := by
          have hhalfway : omega ^ 2 ^ (k + s) = -1 := by
            refine pow_half_eq_neg_one ?_
            have hexp : k + s + 1 = m := by omega
            rwa [hexp]
          rw [pow_add, ← pow_mul, ← pow_add, hhalfway, neg_one_mul]
        have hsum : 2 ^ s + r' = r' + 2 ^ s := Nat.add_comm _ _
        rw [if_neg hhalf, Nat.add_sub_cancel_left, hback, hplace, hlow r' hr', hhigh r' hr', hneg,
          hsum, dftOf_add_half hroot, dftOf_add_half hroot]
        ring

/-- The transform at a place. -/
theorem getD_fft {omega : F} (values : List F) {m : Nat} (homega : IsPrimitiveRoot omega (2 ^ m))
    {i : Nat} (hi : i < 2 ^ m) :
    (fft omega m values).getD i 0 = ∑ t ∈ range (2 ^ m), values.getD t 0 * omega ^ (i * t) := by
  have hblock := getD_stages values (Nat.zero_add m) homega Nat.one_pos hi
  rw [Nat.zero_mul, Nat.zero_add] at hblock
  rw [fft, hblock]
  refine sum_congr rfl fun t _ => ?_
  simp [bitReverse]

/-- The powers of an `n`-th root of unity sum up to zero, unless it is 1. -/
theorem sum_pow_eq_zero {x : F} {n : Nat} (hx : x ^ n = 1) (hne : x ≠ 1) :
    ∑ i ∈ range n, x ^ i = 0 := by
  have hmul := mul_neg_geom_sum x n
  rw [hx, sub_self] at hmul
  exact (mul_eq_zero.mp hmul).resolve_left (sub_ne_zero_of_ne hne.symm)

/-- The inverse transform gives `2 ^ m` values. -/
theorem length_ifft (omega : F) (m : Nat) (values : List F) :
    (ifft omega m values).length = 2 ^ m := by
  rw [ifft, List.length_map, fft, length_fftStages]

/-- The inverse transform gives the coefficients of a polynomial with the given values. -/
theorem sum_ifft {omega : F} (values : List F) {m : Nat} (homega : IsPrimitiveRoot omega (2 ^ m))
    (hn : ((2 ^ m : Nat) : F) ≠ 0) {j : Nat} (hj : j < 2 ^ m) :
    ∑ i ∈ range (2 ^ m), (ifft omega m values).getD i 0 * (omega ^ j) ^ i = values.getD j 0 := by
  have hcoeff : ∀ i ∈ range (2 ^ m), (ifft omega m values).getD i 0 * (omega ^ j) ^ i =
      ∑ t ∈ range (2 ^ m),
        values.getD t 0 * ((2 ^ m : Nat) : F)⁻¹ * (omega ^ j * omega⁻¹ ^ t) ^ i := by
    intro i hi
    have hlt : i < (fft omega⁻¹ m values).length := by
      rw [fft, length_fftStages]
      exact mem_range.mp hi
    rw [ifft, List.getD_eq_getElem?_getD, List.getElem?_map, List.getElem?_eq_getElem hlt,
      Option.map_some, Option.getD_some, ← List.getD_eq_getElem _ 0 hlt,
      getD_fft values homega.inv (mem_range.mp hi), sum_mul, sum_mul]
    refine sum_congr rfl fun t _ => ?_
    rw [mul_pow, ← pow_mul omega⁻¹ t i, Nat.mul_comm t i]
    ring
  rw [sum_congr rfl hcoeff, sum_comm]
  -- Of the sums over the coefficients, only the one for `t = j` is not zero.
  rw [sum_eq_single j]
  · have hone : omega ^ j * omega⁻¹ ^ j = 1 := by
      rw [inv_pow, mul_inv_cancel₀ (pow_ne_zero _ (homega.ne_zero (by positivity)))]
    simp only [hone, one_pow, sum_const, card_range, mul_one, nsmul_eq_mul]
    rw [mul_comm (values.getD j 0), ← mul_assoc, mul_inv_cancel₀ hn, one_mul]
  -- for another `t` it is a sum over the powers of a root, which is zero
  · intro t ht hne
    rw [← mul_sum, sum_pow_eq_zero, mul_zero]
    · rw [mul_pow, ← pow_mul, ← pow_mul, Nat.mul_comm, pow_mul, homega.pow_eq_one, one_pow,
        Nat.mul_comm, pow_mul, homega.inv.pow_eq_one, one_pow, mul_one]
    · intro hone
      have hpow : omega ^ j = omega ^ t := by
        have hmul := congrArg (· * omega ^ t) hone
        simpa [inv_pow, mul_assoc, inv_mul_cancel₀ (pow_ne_zero t (homega.ne_zero (by positivity)))]
          using hmul
      exact hne (homega.pow_inj (mem_range.mp ht) hj hpow.symm)
  · intro hnot
    exact absurd (mem_range.mpr hj) hnot

end NilStore.Lib
