import Mathlib.LinearAlgebra.Lagrange
import Mathlib.NumberTheory.LucasPrimality
import Mathlib.Tactic.NormNum.Prime
import NilStore.Core.Kzg

/-!
# `NilStore.Core.ScalarField`: the scalars are a field with 4096 roots of unity

`frModulus` is prime (`prime_frModulus`), by Lucas's test with the witness 7 and the factors of
`frModulus - 1`. So `Scalar` is a field, and `7 ^ ((frModulus - 1) / 4096)` has order 4096 in it.
Its powers are the points of the domain: `z_for_cell` writes them (`parseScalar_zForCell`), and the
evaluations of a blob are those of exactly one polynomial of degree below 4096 (`interpolate`).
-/

set_option autoImplicit false

namespace NilStore.Core

open NilStore.Lib Polynomial

/-! ### The order is prime -/

/-- Repeated squaring computes the power, when the exponent has at most `fuel` bits. -/
theorem modpow_eq (modulus fuel base exponent : Nat) (h : exponent < 2 ^ fuel) :
    modpow modulus fuel base exponent = base ^ exponent % modulus := by
  -- the induction is on the fuel; each round takes one bit off the exponent
  induction fuel generalizing base exponent with
  | zero =>
      have h0 : exponent = 0 := by omega
      subst h0
      simp [modpow]
  | succ fuel ih =>
      rw [modpow]
      by_cases h0 : exponent = 0
      · subst h0
        simp
      · have hhalf : exponent / 2 < 2 ^ fuel := by
          rw [pow_succ] at h
          omega
        have hsquare : (base * base % modulus) ^ (exponent / 2) % modulus =
            base ^ (2 * (exponent / 2)) % modulus := by
          rw [← Nat.pow_mod, pow_mul, sq]
        have hsplit := Nat.div_add_mod exponent 2
        rw [if_neg h0]
        simp only [ih _ _ hhalf, hsquare]
        by_cases hodd : exponent % 2 = 1
        · rw [if_pos hodd, Nat.mul_mod_mod]
          conv_rhs => rw [← hsplit, hodd, pow_succ, mul_comm]
        · have heven : 2 * (exponent / 2) = exponent := by omega
          rw [if_neg hodd, heven]

/-- The prime factors of `frModulus - 1`. -/
def orderFactors : List Nat :=
  [2, 3, 11, 19, 10177, 125527, 859267, 906349, 2508409, 2529403, 52437899, 254760293]

/-- The listed factors of the order minus one are primes. Pratt's test on the modulus rests on
them. -/
theorem prime_of_mem_orderFactors {q : Nat} (h : q ∈ orderFactors) : q.Prime := by
  simp only [orderFactors, List.mem_cons, List.not_mem_nil, or_false] at h
  rcases h with rfl | rfl | rfl | rfl | rfl | rfl | rfl | rfl | rfl | rfl | rfl | rfl <;> norm_num

/-- A prime that divides `frModulus - 1` is one of its factors. -/
theorem mem_orderFactors {q : Nat} (hq : q.Prime) (h : q ∣ frModulus - 1) : q ∈ orderFactors := by
  have hpow : frModulus - 1 ∣ (orderFactors.prod) ^ 32 := Nat.dvd_of_mod_eq_zero (by decide +kernel)
  have hprod : q ∣ orderFactors.prod := hq.dvd_of_dvd_pow (h.trans hpow)
  obtain ⟨f, hf, hdvd⟩ := (Prime.dvd_prod_iff hq.prime).mp hprod
  rwa [(Nat.prime_dvd_prime_iff_eq hq (prime_of_mem_orderFactors hf)).mp hdvd]

/-- A power of a number is 1 as a scalar when its remainder is. -/
theorem natCast_pow_eq_one_iff {a e : Nat} (he : e < 2 ^ 256) :
    ((a : Scalar) ^ e = 1) ↔ modpow frModulus 256 a e = 1 := by
  have hone : 1 % frModulus = 1 := by decide
  rw [modpow_eq _ _ _ _ he, ← Nat.cast_pow, ← Nat.cast_one, ZMod.natCast_eq_natCast_iff', hone]

/-- The scalar field has a prime modulus, so `Scalar` is a field. -/
theorem prime_frModulus : frModulus.Prime := by
  have hlt : ∀ e, e ≤ frModulus - 1 → e < 2 ^ 256 := by
    intro e he
    have hmodulus : frModulus - 1 < 2 ^ 256 := by decide
    omega
  refine lucas_primality frModulus ((7 : Nat) : Scalar) ?_ ?_
  · rw [natCast_pow_eq_one_iff (hlt _ le_rfl)]
    decide +kernel
  · intro q hq hdvd
    rw [ne_eq, natCast_pow_eq_one_iff (hlt _ (Nat.div_le_self _ _))]
    have hall : ∀ f ∈ orderFactors, modpow frModulus 256 7 ((frModulus - 1) / f) ≠ 1 := by
      decide +kernel
    exact hall q (mem_orderFactors hq hdvd)

instance : Fact frModulus.Prime := ⟨prime_frModulus⟩

/-! ### The domain -/

/-- The generator of the domain. It is a primitive root of unity of order 4096. -/
def omega : Scalar := (getRootOfUnity4096 : Scalar)

/-- The root of unity of the domain is 7 raised to the cofactor of 4096. -/
theorem omega_eq : omega = ((7 : Nat) : Scalar) ^ ((frModulus - 1) / 4096) := by
  have hlt : (frModulus - 1) / 4096 < 2 ^ 256 := by decide
  rw [omega, getRootOfUnity4096, modpow_eq _ _ _ _ hlt, ZMod.natCast_mod, Nat.cast_pow]

/-- The root of unity has order 4096, so its powers are the 4096 points of the domain. -/
theorem orderOf_omega : orderOf omega = 4096 := by
  have hhalf : ¬omega ^ 2 ^ 11 = 1 := by
    rw [omega_eq, ← pow_mul, natCast_pow_eq_one_iff (by decide)]
    decide +kernel
  have hfull : omega ^ 2 ^ (11 + 1) = 1 := by
    rw [omega_eq, ← pow_mul, natCast_pow_eq_one_iff (by decide)]
    decide +kernel
  have horder : orderOf omega = 2 ^ (11 + 1) := orderOf_eq_prime_pow hhalf hfull
  rw [horder]
  rfl

/-- The points of the domain are distinct. -/
theorem omega_pow_injOn : Set.InjOn (fun i : Nat => omega ^ i) (Finset.range 4096) := by
  intro i hi j hj heq
  have hi : i < orderOf omega := by
    rw [orderOf_omega]
    exact Finset.mem_range.mp hi
  have hj : j < orderOf omega := by
    rw [orderOf_omega]
    exact Finset.mem_range.mp hj
  exact pow_injOn_Iio_orderOf hi hj heq

/-- The polynomial of degree below 4096 that takes the given values on the domain. -/
noncomputable def interpolate (evals : List Scalar) : Scalar[X] :=
  Lagrange.interpolate (Finset.range 4096) (fun i => omega ^ i) fun i => evals.getD i 0

/-- The interpolating polynomial of a blob has a degree below 4096. -/
theorem degree_interpolate_lt (evals : List Scalar) : (interpolate evals).degree < 4096 := by
  have hlt := Lagrange.degree_interpolate_lt (fun i => evals.getD i 0) omega_pow_injOn
  rw [Finset.card_range] at hlt
  exact hlt

/-- The interpolating polynomial takes the given values at the powers of the root of unity. -/
theorem eval_interpolate (evals : List Scalar) {i : Nat} (h : i < 4096) :
    (interpolate evals).eval (omega ^ i) = evals.getD i 0 :=
  Lagrange.eval_interpolate_at_node _ omega_pow_injOn (Finset.mem_range.mpr h)

/-! ### Scalars as bytes -/

/-- The big-endian form of a scalar has 32 bytes. -/
theorem length_scalarToBytesBe (s : Scalar) : (scalarToBytesBe s).length = 32 :=
  length_beBytes _ _

/-- The bytes of a number below the order are read back. -/
theorem ofBeBytes_canonical {n : Nat} (h : n < frModulus) : ofBeBytes (beBytes 32 n) = n := by
  have hmodulus : frModulus < 256 ^ 32 := by decide
  rw [ofBeBytes_beBytes]
  omega

/-- A scalar is read back from its bytes. -/
theorem parseScalar_scalarToBytesBe (s : Scalar) : parseScalar (scalarToBytesBe s) = .ok s := by
  have hread : ofBeBytes (scalarToBytesBe s) = s.val := ofBeBytes_canonical s.val_lt
  rw [parseScalar, if_neg (not_not.mpr (length_scalarToBytesBe s)), hread, if_pos s.val_lt,
    ZMod.natCast_zmod_val]

/-- The big-endian form of a scalar is read back as the scalar. -/
theorem reduceBytes32ToScalar_scalarToBytesBe (s : Scalar) :
    reduceBytes32ToScalar (scalarToBytesBe s) = s := by
  have hread : ofBeBytes (scalarToBytesBe s) = s.val := ofBeBytes_canonical s.val_lt
  rw [reduceBytes32ToScalar, hread, ZMod.natCast_zmod_val]

/-- Two scalars with one big-endian form are one scalar. -/
theorem scalarToBytesBe_inj {s t : Scalar} (h : scalarToBytesBe s = scalarToBytesBe t) : s = t := by
  have hreduce := congrArg reduceBytes32ToScalar h
  rwa [reduceBytes32ToScalar_scalarToBytesBe, reduceBytes32ToScalar_scalarToBytesBe] at hreduce

/-- `z_for_cell` writes the points of the domain. -/
theorem parseScalar_zForCell {idx : Nat} (h : idx < 2 ^ 256) :
    parseScalar (zForCell idx) = .ok (omega ^ idx) := by
  have hpos : 0 < frModulus := by decide
  have hlt : getRootOfUnity4096 ^ idx % frModulus < frModulus := Nat.mod_lt _ hpos
  rw [zForCell, modpow_eq _ _ _ _ h, parseScalar, ofBeBytes_canonical hlt, if_pos hlt,
    if_neg (not_not.mpr (length_beBytes _ _)), ZMod.natCast_mod, Nat.cast_pow, omega]

end NilStore.Core
