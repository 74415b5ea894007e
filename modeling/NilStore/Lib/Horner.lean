import Mathlib.Algebra.BigOperators.Group.Finset.Basic
import Mathlib.Algebra.BigOperators.Ring.Finset
import Mathlib.Data.List.GetD
import Mathlib.Tactic.Ring

/-!
# `NilStore.Lib.Horner`: polynomials as lists of coefficients

A list of coefficients, the constant one first, is evaluated by Horner's rule. Synthetic division by
`X - z` runs the same rule and keeps what it has at each step: the first value is the remainder,
which is the value at `z`, and the others are the coefficients of the quotient (`horner_sub`).

The sum of products of two lists is `dot`. With the multiples of the powers of `x` on one side it is
the value at `x` (`dot_powers`).
-/

set_option autoImplicit false

namespace NilStore.Lib

open Finset

variable {R : Type} [CommRing R]

/-- The value of the polynomial with these coefficients. -/
def horner (coeffs : List R) (x : R) : R := coeffs.foldr (fun c y => y * x + c) 0

/-- Synthetic division by `X - z`: the remainder and then the coefficients of the quotient. -/
def syntheticDivision (coeffs : List R) (z : R) : List R :=
  coeffs.foldr (fun c b => (c + b.headD 0 * z) :: b) []

/-- The sum of the products of two lists; what one list has more is left out. -/
def dot (xs ys : List R) : R := (List.zipWith (· * ·) xs ys).sum

/-- The polynomial without coefficients is zero everywhere. -/
@[simp] theorem horner_nil (x : R) : horner [] x = 0 := rfl

/-- One step of Horner's rule. -/
@[simp] theorem horner_cons (c : R) (cs : List R) (x : R) :
    horner (c :: cs) x = horner cs x * x + c :=
  rfl

/-- One step of the division, from the highest coefficient down. -/
theorem syntheticDivision_cons (c : R) (cs : List R) (z : R) : syntheticDivision (c :: cs) z =
    (c + (syntheticDivision cs z).headD 0 * z) :: syntheticDivision cs z := rfl

/-- The division returns one number for each coefficient: the quotient's and the remainder. -/
theorem length_syntheticDivision (coeffs : List R) (z : R) :
    (syntheticDivision coeffs z).length = coeffs.length := by
  induction coeffs with
  | nil => rfl
  | cons c cs ih => rw [syntheticDivision_cons, List.length_cons, ih, List.length_cons]

/-- The coefficients as a list and as a function. -/
theorem horner_eq_sum (coeffs : List R) (x : R) :
    horner coeffs x = ∑ i ∈ range coeffs.length, coeffs.getD i 0 * x ^ i := by
  induction coeffs with
  | nil => rfl
  | cons c cs ih =>
      rw [horner_cons, ih, List.length_cons, sum_range_succ', sum_mul]
      simp only [List.getD_cons_succ, List.getD_cons_zero, pow_succ, pow_zero, mul_one, mul_assoc]

/-- The first value of the division is the value at `z`. -/
theorem headD_syntheticDivision (coeffs : List R) (z : R) :
    (syntheticDivision coeffs z).headD 0 = horner coeffs z := by
  induction coeffs with
  | nil => rfl
  | cons c cs ih =>
      rw [syntheticDivision_cons, List.headD_cons, ih, horner_cons]
      ring

/-- A list of coefficients, its first one split off. -/
theorem horner_tail (coeffs : List R) (x : R) :
    horner coeffs x = horner (coeffs.drop 1) x * x + coeffs.headD 0 := by
  cases coeffs with
  | nil => simp
  | cons c cs => rfl

/-- The polynomial is the quotient times `X - z`, and its value at `z`. -/
theorem horner_sub (coeffs : List R) (x z : R) : horner coeffs x - horner coeffs z =
    (x - z) * horner ((syntheticDivision coeffs z).drop 1) x := by
  induction coeffs with
  | nil => simp [syntheticDivision]
  | cons c cs ih =>
      -- The quotient of `c + X * p` is that of `p` in front of which its value at `z` is put.
      have hquotient : (syntheticDivision (c :: cs) z).drop 1 = syntheticDivision cs z := rfl
      rw [hquotient, horner_tail (syntheticDivision cs z) x, headD_syntheticDivision, horner_cons,
        horner_cons]
      have hstep : horner cs x = (x - z) * horner ((syntheticDivision cs z).drop 1) x +
          horner cs z := by
        rw [← ih]
        ring
      rw [hstep]
      ring

/-- A ring homomorphism maps the values of a polynomial. -/
theorem horner_map {S : Type} [CommRing S] (f : R →+* S) (coeffs : List R) (x : R) :
    horner (coeffs.map f) (f x) = f (horner coeffs x) := by
  induction coeffs with
  | nil => exact (map_zero f).symm
  | cons c cs ih => rw [List.map_cons, horner_cons, ih, horner_cons, map_add, map_mul]

/-- A ring homomorphism maps the quotient and the remainder. -/
theorem syntheticDivision_map {S : Type} [CommRing S] (f : R →+* S) (coeffs : List R) (z : R) :
    syntheticDivision (coeffs.map f) (f z) = (syntheticDivision coeffs z).map f := by
  induction coeffs with
  | nil => rfl
  | cons c cs ih =>
      have hhead : ∀ l : List R, (l.map f).headD 0 = f (l.headD 0) := by
        intro l
        cases l with
        | nil => exact (map_zero f).symm
        | cons _ _ => rfl
      rw [List.map_cons, syntheticDivision_cons, ih, syntheticDivision_cons, List.map_cons,
        hhead, map_add, map_mul]

/-- The sum of products by index. -/
theorem dot_eq_sum (xs ys : List R) (n : Nat) (hx : n ≤ xs.length) (hy : ys.length = n) :
    dot xs ys = ∑ i ∈ range n, xs.getD i 0 * ys.getD i 0 := by
  induction n generalizing xs ys with
  | zero =>
      have hnil : ys = [] := List.eq_nil_of_length_eq_zero hy
      subst hnil
      cases xs <;> rfl
  | succ n ih =>
      cases xs with
      | nil => simp at hx
      | cons x xs =>
          cases ys with
          | nil => simp at hy
          | cons y ys =>
              have htail := ih xs ys (by simpa using hx) (by simpa using hy)
              rw [sum_range_succ']
              simp only [List.getD_cons_succ, List.getD_cons_zero]
              rw [← htail]
              show x * y + (List.zipWith (· * ·) xs ys).sum = dot xs ys + x * y
              rw [dot, add_comm]

/-- The multiples of the powers of `x`, weighted by coefficients. -/
theorem dot_powers {points coeffs : List R} {g x : R} (hle : coeffs.length ≤ points.length)
    (hpoints : ∀ i < coeffs.length, points.getD i 0 = g * x ^ i) :
    dot points coeffs = g * horner coeffs x := by
  rw [dot_eq_sum points coeffs coeffs.length hle rfl, horner_eq_sum, mul_sum]
  refine sum_congr rfl fun i hi => ?_
  rw [hpoints i (mem_range.mp hi)]
  ring

end NilStore.Lib
