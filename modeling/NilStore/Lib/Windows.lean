import Mathlib.Algebra.BigOperators.Intervals
import Mathlib.Algebra.BigOperators.Group.List.Basic
import Mathlib.Tactic.Abel
import NilStore.Lib.Layout

/-!
# `NilStore.Lib.Windows`: numbers in windows of bits

A number is read in windows of `w` bits, and `windowOf w k n` is the one at place `k`. A multiple of
an element of a commutative monoid is put together from its windows, the last one first, by doubling
(`nsmul_of_windows`), and the multiples for the windows of many elements by running sums over
buckets (`foldr_runningStep`).
-/

set_option autoImplicit false

namespace NilStore.Lib

open Finset

/-! ### Windows -/

/-- The bits of `n` from `w * k` on, `w` of them. They are a digit of `n` to the base `2 ^ w`. -/
def windowOf (w k n : Nat) : Nat := n / 2 ^ (w * k) % 2 ^ w

/-- A window is a number of its width. -/
theorem windowOf_lt (w k n : Nat) : windowOf w k n < 2 ^ w := Nat.mod_lt _ (Nat.two_pow_pos w)

/-- What is from a window on is the window, and what is behind it. -/
theorem div_window (w k n : Nat) :
    n / 2 ^ (w * k) = 2 ^ w * (n / 2 ^ (w * (k + 1))) + windowOf w k n := by
  have hdiv : n / 2 ^ (w * (k + 1)) = n / 2 ^ (w * k) / 2 ^ w := by
    rw [Nat.div_div_eq_div_mul, ← pow_add, Nat.mul_succ]
  rw [hdiv, windowOf, Nat.div_add_mod]

/-- The low bits of a quotient are the bits of the number. -/
theorem mod_div_mod {m s w width : Nat} (h : s + w ≤ width) :
    m % 2 ^ width / 2 ^ s % 2 ^ w = m / 2 ^ s % 2 ^ w := by
  have hsplit : 2 ^ width = 2 ^ s * 2 ^ (width - s) := by
    rw [← pow_add, Nat.add_sub_cancel' (by omega)]
  rw [hsplit, Nat.mod_mul_right_div_self, Nat.mod_mod_of_dvd _ (Nat.pow_dvd_pow 2 (by omega))]

section Monoid

variable {G : Type} [AddCommMonoid G]

/-- The multiple by what is from a window on, from the multiple by what is behind the window. -/
theorem nsmul_of_windows (w k n : Nat) (p : G) :
    (n / 2 ^ (w * k)) • p = 2 ^ w • ((n / 2 ^ (w * (k + 1))) • p) + windowOf w k n • p := by
  rw [div_window, add_nsmul, mul_nsmul']

/-- Doubling some times. -/
theorem iterate_double (w : Nat) (p : G) : (fun q : G => q + q)^[w] p = 2 ^ w • p := by
  induction w generalizing p with
  | zero => rw [Function.iterate_zero_apply, pow_zero, one_nsmul]
  | succ w ih => rw [Function.iterate_succ_apply, ih, pow_succ, mul_nsmul', two_nsmul]

/-! ### Running sums -/

/-- One step of the running sums: a bucket is added to the first, and that to the second. -/
def runningStep (bucket : G) (sums : G × G) : G × G := (sums.1 + bucket, sums.2 + (sums.1 + bucket))

/-- From the last bucket to the first, the sum of the running sums counts each bucket by its
place. -/
theorem foldr_runningStep (bucket : Nat → G) (first n : Nat) :
    (List.range' first n).foldr (fun i => runningStep (bucket i)) (0, 0) =
      (∑ i ∈ range n, bucket (first + i), ∑ i ∈ range n, (i + 1) • bucket (first + i)) := by
  induction n generalizing first with
  | zero => simp
  | succ n ih =>
      have hplace : ∀ i, first + 1 + i = first + (i + 1) := fun i => by omega
      rw [List.range'_succ, List.foldr_cons, ih, runningStep]
      -- every bucket behind the first is counted once more
      have hmore : ∀ i, (i + 1 + 1) • bucket (first + (i + 1)) =
          (i + 1) • bucket (first + (i + 1)) + bucket (first + (i + 1)) := fun i => succ_nsmul _ _
      simp only [hplace, sum_range_succ', hmore, sum_add_distrib, Nat.add_zero, zero_add, one_nsmul]
      exact Prod.ext rfl (add_assoc _ _ _).symm

/-- What the buckets are worth: each counts by its place. -/
def weightedSum (buckets : List G) : G := ∑ i ∈ range buckets.length, i • buckets.getD i 0

/-- An element that is added to a bucket counts as often as the bucket. -/
theorem weightedSum_set (buckets : List G) {w : Nat} (hw : w < buckets.length) (p : G) :
    weightedSum (buckets.set w (buckets.getD w 0 + p)) = weightedSum buckets + w • p := by
  rw [weightedSum, weightedSum, List.length_set]
  have hother : ∀ i, i ≠ w → (buckets.set w (buckets.getD w 0 + p)).getD i 0 =
      buckets.getD i 0 := by
    intro i hi
    rw [List.getD_eq_getElem?_getD, List.getElem?_set_ne (Ne.symm hi), List.getD_eq_getElem?_getD]
  have hself : (buckets.set w (buckets.getD w 0 + p)).getD w 0 = buckets.getD w 0 + p := by
    rw [List.getD_eq_getElem?_getD, List.getElem?_set_self hw, Option.getD_some]
  rw [← add_sum_erase _ _ (mem_range.mpr hw),
    ← add_sum_erase (range buckets.length) _ (mem_range.mpr hw), hself,
    nsmul_add]
  have hrest : ∑ i ∈ (range buckets.length).erase w,
      i • (buckets.set w (buckets.getD w 0 + p)).getD i 0 =
      ∑ i ∈ (range buckets.length).erase w, i • buckets.getD i 0 :=
    sum_congr rfl fun i hi => by rw [hother i (ne_of_mem_erase hi)]
  rw [hrest]
  abel

/-- Empty buckets weigh nothing. -/
theorem weightedSum_replicate_zero (n : Nat) : weightedSum (List.replicate n (0 : G)) = 0 := by
  refine sum_eq_zero fun i hi => ?_
  have hi : i < n := by simpa using hi
  rw [List.getD_eq_getElem?_getD, List.getElem?_replicate, if_pos hi, Option.getD_some, nsmul_zero]

/-- The running sums over all buckets but the one at place 0 give their worth. -/
theorem foldr_runningStep_weightedSum (buckets : List G) :
    ((List.range' 1 (buckets.length - 1)).foldr (fun i =>
      runningStep (buckets.getD i 0)) (0, 0)).2 =
      weightedSum buckets := by
  rw [foldr_runningStep, weightedSum]
  cases buckets with
  | nil => rfl
  | cons bucket rest =>
      rw [List.length_cons, Nat.add_sub_cancel, sum_range_succ', zero_nsmul, add_zero]
      show ∑ i ∈ range rest.length, (i + 1) • (bucket :: rest).getD (1 + i) 0 = _
      simp only [Nat.add_comm 1]

end Monoid

/-! ### Little-endian bytes -/

/-- The first byte of a little-endian number is its lowest one. -/
theorem ofLeBytes_cons (x : UInt8) (b : Bytes) :
    ofLeBytes (x :: b) = x.toNat + 256 * ofLeBytes b := by
  rw [ofLeBytes, List.reverse_cons, ofBeBytes_append_singleton, ofLeBytes]
  omega

/-- A byte is a digit of the number. -/
theorem toNat_getD (b : Bytes) (i : Nat) : (b.getD i 0).toNat = ofLeBytes b / 256 ^ i % 256 := by
  induction b generalizing i with
  | nil => simp [ofLeBytes, ofBeBytes]
  | cons x b ih =>
      have hx : x.toNat < 256 := x.toNat_lt
      rw [ofLeBytes_cons]
      cases i with
      | zero =>
          rw [List.getD_cons_zero, pow_zero]
          omega
      | succ i =>
          have hdiv : (x.toNat + 256 * ofLeBytes b) / 256 = ofLeBytes b := by omega
          rw [List.getD_cons_succ, ih, pow_succ', ← Nat.div_div_eq_div_mul, hdiv]

/-- A number of `n` bytes is below 256^n. -/
theorem ofLeBytes_lt (b : Bytes) : ofLeBytes b < 256 ^ b.length := by
  have hlt := ofBeBytes_lt b.reverse
  rwa [List.length_reverse] at hlt

/-- Some bytes in one word. -/
theorem foldl_or_bytes (b : Bytes) (start count : Nat) :
    (List.range count).foldl (fun word i => word ||| (b.getD (start + i) 0).toNat <<< (8 * i)) 0 =
      ofLeBytes b / 256 ^ start % 256 ^ count := by
  induction count with
  | zero => rw [pow_zero, Nat.mod_one]; rfl
  | succ count ih =>
      have hbase : (256 : Nat) ^ count = 2 ^ (8 * count) := by
        rw [pow_mul]
        rfl
      have hlow : ofLeBytes b / 256 ^ start % 256 ^ count < 2 ^ (8 * count) := by
        rw [← hbase]
        exact Nat.mod_lt _ (Nat.pow_pos (by decide))
      rw [List.range_succ, List.foldl_append, ih, List.foldl_cons, List.foldl_nil, Nat.or_comm,
        ← Nat.shiftLeft_add_eq_or_of_lt hlow, Nat.shiftLeft_eq, toNat_getD, pow_add,
        ← Nat.div_div_eq_div_mul,
        Nat.mod_pow_succ, ← hbase, Nat.mul_comm, Nat.add_comm]

end NilStore.Lib
