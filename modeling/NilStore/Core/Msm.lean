import NilStore.Core.ScalarField
import NilStore.Lib.Windows

/-!
# `NilStore.Core.Msm`: multi-scalar multiplication

`msm_pippenger_g1` of `nil_core/src/kzg.rs`. Scalars are read in windows of bits, the last window
first. For each window the points go to the bucket of their digit, and running sums over the buckets
give the sum of the points, each as often as its digit says. Between two windows the sum is doubled.

The points are elements of any commutative group; that they are affine and the sums projective does
not show. Lists of unequal lengths are cut, as in a release build.
-/

set_option autoImplicit false

namespace NilStore.Core

open NilStore.Lib

/-- `pippenger_window_size`. More points make wider windows worth while. -/
def pippengerWindowSize (n : Nat) : Nat :=
  if n ≤ 32 then 3
  else if n ≤ 64 then 4
  else if n ≤ 128 then 5
  else if n ≤ 256 then 6
  else if n ≤ 512 then 7
  else if n ≤ 1024 then 8
  else if n ≤ 2048 then 9
  else if n ≤ 4096 then 10
  else if n ≤ 8192 then 11
  else 12

/-- `pippenger_window`. The word is a `u32`, which four bytes fill. -/
def pippengerWindow (bytesLe : Bytes) (bitOffset windowBits : Nat) : Nat :=
  let startByte := bitOffset / 8
  if startByte ≥ 32 then 0
  else
    let startBit := bitOffset % 8
    let word := (List.range 4).foldl (fun word i =>
      if startByte + i < 32 then word ||| (bytesLe.getD (startByte + i) 0).toNat <<< (8 * i)
      else word) 0
    let shifted := word >>> startBit
    let mask := 1 <<< windowBits - 1
    shifted &&& mask

example : pippengerWindow (leBytes 32 (2 ^ 253 + 5)) 252 3 = 2 := by decide +kernel

/-- `to_repr`: the bytes of a scalar, the lowest first. -/
def scalarRepr (s : Scalar) : Bytes := leBytes 32 s.val

section

variable {G : Type} [AddCommGroup G]

/-- The loop over the points, which puts each into its bucket. A point whose window is zero goes
nowhere. -/
def fillBuckets (windowBits bitOffset bucketsLen : Nat) (points : List (G × Bytes)) : List G :=
  points.foldl (fun buckets e =>
    let w := pippengerWindow e.2 bitOffset windowBits
    if w ≠ 0 ∧ w < bucketsLen then buckets.set w (buckets.getD w 0 + e.1) else buckets)
    (List.replicate bucketsLen 0)

/-- The loop over the buckets, the last one first. A bucket is added as often as its number says. -/
def bucketsSum (bucketsLen : Nat) (buckets : List G) : G :=
  ((List.range' 1 (bucketsLen - 1)).reverse.foldl (fun sums idx =>
    let running := sums.1 + buckets.getD idx 0
    let windowSum := sums.2 + running
    (running, windowSum)) ((0, 0) : G × G)).2

/-- The body of the loop over the windows. The sum so far is doubled once for each bit of a
window. -/
def msmWindow (windowBits windows : Nat) (points : List (G × Bytes)) (acc : G) (windowIndex : Nat) :
    G :=
  let acc := if windowIndex ≠ windows - 1 then (fun q => q + q)^[windowBits] acc else acc
  let bitOffset := windowIndex * windowBits
  let bucketsLen := 1 <<< windowBits
  acc + bucketsSum bucketsLen (fillBuckets windowBits bitOffset bucketsLen points)

/-- `msm_pippenger_g1`. What one list has more than the other is left out. -/
def msmPippengerG1 (points : List G) (scalars : List Scalar) : G :=
  let n := min points.length scalars.length
  if n = 0 then 0
  else
    let points := points.take n
    let scalars := scalars.take n
    let windowBits := pippengerWindowSize points.length
    let windows := (256 + windowBits - 1) / windowBits
    let scalarBytes := scalars.map scalarRepr
    (List.range windows).reverse.foldl (msmWindow windowBits windows (points.zip scalarBytes)) 0

end

/-! ### Windows -/

/-- The window is between 3 and 12 bits wide for every number of points, so the loop over the
windows is never empty. -/
theorem pippengerWindowSize_mem (n : Nat) :
    3 ≤ pippengerWindowSize n ∧ pippengerWindowSize n ≤ 12 := by
  unfold pippengerWindowSize
  repeat' split
  all_goals decide

/-- The little-endian form of a scalar has 32 bytes. -/
theorem length_scalarRepr (s : Scalar) : (scalarRepr s).length = 32 := by
  rw [scalarRepr, length_leBytes]

/-- The little-endian form of a scalar is read back as its value. -/
theorem ofLeBytes_scalarRepr (s : Scalar) : ofLeBytes (scalarRepr s) = s.val := by
  have hmodulus : frModulus < 256 ^ 32 := by decide
  exact ofLeBytes_leBytes (lt_trans s.val_lt hmodulus)

/-- A window has the bits of the number, also where it begins within a byte or ends behind the last
one. -/
theorem pippengerWindow_eq {bytes : Bytes} (hlength : bytes.length = 32) {offset windowBits : Nat}
    (hbits : windowBits ≤ 25) :
    pippengerWindow bytes offset windowBits = ofLeBytes bytes / 2 ^ offset % 2 ^ windowBits := by
  -- the offset is some whole bytes and some bits of the next one
  have hsplit : 2 ^ offset = 256 ^ (offset / 8) * 2 ^ (offset % 8) := by
    have hoffset : offset = 8 * (offset / 8) + offset % 8 := by omega
    conv_lhs => rw [hoffset, pow_add, pow_mul]
    rfl
  by_cases hend : offset / 8 ≥ 32
  · -- there is nothing behind the last byte
    have hsmall : ofLeBytes bytes < 2 ^ offset := by
      have hlt := ofLeBytes_lt bytes
      rw [hlength] at hlt
      have hpow : 256 ^ 32 ≤ 256 ^ (offset / 8) := Nat.pow_le_pow_right (by decide) hend
      have hone : 256 ^ (offset / 8) ≤ 2 ^ offset := by
        rw [hsplit]
        exact Nat.le_mul_of_pos_right _ (Nat.two_pow_pos _)
      omega
    rw [pippengerWindow, if_pos hend, Nat.div_eq_of_lt hsmall, Nat.zero_mod]
  · -- bytes behind the last one are zero
    have hstep : ∀ word i, (if offset / 8 + i < 32 then
        word ||| (bytes.getD (offset / 8 + i) 0).toNat <<< (8 * i) else word) =
          word ||| (bytes.getD (offset / 8 + i) 0).toNat <<< (8 * i) := by
      intro word i
      split
      · rfl
      · have hnone : bytes[offset / 8 + i]? = none := by
          rw [List.getElem?_eq_none_iff]
          omega
        rw [List.getD_eq_getElem?_getD, hnone]
        simp
    -- the window is read from four bytes, which have room for 25 bits behind the first seven
    rw [pippengerWindow, if_neg hend]
    simp only [hstep]
    rw [foldl_or_bytes, Nat.shiftRight_eq_div_pow, Nat.one_shiftLeft,
      Nat.and_two_pow_sub_one_eq_mod]
    have hword : (256 : Nat) ^ 4 = 2 ^ 32 := by decide
    rw [hword, mod_div_mod (by omega), hsplit, Nat.div_div_eq_div_mul]

/-! ### The sum -/

section

variable {G : Type} [AddCommGroup G]

/-- The sum of the points, each as often as its window says. -/
def windowTotal (windowBits windowIndex : Nat) (points : List (G × Bytes)) : G :=
  (points.map fun e => windowOf windowBits windowIndex (ofLeBytes e.2) • e.1).sum

/-- The sum of the points, each as often as the bits from a window on say. -/
def totalFrom (windowBits windowIndex : Nat) (points : List (G × Bytes)) : G :=
  (points.map fun e => (ofLeBytes e.2 / 2 ^ (windowBits * windowIndex)) • e.1).sum

variable {points : List (G × Bytes)} {windowBits : Nat}

/-- The buckets are worth the sum for the window. The bucket at place 0, which is left out, would
count nothing. -/
theorem weightedSum_fillBuckets (hbits : windowBits ≤ 25) (hlength : ∀ e ∈ points, e.2.length = 32)
    (windowIndex : Nat) :
    (fillBuckets windowBits (windowIndex * windowBits) (2 ^ windowBits) points).length =
      2 ^ windowBits ∧
      weightedSum (fillBuckets windowBits (windowIndex * windowBits) (2 ^ windowBits) points) =
        windowTotal windowBits windowIndex points := by
  -- one more pair is one more entry in a bucket, or none if its window is zero
  induction points using List.reverseRecOn with
  | nil => exact ⟨List.length_replicate, weightedSum_replicate_zero _⟩
  | append_singleton points e ih =>
      obtain ⟨hlen, hsum⟩ := ih fun e' he' => hlength e' (List.mem_append_left _ he')
      have hwindow : pippengerWindow e.2 (windowIndex * windowBits) windowBits =
          windowOf windowBits windowIndex (ofLeBytes e.2) := by
        rw [pippengerWindow_eq (hlength e (by simp)) hbits, Nat.mul_comm, windowOf]
      have hlt := windowOf_lt windowBits windowIndex (ofLeBytes e.2)
      have htotal : windowTotal windowBits windowIndex (points ++ [e]) =
          windowTotal windowBits windowIndex points +
            windowOf windowBits windowIndex (ofLeBytes e.2) • e.1 := by
        simp [windowTotal]
      have hfill : fillBuckets windowBits (windowIndex * windowBits) (2 ^ windowBits)
          (points ++ [e]) =
          if windowOf windowBits windowIndex (ofLeBytes e.2) ≠ 0 ∧
              windowOf windowBits windowIndex (ofLeBytes e.2) < 2 ^ windowBits then
            (fillBuckets windowBits (windowIndex * windowBits) (2 ^ windowBits) points).set
              (windowOf windowBits windowIndex (ofLeBytes e.2))
              ((fillBuckets windowBits (windowIndex * windowBits) (2 ^ windowBits) points).getD
                (windowOf windowBits windowIndex (ofLeBytes e.2)) 0 + e.1)
          else fillBuckets windowBits (windowIndex * windowBits) (2 ^ windowBits) points := by
        rw [fillBuckets, List.foldl_append, List.foldl_cons, List.foldl_nil, ← fillBuckets]
        simp only [hwindow]
      rw [hfill, htotal]
      by_cases hzero : windowOf windowBits windowIndex (ofLeBytes e.2) = 0
      -- a window of zero counts nothing, and is put nowhere
      · rw [if_neg fun h => h.1 hzero, hzero, zero_nsmul, add_zero]
        exact ⟨hlen, hsum⟩
      · rw [if_pos ⟨hzero, hlt⟩, List.length_set, weightedSum_set _ (by rw [hlen]; exact hlt), hsum]
        exact ⟨hlen, rfl⟩

/-- The sum over the buckets of a window. -/
theorem bucketsSum_fillBuckets (hbits : windowBits ≤ 25) (hlength : ∀ e ∈ points, e.2.length = 32)
    (windowIndex : Nat) :
    bucketsSum (2 ^ windowBits)
      (fillBuckets windowBits (windowIndex * windowBits) (2 ^ windowBits) points) =
      windowTotal windowBits windowIndex points := by
  obtain ⟨hlen, hsum⟩ := weightedSum_fillBuckets hbits hlength windowIndex
  rw [← hsum, ← foldr_runningStep_weightedSum, hlen, bucketsSum, List.foldl_reverse]
  rfl

/-- From one window to the one before it. -/
theorem totalFrom_eq (points : List (G × Bytes)) (windowBits windowIndex : Nat) :
    totalFrom windowBits windowIndex points =
      2 ^ windowBits • totalFrom windowBits (windowIndex + 1) points +
        windowTotal windowBits windowIndex points := by
  induction points with
  | nil => simp [totalFrom, windowTotal]
  | cons e points ih =>
      have hhead : totalFrom windowBits windowIndex (e :: points) =
          (ofLeBytes e.2 / 2 ^ (windowBits * windowIndex)) • e.1 +
            totalFrom windowBits windowIndex points :=
        List.sum_cons
      have hnext : totalFrom windowBits (windowIndex + 1) (e :: points) =
          (ofLeBytes e.2 / 2 ^ (windowBits * (windowIndex + 1))) • e.1 +
            totalFrom windowBits (windowIndex + 1) points := List.sum_cons
      have hwindow : windowTotal windowBits windowIndex (e :: points) =
          windowOf windowBits windowIndex (ofLeBytes e.2) • e.1 +
            windowTotal windowBits windowIndex points :=
        List.sum_cons
      rw [hhead, hnext, hwindow, ih, nsmul_of_windows, nsmul_add]
      abel

/-- Behind the last window there is nothing. -/
theorem totalFrom_eq_zero {windows : Nat} (hall : 256 ≤ windowBits * windows)
    (hlength : ∀ e ∈ points, e.2.length = 32) : totalFrom windowBits windows points = 0 := by
  rw [totalFrom]
  refine List.sum_eq_zero fun x hx => ?_
  obtain ⟨e, he, rfl⟩ := List.mem_map.mp hx
  have hlt := ofLeBytes_lt e.2
  rw [hlength e he] at hlt
  have hpow : (2 : Nat) ^ 256 ≤ 2 ^ (windowBits * windows) := Nat.pow_le_pow_right (by decide) hall
  have hsame : (256 : Nat) ^ 32 = 2 ^ 256 := by decide
  rw [Nat.div_eq_of_lt (by omega), zero_nsmul]

/-- The loop over the windows. The invariant: after a window the sum counts the bits from it on. -/
theorem foldl_msmWindow {windows : Nat} (hbits : windowBits ≤ 25)
    (hall : 256 ≤ windowBits * windows) (hlength : ∀ e ∈ points, e.2.length = 32) :
    (List.range windows).reverse.foldl (msmWindow windowBits windows points) 0 =
      totalFrom windowBits 0 points := by
  -- from the last window to window `first`, over the number of windows
  have hloop : ∀ count first, first + count = windows →
      (List.range' first count).foldr (fun i acc => msmWindow windowBits windows points acc i) 0 =
        totalFrom windowBits first points := by
    intro count
    induction count with
    | zero =>
        intro first hfirst
        rw [← hfirst, Nat.add_zero] at hall
        rw [totalFrom_eq_zero hall hlength]
        rfl
    | succ count ih =>
        intro first hfirst
        -- what the windows behind count is doubled once for each bit of this one
        rw [List.range'_succ, List.foldr_cons, ih (first + 1) (by omega),
          totalFrom_eq points windowBits first, msmWindow,
          Nat.one_shiftLeft, bucketsSum_fillBuckets hbits hlength]
        by_cases hlast : first ≠ windows - 1
        · rw [if_pos hlast, iterate_double]
        · -- nothing is there to be doubled
          have hend : totalFrom windowBits (first + 1) points = 0 := by
            refine totalFrom_eq_zero ?_ hlength
            have hnext : first + 1 = windows := by omega
            rwa [hnext]
          rw [if_neg hlast, hend, nsmul_zero]
  rw [List.foldl_reverse, List.range_eq_range']
  exact hloop windows 0 (Nat.zero_add windows)

/-- The sum of the points, each as often as its scalar says. -/
def naiveSum (points : List G) (scalars : List Scalar) : G :=
  ((points.zip scalars).map fun e => e.2.val • e.1).sum

/-- From the first window on there is everything. -/
theorem totalFrom_zero (windowBits : Nat) (terms : List (G × Scalar)) :
    totalFrom windowBits 0 (terms.map fun e => (e.1, scalarRepr e.2)) =
      (terms.map fun e => e.2.val • e.1).sum := by
  rw [totalFrom, List.map_map]
  refine congrArg List.sum (List.map_congr_left fun e _ => ?_)
  simp only [Function.comp_apply, ofLeBytes_scalarRepr, Nat.mul_zero, pow_zero, Nat.div_one]

/-- The algorithm computes the sum over the pairs. -/
theorem msmPippengerG1_eq_naiveSum (points : List G) (scalars : List Scalar) :
    msmPippengerG1 points scalars = naiveSum points scalars := by
  rw [msmPippengerG1]
  by_cases hnone : min points.length scalars.length = 0
  · have hempty : points.zip scalars = [] := by
      rw [← List.length_eq_zero_iff, List.length_zip]
      exact hnone
    rw [if_pos hnone, naiveSum, hempty]
    rfl
  · rw [if_neg hnone]
    show (List.range _).reverse.foldl (msmWindow (pippengerWindowSize _) _ _) 0 = _
    -- the size of a window only has to lie between 1 and 25
    obtain ⟨hlow, hhigh⟩ :=
      pippengerWindowSize_mem (points.take (min points.length scalars.length)).length
    generalize pippengerWindowSize (points.take (min points.length scalars.length)).length =
      windowBits
      at hlow hhigh
    -- the windows reach to the last bit
    have hall : 256 ≤ windowBits * ((256 + windowBits - 1) / windowBits) := by
      have hdiv := Nat.div_add_mod (256 + windowBits - 1) windowBits
      have hmod := Nat.mod_lt (256 + windowBits - 1) (show 0 < windowBits by omega)
      omega
    have hzip : (points.take (min points.length scalars.length)).zip
        ((scalars.take (min points.length scalars.length)).map scalarRepr) =
          (points.zip scalars).map fun e => (e.1, scalarRepr e.2) := by
      rw [List.zip_map_right, ← List.zip_eq_zip_take_min]
      rfl
    rw [hzip, foldl_msmWindow (by omega) hall]
    · rw [totalFrom_zero, naiveSum]
    · intro e he
      obtain ⟨e', -, hrepr⟩ := List.mem_map.mp he
      rw [← congrArg Prod.snd hrepr, length_scalarRepr]

/-- The sum over the pairs, by their index. -/
theorem naiveSum_eq_sum (points : List G) (scalars : List Scalar) :
    naiveSum points scalars = ∑ i ∈ Finset.range (min points.length scalars.length),
      (scalars.getD i 0).val • points.getD i 0 := by
  induction points generalizing scalars with
  | nil => simp [naiveSum]
  | cons p points ih =>
      cases scalars with
      | nil => simp [naiveSum]
      | cons s scalars =>
          have hcount : min (p :: points).length (s :: scalars).length =
              min points.length scalars.length + 1 := by simp
          have hsum : naiveSum (p :: points) (s :: scalars) =
              s.val • p + naiveSum points scalars := by
            rw [naiveSum, List.zip_cons_cons, List.map_cons, List.sum_cons, naiveSum]
          rw [hsum, ih, hcount, Finset.sum_range_succ', add_comm]
          simp only [List.getD_cons_succ, List.getD_cons_zero]

/-- **Pippenger's algorithm computes the sum of the multiples**, for any points and scalars in any
commutative group. What one list has more than the other is left out. -/
theorem msmPippengerG1_eq_sum (points : List G) (scalars : List Scalar) :
    msmPippengerG1 points scalars = ∑ i ∈ Finset.range (min points.length scalars.length),
      (scalars.getD i 0).val • points.getD i 0 := by
  rw [msmPippengerG1_eq_naiveSum, naiveSum_eq_sum]

end

end NilStore.Core
