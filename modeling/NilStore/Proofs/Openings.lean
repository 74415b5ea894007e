import Mathlib.Tactic.LinearCombination
import NilStore.Core.Prover
import NilStore.Lib.Loops

/-!
# `NilStore.Proofs.Openings`: the prover opens every blob

With a consistent setup of either kind, `blob_to_commitment` commits to the value of the blob's
polynomial at the secret (`ConsistentSetup.trustedSetup`), and `compute_proof` returns the value of
that polynomial at the point and the commitment to the quotient (`ConsistentSetup.computeProof_ok`),
whether the point is in the domain or not.

The argument for the evaluation form is one fact: on the domain, a polynomial `q` of degree below
4095 has `∑ ω^i * q(ω^i) = 0` (`sum_omega_pow_mul_eval`). For the quotient of `p` by `X - z` it says
that the barycentric sums are right, and which value the quotient has at a point of the domain
itself.
-/

set_option autoImplicit false

namespace NilStore.Core

open NilStore.Lib Polynomial Finset

/-! ### The domain -/

/-- The root of unity to the power 4096 is 1. -/
theorem omega_pow_4096 : omega ^ 4096 = 1 := by
  have h := pow_orderOf_eq_one omega
  rwa [orderOf_omega] at h

/-- The root of unity is a primitive one. -/
theorem isPrimitiveRoot_omega : IsPrimitiveRoot omega (2 ^ 12) := by
  have h := IsPrimitiveRoot.orderOf omega
  rw [orderOf_omega] at h
  exact h

/-- The length of the domain is invertible in the field. -/
theorem cast_4096_ne_zero : ((2 ^ 12 : Nat) : Scalar) ≠ 0 := by
  rw [Ne, ZMod.natCast_eq_zero_iff]
  exact Nat.not_dvd_of_pos_of_lt (by decide) (by decide)

/-- No point of the domain is zero. -/
theorem omega_pow_ne_zero (i : Nat) : omega ^ i ≠ 0 :=
  pow_ne_zero i (isPrimitiveRoot_omega.ne_zero (by decide))

/-- A polynomial of degree below 4096 with these values on the domain is the one of the blob. -/
theorem eq_interpolate_of_evals {p : Scalar[X]} {evals : List Scalar} (hdegree : p.degree < 4096)
    (h : ∀ i < 4096, p.eval (omega ^ i) = evals.getD i 0) : p = interpolate evals := by
  refine Lagrange.eq_interpolate_of_eval_eq _ omega_pow_injOn ?_ fun i hi => h i (mem_range.mp hi)
  rw [card_range]
  exact hdegree

/-- The weighted sum over the domain picks the coefficient of degree 4095. -/
theorem sum_omega_pow_mul_eval {q : Scalar[X]} (h : q.natDegree < 4095) :
    ∑ i ∈ range 4096, omega ^ i * q.eval (omega ^ i) = 0 := by
  have hterm : ∀ i ∈ range 4096, omega ^ i * q.eval (omega ^ i) =
      ∑ j ∈ range 4095, q.coeff j * (omega ^ (j + 1)) ^ i := by
    intro i _
    rw [eval_eq_sum_range' h, mul_sum]
    refine sum_congr rfl fun j _ => ?_
    rw [← pow_mul, ← pow_mul, Nat.mul_comm (j + 1) i, Nat.mul_succ, pow_add omega (i * j)]
    ring
  rw [sum_congr rfl hterm, sum_comm]
  refine sum_eq_zero fun j hj => ?_
  rw [← mul_sum, sum_pow_eq_zero, mul_zero]
  · rw [← pow_mul, Nat.mul_comm, pow_mul, omega_pow_4096, one_pow]
  · have hlt : j + 1 < 2 ^ 12 := by
      have hj := mem_range.mp hj
      omega
    exact isPrimitiveRoot_omega.pow_ne_one_of_pos_of_lt (Nat.succ_ne_zero j) hlt

/-! ### Coefficients -/

/-- The transform of `kzg.rs` gives the coefficients of the blob's polynomial. -/
theorem horner_ifft (evals : List Scalar) (x : Scalar) :
    horner (ifft omega 12 evals) x = (interpolate evals).eval x := by
  have hpoly : ∑ i ∈ range 4096, C ((ifft omega 12 evals).getD i 0) * X ^ i =
      interpolate evals := by
    refine eq_interpolate_of_evals ?_ fun j hj => ?_
    · refine (degree_sum_le _ _).trans_lt ?_
      rw [Finset.sup_lt_iff (by exact WithBot.bot_lt_coe 4096)]
      intro i hi
      refine (degree_C_mul_X_pow_le i _).trans_lt ?_
      exact_mod_cast mem_range.mp hi
    · rw [eval_finsetSum]
      simp only [eval_mul, eval_C, eval_pow, eval_X]
      exact sum_ifft evals isPrimitiveRoot_omega cast_4096_ne_zero hj
  rw [horner_eq_sum, length_ifft, ← hpoly, eval_finsetSum]
  simp only [eval_mul, eval_C, eval_pow, eval_X]
  rfl

/-! ### Points -/

section Points

variable {points : List Scalar} {g secret : Scalar}

/-- On powers of the secret, coefficients are committed to by the value at the secret. -/
theorem MonomialPoints.dot_eq (h : MonomialPoints points g secret) {coeffs : List Scalar}
    (hlength : coeffs.length ≤ 4096) : dot points coeffs = g * horner coeffs secret := by
  have hle : coeffs.length ≤ points.length := hlength.trans h.1
  exact dot_powers hle fun i hi => h.2 i (hi.trans_le hle)

/-- On Lagrange points, evaluations are committed to by the value at the secret. -/
theorem LagrangePoints.dot_eq (h : LagrangePoints points g secret) {p : Scalar[X]}
    (hdegree : p.degree < 4096) :
    dot points ((List.range 4096).map fun i => p.eval (omega ^ i)) = g * p.eval secret := by
  have hcard : p.degree < #(range 4096) := by
    rw [card_range]
    exact hdegree
  have hpoly := Lagrange.eq_interpolate omega_pow_injOn hcard
  rw [Lagrange.interpolate_apply] at hpoly
  rw [dot_eq_sum _ _ 4096 h.1.ge (by simp)]
  conv_rhs => rw [hpoly, eval_finsetSum, mul_sum]
  refine sum_congr rfl fun i hi => ?_
  rw [h.2 i (mem_range.mp hi), getD_map_range _ (mem_range.mp hi), eval_mul, eval_C]
  ring

/-- The Lagrange points sum up to the generator, since the Lagrange polynomials sum up to 1. -/
theorem LagrangePoints.sum_eq (h : LagrangePoints points g secret) : points.sum = g := by
  have hones : dot points (List.replicate 4096 1) = points.sum := by
    rw [dot, ← h.1]
    clear h
    induction points with
    | nil => rfl
    | cons x xs ih =>
        rw [List.length_cons, List.replicate_succ, List.zipWith_cons_cons, List.sum_cons, ih,
          List.sum_cons, mul_one]
  have hone : (List.range 4096).map (fun i => (1 : Scalar[X]).eval (omega ^ i)) =
      List.replicate 4096 1 := by
    simp only [eval_one]
    rw [List.map_const', List.length_range]
  have hdegree : (1 : Scalar[X]).degree < 4096 := by
    rw [degree_one]
    norm_num
  rw [← hones, ← hone, h.dot_eq hdegree, eval_one, mul_one]

end Points

/-! ### Quotients -/

/-- The quotient of a polynomial by `X - z`. -/
noncomputable def quotient (p : Scalar[X]) (z : Scalar) : Scalar[X] := p /ₘ (X - C z)

/-- The quotient of a polynomial at a point, as an identity of values. -/
theorem eval_sub_eval (p : Scalar[X]) (z x : Scalar) :
    p.eval x - p.eval z = (x - z) * (quotient p z).eval x := by
  have hdiv := modByMonic_add_div p (X - C z)
  rw [modByMonic_X_sub_C_eq_C_eval] at hdiv
  have hvalue := congrArg (eval x) hdiv
  simp only [eval_add, eval_C, eval_mul, eval_sub, eval_X] at hvalue
  rw [← hvalue, quotient]
  ring

/-- The quotient has one degree less, so it can be committed to. -/
theorem natDegree_quotient {p : Scalar[X]} (hdegree : p.degree < 4096) (z : Scalar) :
    (quotient p z).natDegree < 4095 := by
  have hlt : p.natDegree < 4096 := by
    by_cases hp : p = 0
    · rw [hp, natDegree_zero]
      decide
    · exact (natDegree_lt_iff_degree_lt hp).mpr (by exact_mod_cast hdegree)
  rw [quotient, natDegree_divByMonic _ (monic_X_sub_C z), natDegree_X_sub_C]
  omega

/-- The quotient away from the point. -/
theorem eval_quotient_of_ne (p : Scalar[X]) {z x : Scalar} (hne : x ≠ z) :
    (quotient p z).eval x = (p.eval x - p.eval z) * (x - z)⁻¹ := by
  have hne : x - z ≠ 0 := sub_ne_zero_of_ne hne
  rw [eval_sub_eval, mul_comm (x - z), mul_assoc, mul_inv_cancel₀ hne, mul_one]

/-- The quotient at a point of the domain, from its values at the others. -/
theorem eval_quotient_self {p : Scalar[X]} (hdegree : p.degree < 4096) {k : Nat} (hk : k < 4096) :
    (quotient p (omega ^ k)).eval (omega ^ k) =
      -(∑ i ∈ (range 4096).erase k, omega ^ i * (quotient p (omega ^ k)).eval (omega ^ i)) *
        (omega ^ k)⁻¹ := by
  have hsum := sum_omega_pow_mul_eval (natDegree_quotient hdegree (omega ^ k))
  rw [← add_sum_erase _ _ (mem_range.mpr hk)] at hsum
  have hterm := eq_neg_of_add_eq_zero_left hsum
  rw [← hterm, mul_comm (omega ^ k), mul_assoc, mul_inv_cancel₀ (omega_pow_ne_zero k), mul_one]

section Barycentric

variable {z : Scalar}

/-- The sum of the weights. -/
def denominator (z : Scalar) : Scalar := ∑ i ∈ range 4096, omega ^ i * (z - omega ^ i)⁻¹

/-- The weighted sum of the values is the value at `z` times the sum of the weights. -/
theorem sum_weighted (hz : ∀ i < 4096, omega ^ i ≠ z) {p : Scalar[X]} (hdegree : p.degree < 4096) :
    ∑ i ∈ range 4096, p.eval (omega ^ i) * (omega ^ i * (z - omega ^ i)⁻¹) =
      p.eval z * denominator z := by
  have hterm : ∀ i ∈ range 4096, p.eval (omega ^ i) * (omega ^ i * (z - omega ^ i)⁻¹) =
      p.eval z * (omega ^ i * (z - omega ^ i)⁻¹) - omega ^ i * (quotient p z).eval (omega ^ i) := by
    intro i hi
    have hne : z - omega ^ i ≠ 0 := sub_ne_zero_of_ne (hz i (mem_range.mp hi)).symm
    have hvalue : p.eval (omega ^ i) =
        p.eval z - (z - omega ^ i) * (quotient p z).eval (omega ^ i) := by
      have h := eval_sub_eval p z (omega ^ i)
      linear_combination h
    rw [hvalue, sub_mul]
    congr 1
    rw [mul_comm (omega ^ i), ← mul_assoc, mul_right_comm (z - omega ^ i),
      mul_inv_cancel₀ hne, one_mul, mul_comm]
  rw [sum_congr rfl hterm, sum_sub_distrib, ← mul_sum, sum_omega_pow_mul_eval
    (natDegree_quotient hdegree z), sub_zero, denominator]

/-- The weights do not cancel: with the value 1 at the first point and 0 at the others, one weight
is left. -/
theorem denominator_ne_zero (hz : ∀ i < 4096, omega ^ i ≠ z) : denominator z ≠ 0 := by
  intro hzero
  have hsum := sum_weighted hz (degree_interpolate_lt [1])
  rw [hzero, mul_zero, sum_eq_single 0] at hsum
  · rw [eval_interpolate _ (by decide)] at hsum
    have hne : z - omega ^ 0 ≠ 0 := sub_ne_zero_of_ne (hz 0 (by decide)).symm
    simp only [List.getD_cons_zero, one_mul] at hsum
    exact mul_ne_zero (omega_pow_ne_zero 0) (inv_ne_zero hne) hsum
  · intro i hi hne
    obtain ⟨j, rfl⟩ := Nat.exists_eq_succ_of_ne_zero hne
    rw [eval_interpolate _ (mem_range.mp hi), List.getD_cons_succ, List.getD_nil, zero_mul]
  · intro hnot
    exact absurd (mem_range.mpr (by decide)) hnot

end Barycentric

/-! ### The prover's loops -/

/-- A nonzero scalar is inverted. -/
theorem invert_ok {s : Scalar} (h : s ≠ 0) (e : KzgError) : orFail (invert s) e = .ok s⁻¹ := by
  rw [invert, if_neg h]
  rfl

/-- The scalar of cell 1 is the root of unity. -/
theorem scalarForCellIndex_one : scalarForCellIndex 1 = .ok omega := by
  rw [scalarForCellIndex, parseScalar_zForCell (by norm_num), pow_one]

/-- On 4096 values the transform in place is the inverse transform. -/
theorem ifftInPlace_ok {values : List Scalar} (h : values.length = 4096) :
    ifftInPlace values omega = .ok (ifft omega 12 values) := by
  have homega : omega ≠ 0 := isPrimitiveRoot_omega.ne_zero (by decide)
  have hn : ((values.length : Nat) : Scalar) ≠ 0 := by
    rw [h]
    exact cast_4096_ne_zero
  exact except_bind_ok.mpr ⟨(), rejectIf_eq_ok.mpr (not_not.mpr h),
    except_bind_ok.mpr ⟨_, invert_ok homega _, except_bind_ok.mpr ⟨_, invert_ok hn _, rfl⟩⟩⟩

/-- The evaluations of a polynomial. -/
noncomputable def evalsOf (p : Scalar[X]) : List Scalar :=
  (List.range 4096).map fun i => p.eval (omega ^ i)

/-- The two sums of the barycentric loop. -/
theorem foldl_sums (f g : Nat → Scalar) (n : Nat) :
    (List.range n).foldl (fun sums i => (sums.1 + f i, sums.2 + g i)) ((0, 0) : Scalar × Scalar) =
      (∑ i ∈ range n, f i, ∑ i ∈ range n, g i) := by
  induction n with
  | zero => rfl
  | succ n ih =>
      rw [List.range_succ, List.foldl_append, ih, sum_range_succ, sum_range_succ]
      rfl

/-- Off the domain, a step of the barycentric sum adds one term to each of the two sums. -/
theorem barycentricStep_ok {z x : Scalar} (hne : x ≠ z) (sums : Scalar × Scalar) (value : Scalar) :
    barycentricStep z sums (value, x) =
      .ok (sums.1 + value * (x * (z - x)⁻¹), sums.2 + x * (z - x)⁻¹) :=
  except_bind_ok.mpr ⟨_, invert_ok (sub_ne_zero_of_ne hne.symm) _, rfl⟩

/-- What the prover makes of the two sums. -/
theorem barycentric_of_loop {evals domain : List Scalar} {z num den : Scalar}
    (hloop : (evals.zip domain).foldlM (barycentricStep z) (0, 0) = .ok (num, den))
    (hden : den ≠ 0) :
    barycentric evals domain z = .ok (num * den⁻¹) :=
  except_bind_ok.mpr ⟨_, hloop, except_bind_ok.mpr ⟨_, invert_ok hden _, rfl⟩⟩

/-- Off the domain, the barycentric formula gives the value of the polynomial. -/
theorem barycentric_ok {p : Scalar[X]} (hdegree : p.degree < 4096) {z : Scalar}
    (hz : ∀ i < 4096, omega ^ i ≠ z) :
    barycentric (evalsOf p) (domainOf omega) z = .ok (p.eval z) := by
  have hstep : ∀ sums : Scalar × Scalar, True → ∀ i ∈ List.range 4096,
      barycentricStep z sums (p.eval (omega ^ i), omega ^ i) =
        .ok (sums.1 + p.eval (omega ^ i) * (omega ^ i * (z - omega ^ i)⁻¹),
          sums.2 + omega ^ i * (z - omega ^ i)⁻¹) ∧ True := by
    intro sums _ i hi
    exact ⟨barycentricStep_ok (hz i (List.mem_range.mp hi)) sums _, trivial⟩
  have hloop := (foldlM_eq_ok (fun _ => True) (List.range 4096) hstep (0, 0) trivial).1
  rw [foldl_sums, sum_weighted hz hdegree, ← denominator] at hloop
  have hzip : ((evalsOf p).zip (domainOf omega)).foldlM (barycentricStep z) (0, 0) =
      .ok (p.eval z * denominator z, denominator z) := by
    rw [evalsOf, domainOf, List.zip_map', List.foldlM_map]
    exact hloop
  rw [barycentric_of_loop hzip (denominator_ne_zero hz), mul_assoc,
    mul_inv_cancel₀ (denominator_ne_zero hz), mul_one]

/-- The evaluations are listed in the order of the domain. -/
theorem getD_evalsOf (p : Scalar[X]) {i : Nat} (h : i < 4096) :
    (evalsOf p).getD i 0 = p.eval (omega ^ i) :=
  getD_map_range (fun i => p.eval (omega ^ i)) h

/-- The domain lists the powers of the root of unity. -/
theorem getD_domainOf {i : Nat} (h : i < 4096) : (domainOf omega).getD i 0 = omega ^ i :=
  getD_map_range (fun i => omega ^ i) h

/-- One value of the quotient, as the prover computes it. -/
theorem quotientEval_ok (p : Scalar[X]) {z : Scalar} {i : Nat} (hi : i < 4096)
    (hne : omega ^ i ≠ z) :
    quotientEval (evalsOf p) (domainOf omega) z (p.eval z) i =
      .ok ((quotient p z).eval (omega ^ i)) := by
  rw [quotientEval, getD_domainOf hi, getD_evalsOf p hi, eval_quotient_of_ne p hne]
  exact except_bind_ok.mpr ⟨_, invert_ok (sub_ne_zero_of_ne hne) _, rfl⟩

/-- The values of the quotient outside the domain. -/
theorem quotientEvals_none (p : Scalar[X]) {z : Scalar} (hz : ∀ i < 4096, omega ^ i ≠ z) :
    quotientEvals (evalsOf p) (domainOf omega) z (p.eval z) none =
      .ok (evalsOf (quotient p z)) := by
  rw [quotientEvals]
  exact mapM_ok fun i hi => quotientEval_ok p (List.mem_range.mp hi) (hz i (List.mem_range.mp hi))

/-- One entry of a table overwritten. -/
theorem set_map_range {α : Type} (f : Nat → α) (n k : Nat) (a : α) :
    ((List.range n).map f).set k a = (List.range n).map fun i => if i = k then a else f i := by
  refine List.ext_getElem? fun i => ?_
  rw [List.getElem?_set, List.length_map, List.length_range, List.getElem?_map, List.getElem?_map]
  by_cases hi : i < n
  · rw [List.getElem?_range hi]
    by_cases hki : k = i
    · subst hki
      rw [if_pos rfl, if_pos hi, Option.map_some, if_pos rfl]
    · rw [if_neg hki, Option.map_some, Option.map_some, if_neg (Ne.symm hki)]
  · have hnone : (List.range n)[i]? = none :=
      List.getElem?_eq_none (by rw [List.length_range]; exact Nat.not_lt.mp hi)
    rw [hnone]
    by_cases hki : k = i
    · subst hki
      rw [if_pos rfl, if_neg hi]
      rfl
    · rw [if_neg hki]
      rfl

/-- The values of the quotient at a point of the domain. The division is made at the other points,
and the value at the point itself is a sum over them. -/
theorem quotientEvals_some {p : Scalar[X]} (hdegree : p.degree < 4096) {k : Nat} (hk : k < 4096) :
    quotientEvals (evalsOf p) (domainOf omega) (omega ^ k) (p.eval (omega ^ k)) (some k) =
      .ok (evalsOf (quotient p (omega ^ k))) := by
  let value : Nat → Scalar := fun i =>
    if i = k then 0 else (quotient p (omega ^ k)).eval (omega ^ i)
  have hothers : (List.range 4096).mapM (fun i => if i = k then (pure 0 : Except KzgError Scalar)
      else quotientEval (evalsOf p) (domainOf omega) (omega ^ k) (p.eval (omega ^ k)) i) =
        .ok ((List.range 4096).map value) := by
    refine mapM_ok fun i hi => ?_
    by_cases hik : i = k
    · simp only [value, if_pos hik]
      rfl
    · have hne : omega ^ i ≠ omega ^ k := fun heq =>
        hik (omega_pow_injOn (mem_coe.mpr (mem_range.mpr (List.mem_range.mp hi)))
          (mem_coe.mpr (mem_range.mpr hk)) heq)
      simp only [value, if_neg hik]
      exact quotientEval_ok p (List.mem_range.mp hi) hne
  -- The entry at the point is still zero, so the sum is that over the other points.
  have hsum : dot ((List.range 4096).map value) (domainOf omega) =
      ∑ i ∈ (range 4096).erase k, omega ^ i * (quotient p (omega ^ k)).eval (omega ^ i) := by
    rw [dot_eq_sum _ _ 4096 (by simp) (by simp [domainOf]),
      ← add_sum_erase _ _ (mem_range.mpr hk), getD_map_range value hk]
    simp only [value, if_true, zero_mul, zero_add]
    refine sum_congr rfl fun i hi => ?_
    have hlt := mem_range.mp (mem_of_mem_erase hi)
    rw [getD_map_range _ hlt, getD_domainOf hlt, if_neg (ne_of_mem_erase hi), mul_comm]
  -- the last step writes the value at the point
  have hset : ((List.range 4096).map value).set k ((quotient p (omega ^ k)).eval (omega ^ k)) =
      evalsOf (quotient p (omega ^ k)) := by
    rw [set_map_range]
    refine List.map_congr_left fun i _ => ?_
    by_cases hik : i = k
    · rw [if_pos hik, hik]
    · simp only [value, if_neg hik]
  rw [← hset, eval_quotient_self hdegree hk, ← hsum]
  exact except_bind_ok.mpr ⟨_, hothers,
    except_bind_ok.mpr ⟨_, invert_ok (omega_pow_ne_zero k) _, rfl⟩⟩

section Setup

variable {setup : Setup} {secret : Scalar}

/-- The generator that the loader finds is that of the points. -/
theorem ConsistentSetup.points_generator (h : ConsistentSetup setup secret) :
    if setup.g1PointsAreMonomial then MonomialPoints setup.g1Points setup.g1Generator secret
    else LagrangePoints setup.g1Points setup.g1Generator secret := by
  obtain ⟨g, hpoints⟩ := h.points
  rw [Setup.g1Generator]
  cases hflag : setup.g1PointsAreMonomial with
  | true =>
      rw [hflag, if_pos rfl] at hpoints
      have hfirst := hpoints.2 0 ((by decide : 0 < 4096).trans_le hpoints.1)
      rw [pow_zero, mul_one] at hfirst
      rw [if_pos rfl, if_pos rfl, hfirst]
      exact hpoints
  | false =>
      rw [hflag, if_neg Bool.false_ne_true] at hpoints
      rw [if_neg Bool.false_ne_true, if_neg Bool.false_ne_true, hpoints.sum_eq]
      exact hpoints

/-- A consistent setup keeps what the verifier is promised. -/
theorem ConsistentSetup.trustedSetup (h : ConsistentSetup setup secret) :
    TrustedSetup setup.ctx secret where
  fromCompressed := h.fromCompressed
  length_toCompressed := h.length_toCompressed
  powers := h.powers
  commit := by
    intro p hdegree
    have hpoints := h.points_generator
    show setup.commitEvals _ = setup.g1Generator * p.eval secret
    rw [Setup.commitEvals]
    cases hflag : setup.g1PointsAreMonomial with
    | true =>
        rw [hflag, if_pos rfl] at hpoints
        have hpoly : p = interpolate ((List.range 4096).map fun i => p.eval (omega ^ i)) :=
          eq_interpolate_of_evals hdegree fun i hi =>
            (getD_map_range (fun i => p.eval (omega ^ i)) hi).symm
        rw [if_pos rfl, hpoints.dot_eq (length_ifft _ _ _).le, horner_ifft, ← hpoly]
    | false =>
        rw [hflag, if_neg Bool.false_ne_true] at hpoints
        rw [if_neg Bool.false_ne_true, hpoints.dot_eq hdegree]

/-- Only 32 bytes are parsed as a scalar. -/
theorem length_of_parseScalar {bytes : Bytes} {s : Scalar} (h : parseScalar bytes = .ok s) :
    bytes.length = 32 := by
  by_contra hne
  rw [parseScalar, if_pos hne] at h
  cases h

/-- Where the point is in the domain, if it is there. -/
theorem findIdx?_domainOf (z : Scalar) :
    (∃ k < 4096, omega ^ k = z ∧ (domainOf omega).findIdx? (· = z) = some k) ∨
      (∀ i < 4096, omega ^ i ≠ z) ∧ (domainOf omega).findIdx? (· = z) = none := by
  cases hindex : (domainOf omega).findIdx? (· = z) with
  | none =>
      refine Or.inr ⟨fun i hi heq => ?_, rfl⟩
      have hmem : omega ^ i ∈ domainOf omega := List.mem_map_of_mem (List.mem_range.mpr hi)
      have hno := List.findIdx?_eq_none_iff.mp hindex _ hmem
      rw [heq] at hno
      simp at hno
  | some k =>
      obtain ⟨hk, heq, -⟩ := List.findIdx?_eq_some_iff_getElem.mp hindex
      have hlt : k < 4096 := by
        rwa [domainOf, List.length_map, List.length_range] at hk
      have hz : (domainOf omega).getD k 0 = z := by
        rw [List.getD_eq_getElem _ 0 hk]
        simpa using heq
      rw [getD_domainOf hlt] at hz
      exact Or.inl ⟨k, hlt, hz, rfl⟩

/-- The value and the quotient in coefficient form. -/
theorem openCoefficients_ok {values : List Scalar} (h : values.length = 4096) (z : Scalar) :
    openCoefficients values z =
      .ok ((syntheticDivision (ifft omega 12 values) z).drop 1, horner (ifft omega 12 values) z) :=
  except_bind_ok.mpr ⟨_, scalarForCellIndex_one, except_bind_ok.mpr ⟨_, ifftInPlace_ok h, rfl⟩⟩

/-- The value and the quotient in evaluation form, from those of the loops. -/
theorem openEvaluations_of_loops {evals qEvals : List Scalar} {z y : Scalar}
    (hy : evaluate evals (domainOf omega) z ((domainOf omega).findIdx? (· = z)) = .ok y)
    (hq : quotientEvals evals (domainOf omega) z y ((domainOf omega).findIdx? (· = z)) =
      .ok qEvals) :
    openEvaluations evals z = .ok (qEvals, y) :=
  except_bind_ok.mpr ⟨_, scalarForCellIndex_one,
    except_bind_ok.mpr ⟨_, hy, except_bind_ok.mpr ⟨_, hq, rfl⟩⟩⟩

/-- The value and the quotient in evaluation form. -/
theorem openEvaluations_ok {p : Scalar[X]} (hdegree : p.degree < 4096) (z : Scalar) :
    openEvaluations (evalsOf p) z = .ok (evalsOf (quotient p z), p.eval z) := by
  rcases findIdx?_domainOf z with ⟨k, hk, rfl, hindex⟩ | ⟨hz, hindex⟩
  · refine openEvaluations_of_loops ?_ ?_
    · rw [hindex, evaluate, getD_evalsOf p hk]
    · rw [hindex]
      exact quotientEvals_some hdegree hk
  · refine openEvaluations_of_loops ?_ ?_
    · rw [hindex]
      exact barycentric_ok hdegree hz
    · rw [hindex]
      exact quotientEvals_none p hz

/-- `compute_proof` from its two halves. -/
theorem computeProof_of_open {blob zBytes : Bytes} {z y : Scalar} {q : List Scalar}
    (hblob : blob.length = blobSize) (hz : parseScalar zBytes = .ok z)
    (hopen : setup.openAt (bytesToScalars blob) z = .ok (q, y)) :
    setup.computeProof blob zBytes =
      .ok (setup.crates.g1ToCompressed (dot setup.g1Points q), scalarToBytesBe y) :=
  except_bind_ok.mpr ⟨(), rejectIf_eq_ok.mpr (not_not.mpr hblob),
    except_bind_ok.mpr ⟨(), rejectIf_eq_ok.mpr (not_not.mpr (length_of_parseScalar hz)),
      except_bind_ok.mpr ⟨_, hz, except_bind_ok.mpr ⟨_, hopen, rfl⟩⟩⟩⟩

/-- The prover opens every blob at every point: it gives the value of the polynomial, and the
commitment to what the quotient is at the secret. Both kinds of setup come to the same quotient. -/
theorem ConsistentSetup.computeProof_ok (h : ConsistentSetup setup secret) {blob zBytes : Bytes}
    {z : Scalar} (hblob : blob.length = blobSize) (hz : parseScalar zBytes = .ok z) :
    ∃ q, setup.computeProof blob zBytes =
        .ok (setup.crates.g1ToCompressed (setup.g1Generator * q),
          scalarToBytesBe ((blobPoly blob).eval z)) ∧
      (blobPoly blob).eval secret - (blobPoly blob).eval z = (secret - z) * q := by
  have hpoints := h.points_generator
  have hevals : bytesToScalars blob = evalsOf (blobPoly blob) := bytesToScalars_eq hblob
  have hlength : (bytesToScalars blob).length = 4096 := by
    rw [hevals, evalsOf, List.length_map, List.length_range]
  cases hflag : setup.g1PointsAreMonomial with
  -- a monomial setup divides the coefficients
  | true =>
      rw [hflag, if_pos rfl] at hpoints
      have hvalue : ∀ x, horner (ifft omega 12 (bytesToScalars blob)) x = (blobPoly blob).eval x :=
        horner_ifft _
      have hquotient := horner_sub (ifft omega 12 (bytesToScalars blob)) secret z
      rw [hvalue, hvalue] at hquotient
      -- the quotient has one coefficient less, so the points suffice
      have hle : ((syntheticDivision (ifft omega 12 (bytesToScalars blob)) z).drop 1).length ≤
          4096 := by
        rw [List.length_drop, length_syntheticDivision, length_ifft]
        decide
      refine ⟨_, ?_, hquotient⟩
      rw [← hpoints.dot_eq hle, ← hvalue]
      refine computeProof_of_open hblob hz ?_
      rw [Setup.openAt, hflag, if_pos rfl, openCoefficients_ok hlength]
  | false =>
      rw [hflag, if_neg Bool.false_ne_true] at hpoints
      have hdegree : (quotient (blobPoly blob) z).degree < 4096 := by
        have hlt := natDegree_quotient (degree_interpolate_lt (bytesToScalars blob)) z
        refine degree_le_natDegree.trans_lt ?_
        exact_mod_cast hlt.trans (by decide)
      refine ⟨(quotient (blobPoly blob) z).eval secret, ?_, eval_sub_eval _ _ _⟩
      rw [← hpoints.dot_eq hdegree]
      refine computeProof_of_open hblob hz ?_
      rw [Setup.openAt, hflag, if_neg Bool.false_ne_true, hevals]
      exact openEvaluations_ok (degree_interpolate_lt _) z

end Setup

end NilStore.Core
