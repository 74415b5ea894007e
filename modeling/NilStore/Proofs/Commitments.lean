import Mathlib.Algebra.Algebra.Bilinear
import NilStore.Core.PointSetup
import NilStore.Proofs.InPlaceTransform
import NilStore.Proofs.ManifestCells
import NilStore.Proofs.Openings

/-!
# `NilStore.Proofs.Commitments`: the branches commit to the same polynomial

The points of a setup are multiples of one point. So a sum of them with scalars is a multiple of it
too, by the sum of products of `NilStore.Proofs.Openings` (`naiveSum_smul`). In every branch this is
the value of the polynomial of the blob at the secret (`blobToCommitment_eq`), and the branches of
`compute_proof` both commit to the quotient of the polynomial by `X - z` (`computeProof_eq`).

In coefficient form the quotient comes out of the synthetic division, which is the division of
polynomials (`horner_quotient`).
-/

set_option autoImplicit false

namespace NilStore.Core

open NilStore.Lib Polynomial

/-! ### Scalars -/

/-- Zeros on top do not change a number. -/
theorem ofLeBytes_append_zeros (le : Bytes) (n : Nat) :
    ofLeBytes (le ++ List.replicate n 0) = ofLeBytes le := by
  induction le with
  | nil =>
      rw [List.nil_append, ofLeBytes, List.reverse_replicate]
      exact ofBeBytes_zeros fun x hx => List.eq_of_mem_replicate hx
  | cons x le ih => rw [List.cons_append, ofLeBytes_cons, ih, ofLeBytes_cons]

/-- The fast path and the fallback read the same scalar. -/
theorem chunkToScalar_eq (chunk : Bytes) : chunkToScalar chunk = reduceBytes32ToScalar chunk := by
  have hvalue : ofLeBytes chunk.reverse = ofBeBytes chunk := by rw [ofLeBytes, List.reverse_reverse]
  have hzeros := ofLeBytes_append_zeros chunk.reverse 32
  rw [hvalue] at hzeros
  rw [chunkToScalar, fromRepr, hvalue, reduceBytes32ToScalar]
  split_ifs
  · rfl
  · show fromBytesWide _ = _
    rw [fromBytesWide, hzeros]

/-- The two ways of cutting bytes into scalars, that of the prover and that of the verifier,
agree. -/
theorem chunksToScalars_eq (bytes : Bytes) : chunksToScalars bytes = bytesToScalars bytes :=
  List.map_congr_left fun chunk _ => chunkToScalar_eq chunk

/-! ### Sums of points -/

section Sums

variable {G : Type} [AddCommGroup G] [Module Scalar G]

/-- A scalar acts as its value does. -/
theorem val_smul_eq (s : Scalar) (p : G) : s.val • p = s • p := by
  rw [← Nat.cast_smul_eq_nsmul Scalar, ZMod.natCast_zmod_val]

/-- The naive sum takes its first term first. -/
theorem naiveSum_cons (p : G) (points : List G) (s : Scalar) (scalars : List Scalar) :
    naiveSum (p :: points) (s :: scalars) = s • p + naiveSum points scalars := by
  rw [naiveSum, List.zip_cons_cons, List.map_cons, List.sum_cons, val_smul_eq, naiveSum]

/-- A sum of multiples of one point is a multiple of it. -/
theorem naiveSum_smul (logs : List Scalar) (g : G) (scalars : List Scalar) :
    naiveSum (logs.map (· • g)) scalars = dot logs scalars • g := by
  induction logs generalizing scalars with
  | nil => simp [naiveSum, dot]
  | cons x logs ih =>
      cases scalars with
      | nil => simp [naiveSum, dot]
      | cons s scalars =>
          have hdot : dot (x :: logs) (s :: scalars) = x * s + dot logs scalars := by
            rw [dot, List.zipWith_cons_cons, List.sum_cons, dot]
          rw [List.map_cons, naiveSum_cons, ih, hdot, add_smul, smul_smul, mul_comm s x]

/-- The terms that are left out are zero. -/
theorem naiveSum_selectTerms (points : List G) (i : Nat) (coeffs : List Scalar) :
    naiveSum (PointSetup.selectTerms points i coeffs).1 (PointSetup.selectTerms points i coeffs).2 =
      naiveSum (points.drop i) coeffs := by
  induction coeffs generalizing i with
  | nil => simp [PointSetup.selectTerms, naiveSum]
  | cons coeff rest ih =>
      rw [PointSetup.selectTerms]
      by_cases hend : i ≥ points.length
      · rw [if_pos hend, List.drop_of_length_le hend]
        simp [naiveSum]
      · have hi : i < points.length := Nat.lt_of_not_le hend
        rw [if_neg hend, List.drop_eq_getElem_cons hi, naiveSum_cons, ← ih (i + 1)]
        by_cases hzero : coeff = 0
        · rw [if_pos hzero, hzero, zero_smul, zero_add]
        · rw [if_neg hzero]
          show naiveSum (points.getD i 0 :: _) (coeff :: _) = _
          rw [naiveSum_cons, List.getD_eq_getElem _ _ hi]

/-- Leaving out zero coefficients does not change the sum. -/
theorem commitCoefficients_eq (points : List G) (coeffs : List Scalar) :
    PointSetup.commitCoefficients points coeffs = naiveSum points coeffs := by
  have hselect := naiveSum_selectTerms points 0 coeffs
  rw [List.drop_zero] at hselect
  rw [PointSetup.commitCoefficients, ← hselect]
  generalize PointSetup.selectTerms points 0 coeffs = terms
  obtain ⟨selected, scalars⟩ := terms
  show (if selected.isEmpty then 0 else msmPippengerG1 selected scalars) = _
  cases selected with
  | nil => simp [naiveSum]
  | cons p rest => exact msmPippengerG1_eq_naiveSum _ _

end Sums

/-! ### Quotients -/

/-- The polynomial with these coefficients. -/
noncomputable def coeffsPoly (coeffs : List Scalar) : Scalar[X] := horner (coeffs.map C) X

/-- Horner's rule evaluates the polynomial of the coefficients. -/
theorem eval_coeffsPoly (coeffs : List Scalar) (x : Scalar) :
    (coeffsPoly coeffs).eval x = horner coeffs x := by
  have hmap := horner_map (evalRingHom x) (coeffs.map C) X
  have hcoeffs : (coeffs.map C).map (evalRingHom x) = coeffs := by
    rw [List.map_map]
    exact List.map_id'' (fun c => eval_C) coeffs
  rw [hcoeffs, coe_evalRingHom, eval_X] at hmap
  exact hmap.symm

/-- 4096 coefficients make a polynomial of degree below 4096. -/
theorem degree_coeffsPoly_lt {coeffs : List Scalar} (hlength : coeffs.length = 4096) :
    (coeffsPoly coeffs).degree < 4096 := by
  rw [coeffsPoly, horner_eq_sum, List.length_map, hlength]
  refine (degree_sum_le _ _).trans_lt ?_
  rw [Finset.sup_lt_iff (by exact WithBot.bot_lt_coe 4096)]
  intro i hi
  have hcoeff : (coeffs.map C).getD i 0 = (C (coeffs.getD i 0) : Scalar[X]) := by
    rw [List.getD_eq_getElem?_getD, List.getD_eq_getElem?_getD, List.getElem?_map]
    cases coeffs[i]? with
    | none => exact (map_zero C).symm
    | some c => rfl
  rw [hcoeff]
  refine (degree_C_mul_X_pow_le i _).trans_lt ?_
  exact_mod_cast Finset.mem_range.mp hi

/-- The inverse transform gives the coefficients of the polynomial of a blob. -/
theorem coeffsPoly_ifft (evals : List Scalar) :
    coeffsPoly (ifft omega 12 evals) = interpolate evals := by
  refine eq_interpolate_of_evals (degree_coeffsPoly_lt (length_ifft _ _ _)) fun i hi => ?_
  rw [eval_coeffsPoly, horner_ifft, eval_interpolate evals hi]

/-- A polynomial is its quotient times `X - z`, and its value at `z`. -/
theorem sub_C_eval_eq (p : Scalar[X]) (z : Scalar) :
    p - C (p.eval z) = quotient p z * (X - C z) := by
  have hdiv := modByMonic_add_div p (X - C z)
  rw [modByMonic_X_sub_C_eq_C_eval, ← quotient] at hdiv
  linear_combination -hdiv

/-- Synthetic division is the division by `X - z`. -/
theorem horner_quotient (coeffs : List Scalar) (z x : Scalar) :
    horner ((syntheticDivision coeffs z).drop 1) x = (quotient (coeffsPoly coeffs) z).eval x := by
  have hdivision := horner_sub (coeffs.map C) (X : Scalar[X]) (C z)
  rw [syntheticDivision_map C, ← List.map_drop, horner_map C] at hdivision
  have hvalue : C (horner coeffs z) = C ((coeffsPoly coeffs).eval z) := by rw [eval_coeffsPoly]
  have hsame : (X - C z) * coeffsPoly ((syntheticDivision coeffs z).drop 1) =
      (X - C z) * quotient (coeffsPoly coeffs) z := by
    rw [mul_comm (X - C z) (quotient _ _), ← sub_C_eval_eq, ← hvalue]
    exact hdivision.symm
  rw [← mul_left_cancel₀ (X_sub_C_ne_zero z) hsame, eval_coeffsPoly]

/-! ### Setups of a secret -/

section Setups

variable {G G₂ Gt : Type} [AddCommGroup G] [Module Scalar G] [AddCommGroup G₂] [Module Scalar G₂]
  [AddCommGroup Gt] [Module Scalar Gt] [DecidableEq Gt] {setup : PointSetup G G₂ Gt} {g : G}
    {secret : Scalar}

/-- A list of multiples of a point. -/
theorem eq_map_smul {points : List G} {n : Nat} {f : Nat → Scalar} (hlength : points.length = n)
    (h : ∀ i < n, points.getD i 0 = f i • g) : points = ((List.range n).map f).map (· • g) := by
  refine List.ext_getElem (by simp [hlength]) fun i hi _ => ?_
  have hpoint := h i (by rwa [hlength] at hi)
  rw [List.getD_eq_getElem _ _ hi] at hpoint
  rw [hpoint]
  simp

/-- The points are the multiples of one point by the powers, or by the Lagrange polynomials at the
secret. -/
theorem PointSetup.OfSecret.exists_logs (h : setup.OfSecret g secret) :
    ∃ logs : List Scalar, setup.g1Points = logs.map (· • g) ∧
      if setup.g1PointsAreMonomial then MonomialPoints logs 1 secret
        else LagrangePoints logs 1 secret := by
  have hpoints := h.points
  cases hflag : setup.g1PointsAreMonomial with
  | true =>
      rw [hflag, if_pos rfl] at hpoints
      refine ⟨_, eq_map_smul rfl hpoints.2, ?_⟩
      rw [if_pos rfl]
      have hlength : ((List.range setup.g1Points.length).map fun i => secret ^ i).length =
          setup.g1Points.length := by rw [List.length_map, List.length_range]
      refine ⟨hlength.symm ▸ hpoints.1, fun i hi => ?_⟩
      rw [getD_map_range _ (hlength ▸ hi), one_mul]
  | false =>
      rw [hflag, if_neg Bool.false_ne_true] at hpoints
      refine ⟨_, eq_map_smul hpoints.1 hpoints.2, ?_⟩
      rw [if_neg Bool.false_ne_true]
      refine ⟨by rw [List.length_map, List.length_range], fun i hi => ?_⟩
      rw [getD_map_range _ hi, one_mul]

/-- The generator that the loader takes is that point. -/
theorem PointSetup.OfSecret.g1Generator_eq (h : setup.OfSecret g secret) :
    setup.g1Generator = g := by
  obtain ⟨logs, hmap, hlogs⟩ := h.exists_logs
  rw [PointSetup.g1Generator]
  cases hflag : setup.g1PointsAreMonomial with
  | true =>
      have hpoints := h.points
      rw [hflag, if_pos rfl] at hpoints
      rw [if_pos rfl, hpoints.2 0 (Nat.lt_of_lt_of_le (by decide) hpoints.1), pow_zero, one_smul]
  | false =>
      rw [hflag, if_neg Bool.false_ne_true] at hlogs
      have hsum : (logs.map (· • g)).sum = logs.sum • g := by
        clear hmap hlogs
        induction logs with
        | nil => simp
        | cons x logs ih => rw [List.map_cons, List.sum_cons, ih, List.sum_cons, add_smul]
      rw [if_neg Bool.false_ne_true, ← List.sum_eq_foldl, hmap, hsum, hlogs.sum_eq, one_smul]

/-- On powers of the secret. -/
theorem naiveSum_coefficients (h : setup.OfSecret g secret)
    (hflag : setup.g1PointsAreMonomial = true)
    {coeffs : List Scalar} (hlength : coeffs.length ≤ 4096) :
    naiveSum setup.g1Points coeffs = horner coeffs secret • g := by
  obtain ⟨logs, hmap, hlogs⟩ := h.exists_logs
  rw [hflag, if_pos rfl] at hlogs
  rw [hmap, naiveSum_smul, hlogs.dot_eq hlength, one_mul]

/-- On Lagrange points. -/
theorem naiveSum_evaluations (h : setup.OfSecret g secret)
    (hflag : setup.g1PointsAreMonomial = false) {p : Scalar[X]} (hdegree : p.degree < 4096) :
    naiveSum setup.g1Points (evalsOf p) = p.eval secret • g := by
  obtain ⟨logs, hmap, hlogs⟩ := h.exists_logs
  rw [hflag, if_neg Bool.false_ne_true] at hlogs
  rw [hmap, naiveSum_smul, evalsOf, hlogs.dot_eq hdegree, one_mul]

/-! ### Commitments -/

/-- The bytes that `blst` gets are the words of the blob, the lowest byte of each first: it takes
scalars in little endian, and the blob has them in big endian. -/
theorem blstScalars_eq {blob : Bytes} (hblob : blob.length = blobSize) :
    (((blob.toChunks 32).take 4096).flatMap List.reverse).length = 32 * 4096 ∧ ∀ i < 4096,
      wordAt 32 i (((blob.toChunks 32).take 4096).flatMap List.reverse) =
        (wordAt 32 i blob).reverse := by
  obtain ⟨hcount, hpieces⟩ :=
    toChunks_of_length_mul (n := 32) (m := 4096) (by decide) (hblob.trans (by decide))
  have htake : (blob.toChunks 32).take 4096 = blob.toChunks 32 := List.take_of_length_le hcount.le
  -- the reversed words have the length of the words
  have hwords : ∀ word ∈ (blob.toChunks 32).map List.reverse, word.length = 32 := by
    intro word hword
    obtain ⟨piece, hpiece, rfl⟩ := List.mem_map.mp hword
    rw [List.length_reverse, hpieces piece hpiece]
  rw [htake, List.flatMap]
  constructor
  · rw [length_flatten_words hwords, List.length_map, hcount]
  -- so the word at an index is the reversed one of the blob
  · intro i hi
    have hlt : 32 * i < blob.length := by
      rw [hblob, blobSize]
      omega
    rw [wordAt_flatten hwords, List.getD_eq_getElem?_getD, List.getElem?_map,
      getElem?_toChunks (by decide), if_pos hlt]
    rfl

omit [DecidableEq Gt] in
/-- `blst` computes the sum with the scalars of the blob. -/
theorem blstMult_eq (hblst : setup.Blst) {blob : Bytes} (hblob : blob.length = blobSize)
    {points : List G} (hpoints : points.length = 4096) :
    setup.blstMult points (((blob.toChunks 32).take 4096).flatMap List.reverse) 256 =
      naiveSum points (bytesToScalars blob) := by
  obtain ⟨hlength, hwords⟩ := blstScalars_eq hblob
  have hscalars : (bytesToScalars blob).length = 4096 := by
    rw [bytesToScalars_eq hblob, List.length_map, List.length_range]
  rw [hblst.mult_eq _ _ (by rw [hpoints]; exact hlength), naiveSum_eq_sum, hscalars,
    hpoints, Nat.min_self]
  refine Finset.sum_congr rfl fun i hi => ?_
  have hi := Finset.mem_range.mp hi
  have hlt : 32 * i < blob.length := by
    rw [hblob, blobSize]
    omega
  rw [hwords i hi, ofLeBytes, List.reverse_reverse,
    List.getD_eq_getElem?_getD (l := bytesToScalars blob),
    bytesToScalars_getElem? blob i hlt, Option.getD_some, val_smul_eq, reduceBytes32ToScalar,
    Nat.cast_smul_eq_nsmul]

/-- The branch of a setup commits to the value of the polynomial of the blob at the secret. A
monomial setup takes the coefficients, by an inverse transform and Horner; a Lagrange setup takes
the evaluations, natively through `blst` and in the browser by the buckets. -/
theorem commitBranch_eq (h : setup.OfSecret g secret) (hblst : setup.Blst) (target : Target)
    {blob : Bytes} (hblob : blob.length = blobSize) :
    setup.commitBranch target blob =
      .ok (setup.toCompressed ((blobPoly blob).eval secret • g)) := by
  -- the scalars of a blob are the evaluations of its polynomial
  have hevals : bytesToScalars blob = evalsOf (blobPoly blob) := bytesToScalars_eq hblob
  have hlength : (bytesToScalars blob).length = 4096 := by
    rw [hevals, evalsOf, List.length_map, List.length_range]
  unfold PointSetup.commitBranch
  rw [chunksToScalars_eq]
  cases hflag : setup.g1PointsAreMonomial with
  -- the coefficients, committed in the powers of the secret
  | true =>
      have homega : omega ≠ 0 := isPrimitiveRoot_omega.ne_zero (by decide)
      have htransform := Transform.ifftInPlace_ok hlength homega cast_4096_ne_zero
      have hcommit := naiveSum_coefficients h hflag (length_ifft omega 12 (bytesToScalars blob)).le
      rw [horner_ifft, ← commitCoefficients_eq, ← blobPoly] at hcommit
      rw [if_pos rfl, scalarForCellIndex_one]
      refine except_bind_ok.mpr ⟨_, rfl, except_bind_ok.mpr ⟨_, htransform, ?_⟩⟩
      rw [hcommit]
      rfl
  | false =>
      have hpoints := h.points
      rw [hflag, if_neg Bool.false_ne_true] at hpoints
      have hcommit := naiveSum_evaluations h hflag (degree_interpolate_lt (bytesToScalars blob))
      rw [← blobPoly, ← hevals] at hcommit
      rw [if_neg Bool.false_ne_true]
      cases target with
      | native =>
          have hcount : blob.length / 32 = 4096 := by
            rw [hblob]
            decide
          have hmult := blstMult_eq hblst hblob hpoints.1
          show Except.ok (setup.msmBlstG1CommitmentFromBlob setup.g1PointsBlst blob) = _
          rw [PointSetup.msmBlstG1CommitmentFromBlob, hblst.points_eq, hpoints.1,
            hcount, Nat.min_self, if_neg (by decide)]
          simp only [hblst.compress_eq]
          rw [List.take_of_length_le hpoints.1.le, hmult, hcommit]
      | wasm32 =>
          show Except.ok
            (setup.toCompressed (msmPippengerG1 setup.g1Points (bytesToScalars blob))) = _
          rw [msmPippengerG1_eq_naiveSum, hcommit]

/-- The shortcut for zeros gives what the branch gives. -/
theorem commitment_eq (h : setup.OfSecret g secret) (hblst : setup.Blst) (target : Target)
    {blob : Bytes} (hblob : blob.length = blobSize) :
    setup.blobToCommitment target blob =
      .ok (setup.toCompressed ((blobPoly blob).eval secret • g)) := by
  rw [PointSetup.blobToCommitment, if_neg (not_not.mpr hblob)]
  split
  · -- The polynomial of a blob of zeros is zero.
    rename_i hzero
    have hpoly : blobPoly blob = 0 := blobPoly_zeros (by simpa using hzero)
    rw [hpoly, eval_zero, zero_smul]
    rfl
  · exact commitBranch_eq h hblst target hblob

/-- Every branch commits to the same polynomial, whose values on the domain are the words of the
blob modulo the order. The shortcut for zeros gives what the branch gives, and so does the sum over
all coefficients what the one over those that are not zero gives. -/
theorem blobToCommitment_eq (setup setup' : PointSetup G G₂ Gt) (g : G) (secret : Scalar)
    (h : setup.OfSecret g secret) (h' : setup'.OfSecret g secret) (hblst : setup.Blst)
    (hblst' : setup'.Blst)
    (hcompress : setup'.toCompressed = setup.toCompressed) (target target' : Target) (blob : Bytes)
    (hblob : blob.length = blobSize) :
    (∃ p : Scalar[X], p.degree < 4096 ∧
      (∀ i < 4096, p.eval (omega ^ i) = ((ofBeBytes (wordAt 32 i blob) : Nat) : Scalar)) ∧
      setup.blobToCommitment target blob = .ok (setup.toCompressed (p.eval secret • g)) ∧
      setup.commitBranch target blob = .ok (setup.toCompressed (p.eval secret • g)) ∧
      setup'.blobToCommitment target' blob = .ok (setup.toCompressed (p.eval secret • g))) ∧
      ∀ points : List G, ∀ coeffs : List Scalar,
        PointSetup.commitCoefficients points coeffs = msmPippengerG1 points coeffs := by
  refine ⟨⟨blobPoly blob, degree_interpolate_lt _, fun i hi => eval_blobPoly hblob hi,
    commitment_eq h hblst target hblob, commitBranch_eq h hblst target hblob, ?_⟩,
    fun points coeffs => ?_⟩
  · rw [commitment_eq h' hblst' target' hblob, hcompress]
  · rw [commitCoefficients_eq, msmPippengerG1_eq_naiveSum]

/-! ### Openings -/

/-- A proof is the value of the quotient at the secret, and the value of the polynomial is right. A
monomial setup divides the coefficients; a Lagrange setup divides the evaluations point by point.
Both give the same quotient. -/
theorem computeProof_quotient (h : setup.OfSecret g secret) {blob zBytes : Bytes} {z : Scalar}
    (hblob : blob.length = blobSize) (hz : parseScalar zBytes = .ok z) :
    setup.computeProof blob zBytes =
      .ok (setup.toCompressed ((quotient (blobPoly blob) z).eval secret • g),
      scalarToBytesBe ((blobPoly blob).eval z)) := by
  have hevals : bytesToScalars blob = evalsOf (blobPoly blob) := bytesToScalars_eq hblob
  have hlength : (bytesToScalars blob).length = 4096 := by
    rw [hevals, evalsOf, List.length_map, List.length_range]
  refine except_bind_ok.mpr ⟨(), rejectIf_eq_ok.mpr (not_not.mpr hblob),
    except_bind_ok.mpr ⟨(), rejectIf_eq_ok.mpr (not_not.mpr (length_of_parseScalar hz)),
      except_bind_ok.mpr ⟨_, hz, ?_⟩⟩⟩
  cases hflag : setup.g1PointsAreMonomial with
  | true =>
      have homega : omega ≠ 0 := isPrimitiveRoot_omega.ne_zero (by decide)
      have htransform := Transform.ifftInPlace_ok hlength homega cast_4096_ne_zero
      have hle : ((syntheticDivision (ifft omega 12 (bytesToScalars blob)) z).drop 1).length ≤
          4096 := by
        rw [List.length_drop, length_syntheticDivision, length_ifft]
        decide
      have hcommit := naiveSum_coefficients h hflag hle
      rw [horner_quotient, coeffsPoly_ifft, ← blobPoly, ← commitCoefficients_eq] at hcommit
      rw [if_pos rfl, PointSetup.openMonomial, chunksToScalars_eq, scalarForCellIndex_one]
      refine except_bind_ok.mpr ⟨_, rfl, except_bind_ok.mpr ⟨_, htransform, ?_⟩⟩
      simp only [hcommit, horner_ifft]
      rfl
  | false =>
      -- the quotient has a lower degree, so its evaluations determine it
      have hdegree : (quotient (blobPoly blob) z).degree < 4096 := by
        have hlt := natDegree_quotient (degree_interpolate_lt (bytesToScalars blob)) z
        refine degree_le_natDegree.trans_lt ?_
        exact_mod_cast hlt.trans (by decide)
      have hcommit := naiveSum_evaluations h hflag hdegree
      -- the evaluations of the quotient, also where the point is one of the roots
      have hopen := openEvaluations_ok (degree_interpolate_lt (bytesToScalars blob)) z
      rw [← blobPoly, ← hevals] at hopen
      rw [if_neg Bool.false_ne_true, PointSetup.openLagrange, chunksToScalars_eq]
      refine except_bind_ok.mpr ⟨_, hopen, ?_⟩
      show Except.ok (setup.toCompressed (msmPippengerG1 setup.g1Points (evalsOf _)), _) = _
      rw [msmPippengerG1_eq_naiveSum, hcommit]

/-- What was opened is accepted: the verifier pairs the commitment less the value with the quotient,
and this is the equation that the quotient satisfies at the secret. -/
theorem verifyProof_ok (h : setup.OfSecret g secret) (hverify : setup.Verifiable secret)
    {zBytes : Bytes}
    {z y c q : Scalar} (hz : parseScalar zBytes = .ok z) (hq : c - y = q * (secret - z)) :
    setup.verifyProof (setup.toCompressed (c • g)) zBytes (scalarToBytesBe y)
      (setup.toCompressed (q • g)) =
      .ok true := by
  obtain ⟨h2, rest, hpowers⟩ := hverify.powers
  have hparse : ∀ p, setup.parseG1 (setup.toCompressed p) = .ok p := by
    intro p
    rw [PointSetup.parseG1, if_neg (not_not.mpr (hverify.length_toCompressed p)),
      hverify.fromCompressed]
    rfl
  -- both pairings are one multiple of the pairing of the generators
  have hpairing : setup.pairing (q • g) (secret • h2 - z • h2) =
      setup.pairing (c • g - y • setup.g1Generator) h2 := by
    rw [h.g1Generator_eq, ← sub_smul, ← sub_smul, hq, map_smul, map_smul, map_smul,
      LinearMap.smul_apply, LinearMap.smul_apply, smul_smul, mul_comm q]
  unfold PointSetup.verifyProof
  simp only [hpowers]
  refine except_bind_ok.mpr ⟨_, hparse _,
    except_bind_ok.mpr ⟨_, hparse _, except_bind_ok.mpr ⟨_, hz,
    except_bind_ok.mpr ⟨_, parseScalar_scalarToBytesBe y, ?_⟩⟩⟩⟩
  show Except.ok (setup.pairing (q • g) (secret • h2 - z • h2) ==
    setup.pairing (c • g - y • setup.g1Generator) h2) = _
  rw [hpairing, beq_self_eq_true]

/-- An opening of a blob is the value of its polynomial and the commitment to the quotient, in both
branches. So two setups of one secret return the same, and the verifier accepts it. -/
theorem computeProof_eq (setup setup' : PointSetup G G₂ Gt) (g : G) (secret : Scalar)
    (h : setup.OfSecret g secret) (h' : setup'.OfSecret g secret) (hblst : setup.Blst)
    (hverify : setup.Verifiable secret) (hcompress : setup'.toCompressed = setup.toCompressed)
    (target : Target) (blob zBytes : Bytes) (hblob : blob.length = blobSize)
    (hlength : zBytes.length = 32) (hcanonical : ofBeBytes zBytes < frModulus) :
    ∃ p q : Scalar[X], p.degree < 4096 ∧
      (∀ i < 4096, p.eval (omega ^ i) = ((ofBeBytes (wordAt 32 i blob) : Nat) : Scalar)) ∧
      p - C (p.eval (ofBeBytes zBytes : Scalar)) = q * (X - C (ofBeBytes zBytes : Scalar)) ∧
      setup.computeProof blob zBytes =
        .ok (setup.toCompressed (q.eval secret • g),
          scalarToBytesBe (p.eval (ofBeBytes zBytes : Scalar))) ∧
      setup'.computeProof blob zBytes = setup.computeProof blob zBytes ∧
      ∃ commitment, setup.blobToCommitment target blob = .ok commitment ∧
        setup.verifyProof commitment zBytes (scalarToBytesBe (p.eval (ofBeBytes zBytes : Scalar)))
          (setup.toCompressed (q.eval secret • g)) = .ok true := by
  have hz : parseScalar zBytes = .ok (ofBeBytes zBytes : Scalar) := by
    rw [parseScalar, if_neg (not_not.mpr hlength), if_pos hcanonical]
  have hproof := computeProof_quotient h hblob hz
  have hproof' := computeProof_quotient h' hblob hz
  -- the polynomial of the blob, and its quotient by the point
  refine ⟨blobPoly blob, quotient (blobPoly blob) (ofBeBytes zBytes : Scalar),
    degree_interpolate_lt _, fun i hi => eval_blobPoly hblob hi, sub_C_eval_eq _ _, hproof, ?_, _,
    commitment_eq h hblst target hblob, ?_⟩
  · rw [hproof', hproof, hcompress]
  · refine verifyProof_ok h hverify hz ?_
    -- the equation of the quotient, at the secret
    have hvalue :=
      congrArg (eval secret) (sub_C_eval_eq (blobPoly blob) (ofBeBytes zBytes : Scalar))
    rwa [eval_sub, eval_C, eval_mul, eval_sub, eval_X, eval_C] at hvalue

end Setups

/-! ### The secret 1 -/

/-- A setup whose points are given by their logarithms. -/
def logSetup (g1Points : List Scalar) : PointSetup Scalar Scalar Scalar where
  g1Points := g1Points
  g1PointsBlst := g1Points
  g2Points := [1, 1]
  toCompressed := Gateway.identitySetup.crates.g1ToCompressed
  fromCompressed := Gateway.identitySetup.crates.g1FromCompressed
  blstMult := fun points scalars _ =>
    ∑ i ∈ Finset.range points.length, ofLeBytes (wordAt 32 i scalars) • points.getD i 0
  blstCompress := Gateway.identitySetup.crates.g1ToCompressed
  pairing := LinearMap.mul Scalar Scalar

/-- The sample setup meets what is asked of `blst`. -/
theorem blst_logSetup (g1Points : List Scalar) : (logSetup g1Points).Blst where
  points_eq := rfl
  mult_eq := fun _ _ _ => rfl
  compress_eq := fun _ => rfl

/-- The sample setup verifies openings for the secret 1. -/
theorem verifiable_logSetup (g1Points : List Scalar) : (logSetup g1Points).Verifiable 1 where
  fromCompressed := Gateway.trustedSetup_identitySetup.fromCompressed
  length_toCompressed := Gateway.trustedSetup_identitySetup.length_toCompressed
  powers := ⟨1, [], by rw [smul_eq_mul, one_mul]; rfl⟩

/-- On the sample setup the form is told by comparing the first two points. -/
theorem g1PointsAreMonomial_logSetup (g1Points : List Scalar) :
    (logSetup g1Points).g1PointsAreMonomial = (g1Points.getD 1 0 == g1Points.getD 0 0) := by
  show (g1Points.getD 1 0 * 1 == g1Points.getD 0 0 * 1) = _
  rw [mul_one, mul_one]

/-- The powers of 1. -/
def onePowers : List Scalar := List.replicate 4096 1

/-- The Lagrange polynomials at 1, which is the first point of the domain. -/
def oneLagrange : List Scalar := 1 :: List.replicate 4095 0

/-- The powers of the secret 1 as a setup. -/
theorem ofSecret_onePowers : (logSetup onePowers).OfSecret 1 1 where
  points := by
    have hlength : onePowers.length = 4096 := List.length_replicate
    have hpoint : ∀ i < 4096, onePowers.getD i 0 = 1 := by
      intro i hi
      rw [onePowers, List.getD_eq_getElem?_getD, List.getElem?_replicate, if_pos hi]
      rfl
    have hflag : (logSetup onePowers).g1PointsAreMonomial = true := by
      rw [g1PointsAreMonomial_logSetup, hpoint 0 (by decide), hpoint 1 (by decide),
        beq_self_eq_true]
    rw [hflag, if_pos rfl]
    refine ⟨hlength.ge, fun i hi => ?_⟩
    rw [one_pow, one_smul]
    exact hpoint i (hlength ▸ hi)

/-- The Lagrange values at the secret 1 as a setup: 1 is the first root, so the first value is 1 and
the others are 0. -/
theorem ofSecret_oneLagrange : (logSetup oneLagrange).OfSecret 1 1 where
  points := by
    have hlength : oneLagrange.length = 4096 := by
      rw [oneLagrange, List.length_cons, List.length_replicate]
    have hfirst : oneLagrange.getD 0 0 = 1 := rfl
    have hlater : ∀ i < 4095, oneLagrange.getD (i + 1) 0 = 0 := by
      intro i hi
      rw [oneLagrange, List.getD_cons_succ, List.getD_eq_getElem?_getD,
        List.getElem?_replicate, if_pos hi]
      rfl
    -- these points are not taken for powers of a secret
    have hflag : (logSetup oneLagrange).g1PointsAreMonomial = false := by
      rw [g1PointsAreMonomial_logSetup, hfirst, hlater 0 (by decide)]
      decide
    have hmem : ∀ i < 4096, i ∈ Finset.range 4096 := fun i hi => Finset.mem_range.mpr hi
    rw [hflag, if_neg Bool.false_ne_true]
    refine ⟨hlength, fun i hi => ?_⟩
    rw [smul_eq_mul, mul_one]
    conv_rhs => rw [← pow_zero omega]
    cases i with
    | zero =>
      exact hfirst.trans (Lagrange.eval_basis_self omega_pow_injOn (hmem 0 (by decide))).symm
    | succ i =>
        exact (hlater i (by omega)).trans
          (Lagrange.eval_basis_of_ne (v := fun i => omega ^ i) i.succ_ne_zero
            (hmem 0 (by decide))).symm

/-- A blob whose bytes count up. Its words are not all the same, and half of them are not
canonical. -/
def risingBlob : Bytes := (List.range blobSize).map UInt8.ofNat

/-- The sample blob is a full one. -/
theorem length_risingBlob : risingBlob.length = blobSize := by
  rw [risingBlob, List.length_map, List.length_range]

/-- The blob whose cells are all different, under both builds and both forms of the setup: one
commitment. -/
theorem blobToCommitment_eq_risingBlob : ∃ commitment,
    (logSetup onePowers).blobToCommitment .wasm32 risingBlob = .ok commitment ∧
      (logSetup oneLagrange).blobToCommitment .native risingBlob = .ok commitment := by
  obtain ⟨⟨_, -, -, hmonomial, -, hlagrange⟩, -⟩ :=
    blobToCommitment_eq (logSetup onePowers) (logSetup oneLagrange) 1 1
    ofSecret_onePowers ofSecret_oneLagrange (blst_logSetup _)
      (blst_logSetup _) rfl .wasm32 .native risingBlob
    length_risingBlob
  exact ⟨_, hmonomial, hlagrange⟩

/-- The blob is opened at 5, in both branches. -/
theorem computeProof_eq_risingBlob : ∃ proof y commitment,
    (logSetup onePowers).computeProof risingBlob (beBytes 32 5) = .ok (proof, y) ∧
      (logSetup oneLagrange).computeProof risingBlob (beBytes 32 5) = .ok (proof, y) ∧
      (logSetup onePowers).blobToCommitment .native risingBlob = .ok commitment ∧
      (logSetup onePowers).verifyProof commitment (beBytes 32 5) y proof = .ok true := by
  obtain ⟨_, _, -, -, -, hproof, hproof', commitment, hcommit, hverify⟩ :=
    computeProof_eq (logSetup onePowers)
    (logSetup oneLagrange) 1 1 ofSecret_onePowers ofSecret_oneLagrange (blst_logSetup _)
      (verifiable_logSetup _) rfl
    .native risingBlob (beBytes 32 5) length_risingBlob (length_beBytes 32 5) (by decide)
  exact ⟨_, _, commitment, hproof, hproof'.trans hproof, hcommit, hverify⟩

end NilStore.Core
