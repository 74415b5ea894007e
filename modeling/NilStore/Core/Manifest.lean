import NilStore.Core.ScalarField
import NilStore.Lib.Chunks

/-!
# `NilStore.Core.Manifest`: the cells of a manifest and their openings

The manifest of a slab is one blob with an MDU root in each of its 4096 cells. `wordAt_manifestBlob`
reads a cell, and `computeManifestCommitment_ok` says that building the manifest does not fail.

`TrustedSetup` is what a setup file promises: its points belong to powers of one secret, so a blob
is committed to by the value of its polynomial at the secret, and a compressed point is read back.
From it, every cell of a blob can be opened (`exists_opening`): the quotient of a polynomial by a
linear factor is a proof for its value.
-/

set_option autoImplicit false

namespace NilStore.Core

open NilStore.Lib Polynomial

/-! ### Cells -/

/-- The cell of a root: the root modulo the order. -/
def rootCell (root : Bytes) : Bytes := scalarToBytesBe (reduceBytes32ToScalar root)

/-- Every root takes one 32-byte cell of the manifest. -/
theorem length_of_mem_cells {mduRoots : List Bytes} :
    ∀ cell ∈ mduRoots.map rootCell, cell.length = 32 := by
  intro cell hcell
  obtain ⟨root, -, rfl⟩ := List.mem_map.mp hcell
  exact length_scalarToBytesBe _

/-- The manifest is made of 4096 cells. -/
theorem manifestBlob_eq (mduRoots : List Bytes) :
    manifestBlob mduRoots = ((mduRoots.take 4096).map rootCell ++
      List.replicate (4096 - ((mduRoots.take 4096).map rootCell).length)
        (List.replicate 32 0)).flatten := by
  rw [← fill_eq_flatten length_of_mem_cells]
  rfl

/-- The cells of a manifest: the roots, as far as they go, and then zeros. -/
theorem wordAt_manifestBlob (mduRoots : List Bytes) {i : Nat} (h : i < 4096) :
    wordAt 32 i (manifestBlob mduRoots) =
      (mduRoots[i]?.map rootCell).getD (List.replicate 32 0) := by
  have hcells : ((mduRoots.take 4096).map rootCell)[i]? = mduRoots[i]?.map rootCell := by
    rw [List.getElem?_map, List.getElem?_take_of_lt h]
  -- a cell within the list has its root; behind the list, and up to 4096, there are zeros
  rw [manifestBlob_eq, wordAt_flatten, List.getD_eq_getElem?_getD]
  · cases hroot : mduRoots[i]? with
    | some root =>
        rw [hroot, Option.map_some] at hcells
        have hlt := (List.getElem?_eq_some_iff.mp hcells).1
        rw [List.getElem?_append_left hlt, hcells]
        rfl
    | none =>
        rw [hroot, Option.map_none] at hcells
        have hle := List.getElem?_eq_none_iff.mp hcells
        have hlt : i - ((mduRoots.take 4096).map rootCell).length <
            4096 - ((mduRoots.take 4096).map rootCell).length := by omega
        rw [List.getElem?_append_right hle, List.getElem?_replicate, if_pos hlt]
        rfl
  · intro word hword
    rcases List.mem_append.mp hword with hword | hword
    · exact length_of_mem_cells word hword
    · rw [List.eq_of_mem_replicate hword, List.length_replicate]

/-- The manifest is padded to one blob, however many roots it lists. -/
theorem length_manifestBlob (mduRoots : List Bytes) :
    (manifestBlob mduRoots).length = blobSize := by
  have hcells : ((mduRoots.take 4096).map rootCell).flatten.length ≤ blobSize := by
    rw [length_flatten_words length_of_mem_cells, List.length_map, List.length_take, blobSize]
    omega
  show (((mduRoots.take 4096).map rootCell).flatten ++
    List.replicate (blobSize - ((mduRoots.take 4096).map rootCell).flatten.length) 0).length = _
  rw [List.length_append, List.length_replicate]
  omega

/-- The commitment to a blob: the point at infinity for zeros, and otherwise that of the
evaluations. -/
def commitBlob (ctx : KzgContext) (blob : Bytes) : Bytes :=
  ctx.crates.g1ToCompressed
    (if blob.all (· = 0) then 0 else ctx.commitEvals (bytesToScalars blob))

/-- Building a manifest does not fail. -/
theorem computeManifestCommitment_ok (ctx : KzgContext) (mduRoots : List Bytes) :
    computeManifestCommitment ctx mduRoots =
      .ok (commitBlob ctx (manifestBlob mduRoots), manifestBlob mduRoots) := by
  rw [computeManifestCommitment, blobToCommitment,
    if_neg (not_not.mpr (length_manifestBlob mduRoots)), commitBlob]
  split <;> rfl

/-! ### Openings -/

/-- What a trusted setup promises, with its secret: a compressed point is read back, the points of
the second group belong to 1 and the secret, and the commitment to the evaluations of a polynomial
of degree below 4096 belongs to its value at the secret. -/
structure TrustedSetup (ctx : KzgContext) (secret : Scalar) : Prop where
  fromCompressed : ∀ p, ctx.crates.g1FromCompressed (ctx.crates.g1ToCompressed p) = some p
  length_toCompressed : ∀ p, (ctx.crates.g1ToCompressed p).length = 48
  powers : ∃ h rest, ctx.g2Points = h :: h * secret :: rest
  commit : ∀ p : Scalar[X], p.degree < 4096 →
    ctx.commitEvals ((List.range 4096).map fun i => p.eval (omega ^ i)) =
      ctx.g1Generator * p.eval secret

/-- The evaluations of a blob. -/
theorem bytesToScalars_getElem? (blob : Bytes) (i : Nat) (h : 32 * i < blob.length) :
    (bytesToScalars blob)[i]? = some (reduceBytes32ToScalar (wordAt 32 i blob)) := by
  rw [bytesToScalars, List.getElem?_map, getElem?_toChunks (by decide), if_pos h]
  rfl

/-- The polynomial of a blob. It takes the scalars of the blob on the domain. -/
noncomputable def blobPoly (blob : Bytes) : Scalar[X] := interpolate (bytesToScalars blob)

/-- The manifest's polynomial takes the scalar of cell `i` at the `i`-th root of unity. -/
theorem eval_blobPoly {blob : Bytes} (hlength : blob.length = blobSize) {i : Nat} (h : i < 4096) :
    (blobPoly blob).eval (omega ^ i) = reduceBytes32ToScalar (wordAt 32 i blob) := by
  have hlt : 32 * i < blob.length := by
    rw [hlength, blobSize]
    omega
  rw [blobPoly, eval_interpolate _ h, List.getD_eq_getElem?_getD, bytesToScalars_getElem? _ _ hlt,
    Option.getD_some]

/-- The evaluations of a blob are those of its polynomial. -/
theorem bytesToScalars_eq {blob : Bytes} (hlength : blob.length = blobSize) :
    bytesToScalars blob = (List.range 4096).map fun i => (blobPoly blob).eval (omega ^ i) := by
  refine List.ext_getElem? fun i => ?_
  by_cases hi : i < 4096
  · have hlt : 32 * i < blob.length := by
      rw [hlength, blobSize]
      omega
    rw [bytesToScalars_getElem? _ _ hlt, List.getElem?_map, List.getElem?_range hi, Option.map_some,
      eval_blobPoly hlength hi]
  · have hge : ¬32 * i < blob.length := by
      rw [hlength, blobSize]
      omega
    have hrange : (List.range 4096)[i]? = none := by
      rw [List.getElem?_eq_none_iff, List.length_range]
      omega
    rw [bytesToScalars, List.getElem?_map, getElem?_toChunks (by decide), if_neg hge,
      List.getElem?_map, hrange]
    rfl

/-- Bytes that are all zero are the number 0. -/
theorem ofBeBytes_zeros {b : Bytes} (h : ∀ x ∈ b, x = 0) : ofBeBytes b = 0 := by
  induction b using List.reverseRecOn with
  | nil => rfl
  | append_singleton b x ih =>
      have hx : x = 0 := h x (by simp)
      subst hx
      rw [ofBeBytes_append_singleton, ih fun y hy => h y (by simp [hy])]
      rfl

/-- The polynomial of a blob of zeros is zero. -/
theorem blobPoly_zeros {blob : Bytes} (h : ∀ x ∈ blob, x = 0) : blobPoly blob = 0 := by
  have hzero : (fun i => (bytesToScalars blob).getD i 0) = (0 : Nat → Scalar) := by
    funext i
    rw [List.getD_eq_getElem?_getD, bytesToScalars, List.getElem?_map,
      getElem?_toChunks (by decide)]
    split
    · have hword : ofBeBytes ((blob.drop (32 * i)).take 32) = 0 :=
        ofBeBytes_zeros fun x hx => h x (List.mem_of_mem_drop (List.mem_of_mem_take hx))
      rw [Option.map_some, Option.getD_some, reduceBytes32ToScalar, hword, Nat.cast_zero,
        Pi.zero_apply]
    · rfl
  rw [blobPoly, interpolate, hzero, map_zero]

section Setup

variable {ctx : KzgContext} {secret : Scalar}

/-- Every blob is committed to by the value of its polynomial at the secret. -/
theorem TrustedSetup.commitBlob_eq (hsetup : TrustedSetup ctx secret) {blob : Bytes}
    (hlength : blob.length = blobSize) :
    commitBlob ctx blob =
      ctx.crates.g1ToCompressed (ctx.g1Generator * (blobPoly blob).eval secret) := by
  have hcommit := hsetup.commit (blobPoly blob) (degree_interpolate_lt _)
  rw [← bytesToScalars_eq hlength] at hcommit
  rw [commitBlob]
  split
  · rename_i hzero
    have hpoly : blobPoly blob = 0 := blobPoly_zeros (by simpa using hzero)
    rw [hpoly, eval_zero, mul_zero]
  · rw [hcommit]

/-- A point of the setup survives being compressed and parsed again. -/
theorem TrustedSetup.parseG1_toCompressed (hsetup : TrustedSetup ctx secret) (p : Scalar) :
    parseG1 ctx.crates (ctx.crates.g1ToCompressed p) = .ok p := by
  rw [parseG1, if_neg (not_not.mpr (hsetup.length_toCompressed p)), hsetup.fromCompressed]

/-- A commitment is opened by what its secret value differs by from the claimed one, divided by how
far the secret is from the point. -/
theorem TrustedSetup.verifyProof_opening (hsetup : TrustedSetup ctx secret) {c x y q : Scalar}
    {xBytes : Bytes} (hx : parseScalar xBytes = .ok x) (hq : c - y = (secret - x) * q) :
    verifyProof ctx (ctx.crates.g1ToCompressed (ctx.g1Generator * c)) xBytes (scalarToBytesBe y)
      (ctx.crates.g1ToCompressed (ctx.g1Generator * q)) = .ok true := by
  obtain ⟨h, rest, hpowers⟩ := hsetup.powers
  have hpairing : ctx.g1Generator * q * (h * secret - h * x) =
      (ctx.g1Generator * c - ctx.g1Generator * y) * h := by
    rw [← mul_sub, ← mul_sub, hq]
    ring
  simp only [verifyProof, hpowers, hsetup.parseG1_toCompressed, hx, parseScalar_scalarToBytesBe]
  show Except.ok (ctx.g1Generator * q * (h * secret - h * x) ==
    (ctx.g1Generator * c - ctx.g1Generator * y) * h) = .ok true
  rw [hpairing, beq_self_eq_true]

/-- A proof of a quotient of the polynomial opens its commitment. -/
theorem TrustedSetup.verifyProof_quotient (hsetup : TrustedSetup ctx secret) {p q : Scalar[X]}
    {x : Scalar} {xBytes : Bytes} (hx : parseScalar xBytes = .ok x)
    (hq : p - C (p.eval x) = (X - C x) * q) :
    verifyProof ctx (ctx.crates.g1ToCompressed (ctx.g1Generator * p.eval secret)) xBytes
      (scalarToBytesBe (p.eval x)) (ctx.crates.g1ToCompressed (ctx.g1Generator * q.eval secret)) =
        .ok true := by
  have heval : p.eval secret - p.eval x = (secret - x) * q.eval secret := by
    have hsecret := congrArg (eval secret) hq
    simpa using hsecret
  exact hsetup.verifyProof_opening hx heval

/-- The remainder by a linear factor is a value. -/
theorem exists_quotient (p : Scalar[X]) (x : Scalar) : ∃ q, p - C (p.eval x) = (X - C x) * q :=
  X_sub_C_dvd_sub_C_eval

/-- Every cell of a blob can be opened. -/
theorem TrustedSetup.exists_opening (hsetup : TrustedSetup ctx secret) {blob : Bytes}
    (hlength : blob.length = blobSize) {i : Nat} (h : i < 4096) :
    ∃ proof, proof.length = 48 ∧
      verifyProof ctx (commitBlob ctx blob) (zForCell i)
        (scalarToBytesBe (reduceBytes32ToScalar (wordAt 32 i blob))) proof = .ok true := by
  have hx : parseScalar (zForCell i) = .ok (omega ^ i) :=
    parseScalar_zForCell (lt_of_lt_of_le h (by norm_num))
  obtain ⟨q, hq⟩ := exists_quotient (blobPoly blob) (omega ^ i)
  have hopens := hsetup.verifyProof_quotient hx hq
  have hcommit := hsetup.commitBlob_eq hlength
  have hvalue := eval_blobPoly hlength h
  rw [← hcommit, hvalue] at hopens
  exact ⟨_, hsetup.length_toCompressed _, hopens⟩

end Setup

end NilStore.Core
