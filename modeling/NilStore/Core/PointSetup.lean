import Mathlib.Algebra.Module.LinearMap.Basic
import Mathlib.Algebra.Module.LinearMap.Defs
import NilStore.Core.Msm
import NilStore.Core.Transform

/-!
# `NilStore.Core.PointSetup`: commitments and openings with points

`blob_to_commitment`, `compute_proof` and `verify_proof` of `nil_core/src/kzg.rs`, branch by branch,
with the transforms in place (`NilStore.Core.Transform`) and the multiplication in windows
(`NilStore.Core.Msm`). The points are elements of groups on which the scalars act, and the pairing
is bilinear. The group of its values is written with a plus.

Which branch commits to a blob depends on the kind of the setup, and for Lagrange points on the
target: `blst` is not there on `wasm32`. `blst` reads the same compressed points, so its points are
of the same group.
-/

set_option autoImplicit false

namespace NilStore.Core

open NilStore.Lib

/-! ### Scalars of a blob -/

/-- `Scalar::from_repr`: little-endian bytes of a canonical scalar. -/
def fromRepr (le : Bytes) : Option Scalar :=
  if ofLeBytes le < frModulus then some (ofLeBytes le : Scalar) else none

/-- `Scalar::from_bytes_wide`: 64 little-endian bytes, modulo the order. -/
def fromBytesWide (wide : Bytes) : Scalar := (ofLeBytes wide : Scalar)

/-- The body of the loop of `bytes_to_scalars`, with the fast path and the fallback. -/
def chunkToScalar (chunk : Bytes) : Scalar :=
  let le := chunk.reverse
  match fromRepr le with
  | some s => s
  | none => fromBytesWide (le ++ List.replicate 32 0)

/-- `bytes_to_scalars`. Each 32 bytes are a scalar, with the highest byte first. -/
def chunksToScalars (bytes : Bytes) : List Scalar := (bytes.toChunks 32).map chunkToScalar

/-- The build target, of which `target_arch` asks. -/
inductive Target where
  | native
  | wasm32
deriving DecidableEq

/-! ### Setups -/

/-- `KzgContext`, with what the crates do with its points. -/
structure PointSetup (G G₂ Gt : Type) [AddCommGroup G] [Module Scalar G] [AddCommGroup G₂]
    [Module Scalar G₂] [AddCommGroup Gt] [Module Scalar Gt] where
  g1Points : List G
  g1PointsBlst : List G
  g2Points : List G₂
  /-- `G1Affine::to_compressed`. -/
  toCompressed : G → Bytes
  /-- `G1Affine::from_compressed`. -/
  fromCompressed : Bytes → Option G
  /-- `MultiPoint::mult` of `blst`. -/
  blstMult : (points : List G) → (scalars : Bytes) → (nbits : Nat) → G
  /-- `blst_p1_compress`. -/
  blstCompress : G → Bytes
  /-- `bls12_381::pairing`. -/
  pairing : G →ₗ[Scalar] G₂ →ₗ[Scalar] Gt

namespace PointSetup

section

variable {G G₂ Gt : Type} [AddCommGroup G] [Module Scalar G] [AddCommGroup G₂] [Module Scalar G₂]
  [AddCommGroup Gt] [Module Scalar Gt] [DecidableEq Gt] (setup : PointSetup G G₂ Gt)

/-- `g1_points_are_monomial`, as the loader finds it out. It compares two pairings. -/
def g1PointsAreMonomial : Bool :=
  setup.pairing (setup.g1Points.getD 1 0) (setup.g2Points.getD 0 0) ==
    setup.pairing (setup.g1Points.getD 0 0) (setup.g2Points.getD 1 0)

/-- `g1_generator`. The Lagrange polynomials have the sum 1, and so their points have the
generator. -/
def g1Generator : G :=
  if setup.g1PointsAreMonomial then setup.g1Points.getD 0 0
    else setup.g1Points.foldl (fun acc p => acc + p) 0

/-- `zero_blob_commitment`. It is the point at infinity. -/
def zeroBlobCommitment : Bytes := setup.toCompressed 0

/-! ### Commitments -/

/-- The loop over the coefficients, which leaves out the zero ones and ends where the points do. -/
def selectTerms (points : List G) (i : Nat) (coeffs : List Scalar) : List G × List Scalar :=
  match coeffs with
  | [] => ([], [])
  | coeff :: rest =>
      if i ≥ points.length then ([], [])
      else if coeff = 0 then selectTerms points (i + 1) rest
      else
        let (selected, scalars) := selectTerms points (i + 1) rest
        (points.getD i 0 :: selected, coeff :: scalars)

/-- The point of a list of coefficients. With no term left nothing is multiplied. -/
def commitCoefficients (points : List G) (coeffs : List Scalar) : G :=
  let (selected, scalars) := selectTerms points 0 coeffs
  if selected.isEmpty then 0 else msmPippengerG1 selected scalars

/-- `msm_blst_g1_commitment_from_blob`. The scalars go to `blst` as bytes, the lowest first. -/
def msmBlstG1CommitmentFromBlob (points : List G) (blobBytes : Bytes) : Bytes :=
  let scalars := blobBytes.length / 32
  let n := min points.length scalars
  if n = 0 then setup.zeroBlobCommitment
  else
    let points := points.take n
    let scalarBytes := ((blobBytes.toChunks 32).take n).flatMap List.reverse
    setup.blstCompress (setup.blstMult points scalarBytes 256)

/-- `blob_to_commitment` after its shortcut for zeros. -/
def commitBranch (target : Target) (blobBytes : Bytes) : Except KzgError Bytes :=
  if setup.g1PointsAreMonomial then do
    let omega ← scalarForCellIndex 1
    let coeffs ← Transform.ifftInPlace (chunksToScalars blobBytes) omega
    return setup.toCompressed (commitCoefficients setup.g1Points coeffs)
  else
    match target with
    | .native => .ok (setup.msmBlstG1CommitmentFromBlob setup.g1PointsBlst blobBytes)
    | .wasm32 =>
      .ok (setup.toCompressed (msmPippengerG1 setup.g1Points (chunksToScalars blobBytes)))

/-- `KzgContext::blob_to_commitment`. A blob of zeros is not computed with. -/
def blobToCommitment (target : Target) (blobBytes : Bytes) : Except KzgError Bytes :=
  if blobBytes.length ≠ blobSize then .error .invalidDataLength
  else if blobBytes.all (· = 0) then .ok setup.zeroBlobCommitment
  else setup.commitBranch target blobBytes

/-! ### Openings -/

/-- The monomial branch of `compute_proof`. -/
def openMonomial (blobBytes : Bytes) (z : Scalar) : Except KzgError (Bytes × Bytes) := do
  let omega ← scalarForCellIndex 1
  let coeffs ← Transform.ifftInPlace (chunksToScalars blobBytes) omega
  let y := horner coeffs z
  let b := syntheticDivision coeffs z
  return (setup.toCompressed (commitCoefficients setup.g1Points (b.drop 1)), scalarToBytesBe y)

/-- The Lagrange branch of `compute_proof`. It needs no coefficients. -/
def openLagrange (blobBytes : Bytes) (z : Scalar) : Except KzgError (Bytes × Bytes) := do
  let (qEvals, y) ← openEvaluations (chunksToScalars blobBytes) z
  return (setup.toCompressed (msmPippengerG1 setup.g1Points qEvals), scalarToBytesBe y)

/-- `KzgContext::compute_proof`. Both lengths are checked before the point is parsed. -/
def computeProof (blobBytes inputPointBytes : Bytes) : Except KzgError (Bytes × Bytes) := do
  rejectIf (blobBytes.length ≠ blobSize) .invalidDataLength
  rejectIf (inputPointBytes.length ≠ 32) .invalidDataLength
  let z ← parseScalar inputPointBytes
  if setup.g1PointsAreMonomial then setup.openMonomial blobBytes z
    else setup.openLagrange blobBytes z

/-- `parse_g1`. The length is checked before the point. -/
def parseG1 (bytes : Bytes) : Except KzgError G :=
  if bytes.length ≠ 48 then .error .invalidDataLength
  else orFail (setup.fromCompressed bytes) (.internal "Invalid G1")

/-- `KzgContext::verify_proof`. Two points of G2 have to be there. -/
def verifyProof (commitmentBytes inputPointBytes claimedValueBytes proofBytes : Bytes) :
    Except KzgError Bool :=
  match setup.g2Points with
  | hG2 :: sG2 :: _ => do
      let commitment ← setup.parseG1 commitmentBytes
      let proof ← setup.parseG1 proofBytes
      let z ← parseScalar inputPointBytes
      let y ← parseScalar claimedValueBytes
      let sMinZ := sG2 - z • hG2
      let cMinY := commitment - y • setup.g1Generator
      return setup.pairing proof sMinZ == setup.pairing cMinY hG2
  | _ => .error (.internal "Not enough G2 points")

end

end PointSetup

/-! ### Setups of a secret -/

section

variable {G G₂ Gt : Type} [AddCommGroup G] [Module Scalar G] [AddCommGroup G₂] [Module Scalar G₂]
  [AddCommGroup Gt] [Module Scalar Gt] [DecidableEq Gt]

/-- The G1 points belong to a secret, as the powers or as the Lagrange polynomials of the domain at
it, and the loader takes them for what they are. -/
structure PointSetup.OfSecret (setup : PointSetup G G₂ Gt) (g : G) (secret : Scalar) : Prop where
  points : if setup.g1PointsAreMonomial then
      4096 ≤ setup.g1Points.length ∧ ∀ i < setup.g1Points.length, setup.g1Points.getD i 0 =
        secret ^ i • g
    else setup.g1Points.length = 4096 ∧ ∀ i < 4096, setup.g1Points.getD i 0 =
      (Lagrange.basis (Finset.range 4096) (fun i => omega ^ i) i).eval secret • g

/-- What is assumed of `blst`: it has read the same points, it multiplies with numbers of 256 bits,
and it writes points as `bls12_381` does. -/
structure PointSetup.Blst (setup : PointSetup G G₂ Gt) : Prop where
  points_eq : setup.g1PointsBlst = setup.g1Points
  mult_eq : ∀ (points : List G) (scalars : Bytes), scalars.length = 32 * points.length →
    setup.blstMult points scalars 256 =
      ∑ i ∈ Finset.range points.length, ofLeBytes (wordAt 32 i scalars) • points.getD i 0
  compress_eq : ∀ p, setup.blstCompress p = setup.toCompressed p

/-- What the verifier is promised: compressed points are read back, and the points of G2 belong to
the secret. -/
structure PointSetup.Verifiable (setup : PointSetup G G₂ Gt) (secret : Scalar) : Prop where
  fromCompressed : ∀ p, setup.fromCompressed (setup.toCompressed p) = some p
  length_toCompressed : ∀ p, (setup.toCompressed p).length = 48
  powers : ∃ h rest, setup.g2Points = h :: secret • h :: rest

end

end NilStore.Core
