import NilStore.Core.Manifest
import NilStore.Lib.Fft
import NilStore.Lib.Horner
import NilStore.Lib.Tx

/-!
# `NilStore.Core.Prover`: the setup and the openings of `nil_core/src/kzg.rs`

A loaded setup file holds points of the two groups. The points of G1 are either the powers of the
secret or, for the files of the EIP-4844 ceremony, the Lagrange polynomials of the domain at the
secret, and the loader finds out which with two pairings. `compute_proof` opens a blob: on powers in
coefficient form, by the inverse transform and synthetic division, and on Lagrange points in
evaluation form, by the barycentric formula, where a point of the domain is a case of its own.

The multi-scalar multiplications, in windows or by `blst`, are the sum of products `dot`. That they
skip zero coefficients does not show in it.
-/

set_option autoImplicit false

namespace NilStore.Core

open NilStore.Lib

/-- `KzgContext`, as `load_from_reader` builds it. A point is given by its scalar here. -/
structure Setup where
  crates : Crates
  g1Points : List Scalar
  g2Points : List Scalar

/-- `g1_points_are_monomial`: the second point is the first one times the secret. -/
def Setup.g1PointsAreMonomial (setup : Setup) : Bool :=
  setup.g1Points.getD 1 0 * setup.g2Points.getD 0 0 ==
    setup.g1Points.getD 0 0 * setup.g2Points.getD 1 0

/-- `g1_generator`: the first of the powers, and otherwise the commitment to the blob of ones. -/
def Setup.g1Generator (setup : Setup) : Scalar :=
  if setup.g1PointsAreMonomial then setup.g1Points.getD 0 0 else setup.g1Points.sum

/-- The point of `blob_to_commitment`. -/
def Setup.commitEvals (setup : Setup) (evals : List Scalar) : Scalar :=
  if setup.g1PointsAreMonomial then dot setup.g1Points (ifft omega 12 evals)
  else dot setup.g1Points evals

/-- What the verifier uses of the setup. -/
def Setup.ctx (setup : Setup) : KzgContext where
  crates := setup.crates
  commitEvals := setup.commitEvals
  g2Points := setup.g2Points
  g1Generator := setup.g1Generator

/-- `Scalar::invert`. Zero has no inverse. -/
def invert (s : Scalar) : Option Scalar := if s = 0 then none else some s⁻¹

/-- The points of the domain, as the prover lists them. They are the powers of a root of unity. -/
def domainOf (omega : Scalar) : List Scalar := (List.range 4096).map fun i => omega ^ i

/-- `scalar_for_cell_index`. -/
def scalarForCellIndex (idx : Nat) : Except KzgError Scalar := parseScalar (zForCell idx)

/-- `ifft_in_place`. It takes the 4096 scalars of a blob, and no other number. -/
def ifftInPlace (values : List Scalar) (omega : Scalar) : Except KzgError (List Scalar) := do
  rejectIf (values.length ≠ 4096) .invalidDataLength
  let _ ← orFail (invert omega) (.internal "omega is not invertible")
  let _ ← orFail (invert ((values.length : Nat) : Scalar)) (.internal "n is not invertible")
  return ifft omega 12 values

/-- The loop of the barycentric interpolation over the evaluations and the domain. It sums up the
numerator and the denominator. -/
def barycentricStep (z : Scalar) (sums : Scalar × Scalar) (term : Scalar × Scalar) :
    Except KzgError (Scalar × Scalar) := do
  let inv ← orFail (invert (z - term.2)) (.internal "z unexpectedly equals a domain point")
  let t := term.2 * inv
  return (sums.1 + term.1 * t, sums.2 + t)

/-- The value at a point outside the domain. -/
def barycentric (evals domain : List Scalar) (z : Scalar) : Except KzgError Scalar := do
  let (num, den) ← (evals.zip domain).foldlM (barycentricStep z) (0, 0)
  let denInv ← orFail (invert den) (.internal "barycentric denominator is not invertible")
  return num * denInv

/-- The quotient at one point of the domain. -/
def quotientEval (evals domain : List Scalar) (z y : Scalar) (i : Nat) :
    Except KzgError Scalar := do
  let inv ← orFail (invert (domain.getD i 0 - z))
    (.internal "unexpected zero denominator in q_evals")
  return (evals.getD i 0 - y) * inv

/-- The quotient on the domain. At `z` itself, its value is the one for which the coefficient of
degree 4095 is zero. -/
def quotientEvals (evals domain : List Scalar) (z y : Scalar) :
    Option Nat → Except KzgError (List Scalar)
  | none => (List.range 4096).mapM (quotientEval evals domain z y)
  | some k => do
      let others ← (List.range 4096).mapM fun i =>
        if i = k then pure 0 else quotientEval evals domain z y i
      let invZ ← orFail (invert z) (.internal "domain point must be invertible")
      return others.set k (-dot others domain * invZ)

/-- The value of the blob at a point, which is the evaluation itself at a point of the domain. -/
def evaluate (evals domain : List Scalar) (z : Scalar) : Option Nat → Except KzgError Scalar
  | some k => .ok (evals.getD k 0)
  | none => barycentric evals domain z

/-- `compute_proof` on powers of the secret: the quotient's coefficients and the value. -/
def openCoefficients (values : List Scalar) (z : Scalar) :
    Except KzgError (List Scalar × Scalar) := do
  let omega ← scalarForCellIndex 1
  let coeffs ← ifftInPlace values omega
  return ((syntheticDivision coeffs z).drop 1, horner coeffs z)

/-- `compute_proof` on Lagrange points: the quotient's evaluations and the value. -/
def openEvaluations (evals : List Scalar) (z : Scalar) :
    Except KzgError (List Scalar × Scalar) := do
  let omega ← scalarForCellIndex 1
  let domain := domainOf omega
  let zDomainIndex := domain.findIdx? (· = z)
  let y ← evaluate evals domain z zDomainIndex
  let qEvals ← quotientEvals evals domain z y zDomainIndex
  return (qEvals, y)

/-- The two ways to open. Which of them it is depends on the points of the setup only. -/
def Setup.openAt (setup : Setup) (values : List Scalar) (z : Scalar) :
    Except KzgError (List Scalar × Scalar) :=
  if setup.g1PointsAreMonomial then openCoefficients values z else openEvaluations values z

/-- `KzgContext::compute_proof`. Both lengths are checked before the point is parsed. -/
def Setup.computeProof (setup : Setup) (blobBytes inputPointBytes : Bytes) :
    Except KzgError (Bytes × Bytes) := do
  rejectIf (blobBytes.length ≠ blobSize) .invalidDataLength
  rejectIf (inputPointBytes.length ≠ 32) .invalidDataLength
  let z ← parseScalar inputPointBytes
  let (quotient, y) ← setup.openAt (bytesToScalars blobBytes) z
  return (setup.crates.g1ToCompressed (dot setup.g1Points quotient), scalarToBytesBe y)

/-! ### Consistent setups -/

/-- The points of G1 are multiples of the powers of the secret, enough of them for a blob. -/
def MonomialPoints (points : List Scalar) (g secret : Scalar) : Prop :=
  4096 ≤ points.length ∧ ∀ i < points.length, points.getD i 0 = g * secret ^ i

/-- The points of G1 are multiples of the Lagrange polynomials of the domain at the secret. -/
def LagrangePoints (points : List Scalar) (g secret : Scalar) : Prop :=
  points.length = 4096 ∧ ∀ i < 4096, points.getD i 0 =
    g * (Lagrange.basis (Finset.range 4096) (fun i => omega ^ i) i).eval secret

/-- A consistent setup: compressed points are read back, the points of G2 belong to 1 and the
secret, and those of G1 are of the kind that the loader takes them for. -/
structure ConsistentSetup (setup : Setup) (secret : Scalar) : Prop where
  fromCompressed : ∀ p, setup.crates.g1FromCompressed (setup.crates.g1ToCompressed p) = some p
  length_toCompressed : ∀ p, (setup.crates.g1ToCompressed p).length = 48
  powers : ∃ h rest, setup.g2Points = h :: h * secret :: rest
  points : ∃ g, if setup.g1PointsAreMonomial then MonomialPoints setup.g1Points g secret
    else LagrangePoints setup.g1Points g secret

end NilStore.Core
