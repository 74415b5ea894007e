import Mathlib.Data.ZMod.Basic
import NilStore.Lib.Bytes
import NilStore.Lib.PromotedMerkle

/-!
# `NilStore.Core.Kzg`: the verifier of `nil_core/src/kzg.rs`

Openings of KZG commitments and Merkle paths of blob commitments, as the Rust core checks
them. The crates behind it are fields of `Crates`: `bls12_381` reads and writes points,
`blake2` hashes, `rs_merkle` builds trees and checks paths. A point of the prime-order groups
is given by its discrete logarithm, a `Scalar`, so that the pairing multiplies; a byte string
that is no point has none. The transforms of `blob_to_commitment` that turn the 4096
evaluations of a blob into one point are `commitEvals`.

`rs_merkle`'s `MerkleProof::verify` may panic, which is `none`.
-/

set_option autoImplicit false

namespace NilStore.Core

open NilStore.Lib

/-- `utils::FR_MODULUS_HEX`. It is the order of the groups, and a prime. -/
def frModulus : Nat := 0x73eda753299d7d483339d80809a1d80553bda402fffe5bfeffffffff00000001

/-- `bls12_381::Scalar`. A scalar is a number modulo the order. -/
abbrev Scalar := ZMod frModulus

/-- `BLOB_SIZE`. A blob has 4096 scalars of 32 bytes. -/
def blobSize : Nat := 131072

/-- `KzgError`. The texts are those of the source. -/
inductive KzgError where
  | internal (text : String)
  | invalidDataLength
  | invalidMduSize
  | merkleTreeError (text : String)
deriving DecidableEq

/-- The crates that the core calls. -/
structure Crates where
  /-- `G1Affine::from_compressed` on 48 bytes. -/
  g1FromCompressed : Bytes → Option Scalar
  /-- `G1Affine::to_compressed`. -/
  g1ToCompressed : Scalar → Bytes
  /-- `Blake2s256::digest`. -/
  blake2s256 : Bytes → Bytes
  /-- `MerkleTree::from_leaves(leaves).root()`. -/
  merkleRoot : List Bytes → Option Bytes
  /-- `MerkleProof::new(path).verify(root, [index], [leaf], num_leaves)`. -/
  merkleVerify : (path : List Bytes) → (root : Bytes) → (index : Nat) → (leaf : Bytes) →
    (numLeaves : Nat) → Option Bool

/-- `KzgContext`: the loaded trusted setup. -/
structure KzgContext where
  crates : Crates
  /-- The multi-scalar multiplication of the evaluations with the setup's G1 points. -/
  commitEvals : List Scalar → Scalar
  g2Points : List Scalar
  g1Generator : Scalar

/-! ### Bytes and scalars -/

/-- `parse_scalar`: 32 big-endian bytes of a canonical scalar. -/
def parseScalar (bytes : Bytes) : Except KzgError Scalar :=
  if bytes.length ≠ 32 then .error .invalidDataLength
  else if ofBeBytes bytes < frModulus then .ok (ofBeBytes bytes : Scalar)
  else .error (.internal "Invalid scalar")

/-- `reduce_bytes32_to_scalar`: any 32 bytes, modulo the order. -/
def reduceBytes32ToScalar (bytes : Bytes) : Scalar := (ofBeBytes bytes : Scalar)

/-- `scalar_to_bytes_be`. The highest byte comes first. -/
def scalarToBytesBe (s : Scalar) : Bytes := beBytes 32 s.val

/-- `parse_g1`. The length is checked before the point. -/
def parseG1 (crates : Crates) (bytes : Bytes) : Except KzgError Scalar :=
  if bytes.length ≠ 48 then .error .invalidDataLength
  else
    match crates.g1FromCompressed bytes with
    | none => .error (.internal "Invalid G1")
    | some p => .ok p

/-- `bytes_to_scalars`: each 32-byte chunk of a blob, reduced. The fast path for canonical
chunks and the fallback give the same scalar. -/
def bytesToScalars (bytes : Bytes) : List Scalar :=
  (bytes.toChunks 32).map reduceBytes32ToScalar

/-- `BigUint::modpow` by repeated squaring; the fuel bounds the bits of the exponent. -/
def modpow (modulus : Nat) : (fuel base exponent : Nat) → Nat
  | 0, _, _ => 1 % modulus
  | fuel + 1, base, exponent =>
      if exponent = 0 then 1 % modulus
      else
        let half := modpow modulus fuel (base * base % modulus) (exponent / 2)
        if exponent % 2 = 1 then base * half % modulus else half

/-- `utils::get_root_of_unity_4096`. It is a power of the generator 7. -/
def getRootOfUnity4096 : Nat := modpow frModulus 256 7 ((frModulus - 1) / 4096)

/-- `utils::z_for_cell`. The cells of a blob are its values at these points. -/
def zForCell (idx : Nat) : Bytes := beBytes 32 (modpow frModulus 256 getRootOfUnity4096 idx)

/-! ### Commitments and openings -/

/-- `KzgContext::blob_to_commitment`. A blob of zeros is not computed with. -/
def blobToCommitment (ctx : KzgContext) (blob : Bytes) : Except KzgError Bytes :=
  if blob.length ≠ blobSize then .error .invalidDataLength
  else if blob.all (· = 0) then .ok (ctx.crates.g1ToCompressed 0)
  else .ok (ctx.crates.g1ToCompressed (ctx.commitEvals (bytesToScalars blob)))

/-- `KzgContext::verify_proof`. The pairing is the product of scalars here, since a point is known
by its scalar. -/
def verifyProof (ctx : KzgContext) (commitmentBytes inputPointBytes claimedValueBytes
    proofBytes : Bytes) : Except KzgError Bool := do
  match ctx.g2Points with
  | hG2 :: sG2 :: _ =>
      let commitment ← parseG1 ctx.crates commitmentBytes
      let proof ← parseG1 ctx.crates proofBytes
      let z ← parseScalar inputPointBytes
      let y ← parseScalar claimedValueBytes
      let sMinZ := sG2 - hG2 * z
      let cMinY := commitment - ctx.g1Generator * y
      return proof * sMinZ == cMinY * hG2
  | _ => throw (.internal "Not enough G2 points")

/-- The blob of `compute_manifest_commitment`: one reduced root per cell, then zeros. Roots
past the 4096th are dropped. -/
def manifestBlob (mduRoots : List Bytes) : Bytes :=
  let cells := (mduRoots.take 4096).flatMap fun root => scalarToBytesBe (reduceBytes32ToScalar root)
  cells ++ List.replicate (blobSize - cells.length) 0

/-- `KzgContext::compute_manifest_commitment`. The blob is returned with the commitment. -/
def computeManifestCommitment (ctx : KzgContext) (mduRoots : List Bytes) :
    Except KzgError (Bytes × Bytes) := do
  let commitment ← blobToCommitment ctx (manifestBlob mduRoots)
  return (commitment, manifestBlob mduRoots)

/-- `KzgContext::verify_manifest_inclusion`. An index past the last cell is no error, but is
refused. -/
def verifyManifestInclusion (ctx : KzgContext) (manifestCommitmentBytes mduRootBytes : Bytes)
    (mduIndex : Nat) (proofBytes : Bytes) : Except KzgError Bool :=
  if mduIndex ≥ 4096 then .ok false
  else if mduRootBytes.length ≠ 32 ∨ proofBytes.length ≠ 48 then .error .invalidDataLength
  else
    verifyProof ctx manifestCommitmentBytes (zForCell mduIndex)
      (scalarToBytesBe (reduceBytes32ToScalar mduRootBytes)) proofBytes

/-! ### Merkle paths -/

/-- `KzgContext::create_mdu_merkle_root`. The leaves are the hashes of the commitments. -/
def createMduMerkleRoot (ctx : KzgContext) (commitments : List Bytes) : Except KzgError Bytes :=
  match ctx.crates.merkleRoot (commitments.map ctx.crates.blake2s256) with
  | some root => .ok root
  | none => .error (.merkleTreeError "Root not found")

/-- `KzgContext::verify_mdu_merkle_proof`; `none` when the check of the path panics. A tail
of the path shorter than 32 bytes is dropped. -/
def verifyMduMerkleProof (ctx : KzgContext) (mduMerkleRoot challengedKzgCommitment : Bytes)
    (challengedKzgCommitmentIndex : Nat) (merkleProofBytes : Bytes) (numLeaves : Nat) :
    Option (Except KzgError Bool) :=
  if mduMerkleRoot.length ≠ 32 ∨ challengedKzgCommitment.length ≠ 48 then
    some (.error .invalidDataLength)
  else
    let leafHash := ctx.crates.blake2s256 challengedKzgCommitment
    let proofHashes := (merkleProofBytes.toChunks 32).filter (·.length = 32)
    (ctx.crates.merkleVerify proofHashes mduMerkleRoot challengedKzgCommitmentIndex leafHash
      numLeaves).map .ok

/-! ### What the crates promise -/

/-- The parent of two nodes of an `rs_merkle` tree over this hash. -/
def concatAndHash (crates : Crates) (left right : Bytes) : Bytes :=
  crates.blake2s256 (left ++ right)

/-- The documented behaviour of `rs_merkle`. A lonely last node is promoted. A path is
checked when the index is in range and each layer finds the sibling it calls for; with fewer
siblings the check may panic, so nothing is said about it. -/
structure RsMerkle (crates : Crates) : Prop where
  merkleRoot_eq : ∀ leaves,
    crates.merkleRoot leaves = PromotedMerkle.root (concatAndHash crates) leaves
  merkleVerify_eq : ∀ path root index leaf numLeaves, index < numLeaves →
    PromotedMerkle.pathLength numLeaves index ≤ path.length →
    crates.merkleVerify path root index leaf numLeaves =
      some (PromotedMerkle.foldPath (concatAndHash crates) numLeaves index leaf path == some root)

end NilStore.Core
