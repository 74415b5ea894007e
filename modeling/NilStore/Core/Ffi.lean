import NilStore.Core.Kzg
import NilStore.Lib.Chunks

/-!
# `NilStore.Core.Ffi`: the `extern "C"` entry point of the chained proof

`nil_core/src/ffi.rs`. A result code is an integer, and `none` is a panic: it reaches the
`extern "C"` boundary, where it aborts the process. Pointers are modelled by the bytes behind
them. The Go binding passes pointers into slices whose lengths it has checked, so the branch
for null pointers (code −2) is not modelled.
-/

set_option autoImplicit false

namespace NilStore.Core

open NilStore.Lib

/-- The arguments of `nil_verify_chained_proof`. -/
structure ChainedProofArgs where
  manifestCommitment : Bytes
  mduIndex : UInt64
  manifestProof : Bytes
  mduMerkleRoot : Bytes
  blobCommitment : Bytes
  blobIndex : UInt64
  leafCount : UInt64
  blobMerkleProof : Bytes
  blobZ : Bytes
  blobY : Bytes
  blobProof : Bytes
deriving DecidableEq

/-- Hop 1: the MDU root is in the manifest. -/
def ChainedProofArgs.hop1 (a : ChainedProofArgs) (ctx : KzgContext) : Except KzgError Bool :=
  verifyManifestInclusion ctx a.manifestCommitment a.mduMerkleRoot a.mduIndex.toNat
    a.manifestProof

/-- Hop 2: the blob commitment is in the MDU's Merkle tree. -/
def ChainedProofArgs.hop2 (a : ChainedProofArgs) (ctx : KzgContext) :
    Option (Except KzgError Bool) :=
  verifyMduMerkleProof ctx a.mduMerkleRoot a.blobCommitment a.blobIndex.toNat a.blobMerkleProof
    a.leafCount.toNat

/-- The path, as the verifier cuts it into nodes. -/
def ChainedProofArgs.nodes (a : ChainedProofArgs) : List Bytes :=
  (a.blobMerkleProof.toChunks 32).filter (·.length = 32)

/-- Nodes of 32 bytes, one after another, are cut into these nodes. -/
theorem nodes_of_flatten {path : List Bytes} (h : ∀ node ∈ path, node.length = 32) :
    (path.flatten.toChunks 32).filter (·.length = 32) = path := by
  rw [toChunks_flatten (by decide) h]
  refine List.filter_eq_self.mpr fun node hnode => ?_
  simpa using h node hnode

/-- Hop 2, for a root and a commitment of the right lengths, is the check of the path. -/
theorem ChainedProofArgs.hop2_eq {a : ChainedProofArgs} (ctx : KzgContext)
    (hroot : a.mduMerkleRoot.length = 32) (hcommitment : a.blobCommitment.length = 48) :
    a.hop2 ctx = (ctx.crates.merkleVerify a.nodes a.mduMerkleRoot a.blobIndex.toNat
      (ctx.crates.blake2s256 a.blobCommitment) a.leafCount.toNat).map .ok := by
  have hlengths : ¬(a.mduMerkleRoot.length ≠ 32 ∨ a.blobCommitment.length ≠ 48) := by
    rw [hroot, hcommitment]
    simp
  rw [ChainedProofArgs.hop2, verifyMduMerkleProof, if_neg hlengths]
  rfl

/-- Hop 3: the value is in the blob. It is the opening of the commitment at the point. -/
def ChainedProofArgs.hop3 (a : ChainedProofArgs) (ctx : KzgContext) : Except KzgError Bool :=
  verifyProof ctx a.blobCommitment a.blobZ a.blobY a.blobProof

/-- `nil_verify_chained_proof`. The hops are checked in order, and the first that fails decides.
There is no answer where the library panics. -/
def nilVerifyChainedProof (kzgCtx : Option KzgContext) (a : ChainedProofArgs) : Option Int :=
  match kzgCtx with
  | none => some (-1)
  | some ctx =>
      match a.hop1 ctx with
      | .error _ => some (-3)
      | .ok false => some 0
      | .ok true =>
          match a.hop2 ctx with
          | none => none
          | some (.error _) => some (-4)
          | some (.ok false) => some 0
          | some (.ok true) =>
              match a.hop3 ctx with
              | .error _ => some (-5)
              | .ok false => some 0
              | .ok true => some 1

/-- The entry point accepts exactly when it is initialised and all three hops hold. -/
theorem nilVerifyChainedProof_eq_one {kzgCtx : Option KzgContext} {a : ChainedProofArgs} :
    nilVerifyChainedProof kzgCtx a = some 1 ↔
      ∃ ctx, kzgCtx = some ctx ∧ a.hop1 ctx = .ok true ∧ a.hop2 ctx = some (.ok true) ∧
        a.hop3 ctx = .ok true := by
  cases kzgCtx with
  | none => simp [nilVerifyChainedProof]
  | some ctx =>
      simp only [nilVerifyChainedProof, Option.some.injEq, exists_eq_left']
      rcases h1 : a.hop1 ctx with _ | _ | _
      · simp
      · simp
      · rcases h2 : a.hop2 ctx with _ | _ | _ | _
        · simp
        · simp
        · simp
        · rcases h3 : a.hop3 ctx with _ | _ | _ <;> simp

/-- What the first hop has checked. -/
theorem ChainedProofArgs.hop1_ok {a : ChainedProofArgs} {ctx : KzgContext}
    (h : a.hop1 ctx = .ok true) :
    a.mduIndex.toNat < 4096 ∧ a.mduMerkleRoot.length = 32 ∧
      verifyProof ctx a.manifestCommitment (zForCell a.mduIndex.toNat)
        (scalarToBytesBe (reduceBytes32ToScalar a.mduMerkleRoot)) a.manifestProof = .ok true := by
  rw [ChainedProofArgs.hop1, verifyManifestInclusion] at h
  split at h
  · cases h
  · rename_i hindex
    split at h
    · cases h
    · rename_i hlengths
      rw [not_or, not_not] at hlengths
      exact ⟨Nat.not_le.mp hindex, hlengths.1, h⟩

/-- What the second hop has checked. -/
theorem ChainedProofArgs.hop2_ok {a : ChainedProofArgs} {ctx : KzgContext}
    (h : a.hop2 ctx = some (.ok true)) :
    a.blobCommitment.length = 48 ∧
      ctx.crates.merkleVerify a.nodes a.mduMerkleRoot a.blobIndex.toNat
        (ctx.crates.blake2s256 a.blobCommitment) a.leafCount.toNat = some true := by
  by_cases hlengths : a.mduMerkleRoot.length ≠ 32 ∨ a.blobCommitment.length ≠ 48
  · rw [ChainedProofArgs.hop2, verifyMduMerkleProof, if_pos hlengths] at h
    cases h
  · rw [not_or, not_not, not_not] at hlengths
    rw [a.hop2_eq ctx hlengths.1 hlengths.2] at h
    obtain ⟨verdict, hverdict, hok⟩ := Option.map_eq_some_iff.mp h
    cases hok
    exact ⟨hlengths.2, hverdict⟩

/-- The entry point aborts exactly when it comes to hop 2 and the check of the path
panics. -/
theorem nilVerifyChainedProof_eq_none {kzgCtx : Option KzgContext} {a : ChainedProofArgs} :
    nilVerifyChainedProof kzgCtx a = none ↔
      ∃ ctx, kzgCtx = some ctx ∧ a.hop1 ctx = .ok true ∧ a.hop2 ctx = none := by
  cases kzgCtx with
  | none => simp [nilVerifyChainedProof]
  | some ctx =>
      simp only [nilVerifyChainedProof, Option.some.injEq, exists_eq_left']
      rcases h1 : a.hop1 ctx with _ | _ | _
      · simp
      · simp
      · rcases h2 : a.hop2 ctx with _ | _ | _ | _
        · simp
        · simp
        · simp
        · rcases h3 : a.hop3 ctx with _ | _ | _ <;> simp

end NilStore.Core
