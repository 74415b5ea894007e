import NilStore.Core.Ffi
import NilStore.Core.Prover
import NilStore.Lib.PromotedMerkle

/-!
# `NilStore.Gateway.ProofHelper`: the chained proof of `nil_gateway/proof_helper.go`

`generateProofHeaderJSON` puts a chained proof together: the opening of the MDU root in the
manifest, the Merkle path of the blob commitment and the opening of the blob. The path comes from a
Go version of the `rs_merkle` tree. `merkleRootAndPath_eq` says that it is the same tree: a lonely
last node is promoted.
-/

set_option autoImplicit false

namespace NilStore.Gateway

open NilStore.Lib NilStore.Core

section

variable (blake2s : Bytes → Bytes)

/-- The parent of two nodes. -/
def pairHash (left right : Bytes) : Bytes := blake2s (left ++ right)

/-- The loop over the pairs of a level; a left node without a sibling moves up. -/
def nextLevel : List Bytes → List Bytes
  | left :: right :: rest => pairHash blake2s left right :: nextLevel rest
  | [left] => [left]
  | [] => []

/-- The helper's next level is the library's layer of a tree that promotes an odd last node. -/
theorem nextLevel_eq (level : List Bytes) :
    nextLevel blake2s level = PromotedMerkle.layerUp (pairHash blake2s) level := by
  induction level using PromotedMerkle.layerUp.induct with
  | case1 left right rest ih => rw [nextLevel, PromotedMerkle.layerUp, ih]
  | case2 left => rfl
  | case3 => rfl

/-- A level is half as long as the one below it, rounded up. -/
theorem length_nextLevel (level : List Bytes) :
    (nextLevel blake2s level).length = (level.length + 1) / 2 := by
  rw [nextLevel_eq, PromotedMerkle.length_layerUp]

/-- The sibling that a round of the loop appends to the path. A node that moves up alone has
none. -/
def levelSibling (level : List Bytes) (idx : Nat) : List Bytes :=
  if idx % 2 = 0 then
    if idx + 1 < level.length then [level.getD (idx + 1) []] else []
  else [level.getD (idx - 1) []]

/-- The loop over the levels. Each is at most as long as the half of the one below, rounded up. -/
def levelLoop (level : List Bytes) (idx : Nat) (path : List Bytes) : Bytes × List Bytes :=
  if level.length ≤ 1 then (level.headD [], path)
  else levelLoop (nextLevel blake2s level) (idx / 2) (path ++ levelSibling level idx)
termination_by level.length
decreasing_by
  rw [length_nextLevel]
  omega

/-- `merkleRootAndPath`. An index outside the list is answered with a zero root. -/
def merkleRootAndPath (leaves : List Bytes) (leafIndex : Int) : Bytes × List Bytes :=
  if leaves.length = 0 then (List.replicate 32 0, [])
  else if leafIndex < 0 ∨ (leaves.length : Int) ≤ leafIndex then (List.replicate 32 0, [])
  else levelLoop blake2s leaves leafIndex.toNat []

/-- The sibling of a round is that of the tree. -/
theorem levelSibling_append (level rest : List Bytes) {idx : Nat} (h : idx < level.length) :
    levelSibling level idx ++ rest = if idx % 2 = 0 ∧ idx + 1 = level.length then rest
      else (level[if idx % 2 = 0 then idx + 1 else idx - 1]?).toList ++ rest := by
  rw [levelSibling]
  by_cases heven : idx % 2 = 0
  · rw [if_pos heven, if_pos heven]
    by_cases hlast : idx + 1 < level.length
    · have hsome := List.getElem?_eq_getElem hlast
      rw [if_pos hlast, if_neg (by omega), List.getD_eq_getElem?_getD, hsome]
      rfl
    · rw [if_neg hlast, if_pos ⟨heven, by omega⟩]
      rfl
  · have hsome := List.getElem?_eq_getElem (show idx - 1 < level.length by omega)
    rw [if_neg heven, if_neg heven, if_neg (by omega), List.getD_eq_getElem?_getD, hsome]
    rfl

/-- The loop climbs to the root and completes the path. -/
theorem levelLoop_eq (level : List Bytes) (idx : Nat) (path : List Bytes) (h : idx < level.length) :
    PromotedMerkle.root (pairHash blake2s) level = some (levelLoop blake2s level idx path).1 ∧
      (levelLoop blake2s level idx path).2 =
        path ++ PromotedMerkle.honestPath (pairHash blake2s) level idx := by
  induction level, idx, path using levelLoop.induct blake2s with
  | case1 level idx path hone =>
      rw [levelLoop, if_pos hone, PromotedMerkle.root, if_pos hone, PromotedMerkle.honestPath,
        if_pos hone, List.append_nil]
      cases level with
      | nil => simp at h
      | cons leaf rest => exact ⟨rfl, rfl⟩
  | case2 level idx path hmore ih =>
      have hup : idx / 2 < (nextLevel blake2s level).length := by
        rw [length_nextLevel]
        omega
      obtain ⟨hroot, hpath⟩ := ih hup
      rw [nextLevel_eq] at hroot hpath
      rw [levelLoop, if_neg hmore, PromotedMerkle.root, if_neg hmore, PromotedMerkle.honestPath,
        if_neg hmore, nextLevel_eq]
      refine ⟨hroot, ?_⟩
      rw [hpath, List.append_assoc, levelSibling_append level _ h]

/-- The gateway's root and path are those of the tree that promotes a lonely node. -/
theorem merkleRootAndPath_eq {leaves : List Bytes} {i : Nat} (h : i < leaves.length) :
    PromotedMerkle.root (pairHash blake2s) leaves = some (merkleRootAndPath blake2s leaves i).1 ∧
      (merkleRootAndPath blake2s leaves i).2 =
        PromotedMerkle.honestPath (pairHash blake2s) leaves i := by
  have hne : ¬leaves.length = 0 := by omega
  have hrange : ¬((i : Int) < 0 ∨ (leaves.length : Int) ≤ i) := by omega
  rw [merkleRootAndPath, if_neg hne, if_neg hrange]
  exact levelLoop_eq blake2s leaves i [] h

end

/-- The part of `generateProofHeaderJSON` that makes the chained proof, with the manifest commitment
that the deal has on chain. The handlers pass 32-byte nodes one after another to the verifier. -/
def chainedProof (setup : Setup) (mduRoots : List Bytes) (mduIndex : UInt64)
    (commitments : List Bytes) (leafIndex leafCount : UInt64) (blobBytes z : Bytes) :
    Except KzgError ChainedProofArgs := do
  let (manifestCommitment, manifestBlob) ← computeManifestCommitment setup.ctx mduRoots
  let leafHashes := commitments.map setup.crates.blake2s256
  let (root, merklePath) := merkleRootAndPath setup.crates.blake2s256 leafHashes leafIndex.toNat
  let (kzgProofBytes, y) ← setup.computeProof blobBytes z
  let (manifestProof, _) ← setup.computeProof manifestBlob (zForCell mduIndex.toNat)
  return {
    manifestCommitment := manifestCommitment
    mduIndex := mduIndex
    manifestProof := manifestProof
    mduMerkleRoot := root
    blobCommitment := commitments.getD leafIndex.toNat []
    blobIndex := leafIndex
    leafCount := leafCount
    blobMerkleProof := merklePath.flatten
    blobZ := z
    blobY := y
    blobProof := kzgProofBytes }

end NilStore.Gateway
