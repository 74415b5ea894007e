import NilStore.Chain.Ledger
import NilStore.Gateway.ProofHelper

/-!
# `NilStore.Proofs.MerklePaths`: the gateway's Merkle paths lead to its root

`merkleRootAndPath` of the gateway climbs the tree that promotes a lonely node, so its path folds to
its root (`merkleRootAndPath_folds`). The path has exactly the siblings that the fold calls for, and
the root determines the leaves as long as no two of the hashed pairs collide.
-/

set_option autoImplicit false

namespace NilStore.Gateway

open NilStore.Lib NilStore.Chain

/-- No two of the pairs that the trees over the two lists combine have the same hash. No hash to 32
bytes is injective on all pairs of nodes. -/
def InjectiveOnTrees (blake2s : Bytes → Bytes) (leaves leaves' : List Bytes) : Prop :=
  Set.InjOn (fun e : Bytes × Bytes => pairHash blake2s e.1 e.2)
    { e | e ∈ PromotedMerkle.treePairs (pairHash blake2s) leaves ∨
      e ∈ PromotedMerkle.treePairs (pairHash blake2s) leaves' }

/-- The path of a leaf folds to the root: the sibling is on the left where the index is odd, and a
last node without a sibling takes none. Lists of one length with one root are the same list. -/
theorem merkleRootAndPath_folds (blake2s : Bytes → Bytes) {leaves : List Bytes} {i : Nat}
    {leaf : Bytes} (hleaf : leaves[i]? = some leaf) :
    PromotedMerkle.foldPath (pairHash blake2s) leaves.length i leaf
        (merkleRootAndPath blake2s leaves i).2 =
        some (merkleRootAndPath blake2s leaves i).1 ∧
      (merkleRootAndPath blake2s leaves i).2.length = PromotedMerkle.pathLength leaves.length i ∧
      ∀ (leaves' : List Bytes) (j : Nat), leaves'.length = leaves.length → j < leaves'.length →
        InjectiveOnTrees blake2s leaves leaves' →
        (merkleRootAndPath blake2s leaves' j).1 = (merkleRootAndPath blake2s leaves i).1 →
          leaves' = leaves := by
  have hi : i < leaves.length := (List.getElem?_eq_some_iff.mp hleaf).1
  obtain ⟨hroot, hpath⟩ := merkleRootAndPath_eq blake2s hi
  refine ⟨?_, ?_, fun leaves' j hlength hj hinj hsame => ?_⟩
  · rw [hpath, ← hroot]
    exact (PromotedMerkle.foldPath_honestPath _ leaves hleaf).1
  · rw [hpath]
    exact PromotedMerkle.length_honestPath _ leaves hi
  · obtain ⟨hroot', -⟩ := merkleRootAndPath_eq blake2s hj
    rw [hsame] at hroot'
    exact PromotedMerkle.root_inj hinj (fun _ he => .inl he) (fun _ he =>
      .inr he) hlength hroot hroot'

/-- Three leaves, of which the last one is promoted, and the same with the first two swapped. -/
def threeLeaves : List Bytes := [List.replicate 32 0, List.replicate 32 1, List.replicate 32 2]

/-- The three leaves with the first two swapped. -/
def swappedLeaves : List Bytes := [List.replicate 32 1, List.replicate 32 0, List.replicate 32 2]

/-- The Blake2s of the first two leaves, and that of this node with the third leaf, of both
trees. -/
def threeLeafNodes : List Bytes :=
  [[0x63, 0xdf, 0x7e, 0xb2, 0x27, 0xfb, 0x4e, 0x7b, 0xc7, 0xff, 0x18, 0x7e, 0xbf, 0x24, 0x1e, 0x51,
      0x14, 0xea, 0x72, 0xb6, 0x5b, 0x8f, 0x7b, 0xb2, 0x6c, 0x1c, 0x41, 0xcc, 0xe2, 0xaa, 0xb1,
      0xc8],
    [0xd1, 0x38, 0xf7, 0x0a, 0x25, 0x3c, 0xbd, 0x7e, 0x6c, 0xe8, 0x54, 0xd9, 0x41, 0x92, 0xb6, 0xed,
      0x44, 0x4c, 0xff, 0x93, 0xf5, 0x43, 0x50, 0x32, 0x2e, 0x1d, 0x2b, 0xa4, 0x30, 0x06, 0xf5,
      0x97],
    [0xd5, 0x18, 0xeb, 0xb4, 0xd8, 0x74, 0x1c, 0x41, 0x58, 0xa2, 0xcc, 0x06, 0x17, 0x08, 0x42, 0x70,
      0xd6, 0xef, 0xf2, 0x86, 0xa5, 0x27, 0xac, 0xf7, 0x41, 0x82, 0x9b, 0x02, 0x61, 0x93, 0x0e,
      0x39],
    [0xff, 0x4a, 0x58, 0xd2, 0x3b, 0x0d, 0x45, 0xbf, 0x17, 0x32, 0xf3, 0x28, 0x0b, 0x27, 0x90, 0x6f,
      0xbc, 0xd4, 0x2a, 0x41, 0x53, 0xfd, 0x5f, 0xf2, 0xf6, 0x8a, 0x06, 0x67, 0xb1, 0x8d, 0x1b,
      0xe6]]

/-- The pairs that the two trees hash. -/
def threeLeafPairs : List (Bytes × Bytes) :=
  [(List.replicate 32 0, List.replicate 32 1), (threeLeafNodes.getD 0 [], List.replicate 32 2),
    (List.replicate 32 1, List.replicate 32 0), (threeLeafNodes.getD 2 [], List.replicate 32 2)]

/-- The digests of these pairs. -/
def threeLeafHash : HashTable where
  entries := (threeLeafPairs.map fun e => e.1 ++ e.2).zip threeLeafNodes
  lengths := by decide +kernel

/-- The four pairs of the two trees have different hashes. -/
theorem injectiveOnTrees_threeLeaves :
    InjectiveOnTrees threeLeafHash.hash threeLeaves swappedLeaves := by
  have hpairs : PromotedMerkle.treePairs (pairHash threeLeafHash.hash) threeLeaves =
      threeLeafPairs.take 2 := by
    rw [PromotedMerkle.treePairs, if_neg (by decide), PromotedMerkle.treePairs, if_neg (by decide),
      PromotedMerkle.treePairs, if_pos (by decide)]
    decide +kernel
  have hpairs' : PromotedMerkle.treePairs (pairHash threeLeafHash.hash) swappedLeaves =
      threeLeafPairs.drop 2 := by
    rw [PromotedMerkle.treePairs, if_neg (by decide), PromotedMerkle.treePairs, if_neg (by decide),
      PromotedMerkle.treePairs, if_pos (by decide)]
    decide +kernel
  have hhashes : (threeLeafPairs.map fun e => pairHash threeLeafHash.hash e.1 e.2).Nodup := by
    decide +kernel
  have hsplit : threeLeafPairs.take 2 ++ threeLeafPairs.drop 2 = threeLeafPairs :=
    List.take_append_drop _ _
  intro e he e' he' heq
  simp only [hpairs, hpairs', Set.mem_ofPred_eq, ← List.mem_append, hsplit] at he he'
  exact List.inj_on_of_nodup_map hhashes he he' heq

/-- The path of the promoted leaf folds to the root, and swapping two leaves gives another root. -/
theorem merkleRootAndPath_folds_three :
    PromotedMerkle.foldPath (pairHash threeLeafHash.hash) 3 2 (List.replicate 32 2)
        (merkleRootAndPath threeLeafHash.hash threeLeaves (2 : Nat)).2 =
      some (merkleRootAndPath threeLeafHash.hash threeLeaves (2 : Nat)).1 ∧
    (merkleRootAndPath threeLeafHash.hash swappedLeaves (0 : Nat)).1 ≠
      (merkleRootAndPath threeLeafHash.hash threeLeaves (2 : Nat)).1 := by
  obtain ⟨hfold, -, hinj⟩ := merkleRootAndPath_folds threeLeafHash.hash
    (show threeLeaves[2]? = some (List.replicate 32 2) from rfl)
  refine ⟨hfold, fun hroot => ?_⟩
  have hsame := hinj swappedLeaves 0 rfl (by decide) injectiveOnTrees_threeLeaves hroot
  exact absurd hsame (by decide)

end NilStore.Gateway
