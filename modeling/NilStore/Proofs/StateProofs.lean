import NilStore.Bridge.NilBridge
import NilStore.Lib.SortedMerkle

/-!
# `NilStore.Proofs.StateProofs`: which proofs the contract accepts

`verifyInclusion` climbs a tree with sorted pairs. When the contract's root is that of a tree, it
accepts exactly the openings of the tree (`verifyInclusion_iff_opens`), as long as `keccak256` does
not collide on what the tree and the proof hash and no leaf is such a hash. An opening may stop
above the leaves, so an inner node passes for a member too: the contract does not know the height of
the tree.
-/

set_option autoImplicit false

namespace NilStore.Bridge

open NilStore.Lib

/-- The parent of a pair. -/
def hashPair (keccak256 : Bytes → Bytes32) (e : Bytes32 × Bytes32) : Bytes32 :=
  keccak256 (encodePacked e.1 e.2)

/-- Two words are determined by their packed bytes. -/
theorem encodePacked_inj {a b c d : Bytes32} (h : encodePacked a b = encodePacked c d) :
    a = c ∧ b = d := by
  obtain ⟨hleft, hright⟩ := List.append_inj h (by simp)
  constructor
  · exact Fin.ext (beBytes_inj a.isLt c.isLt hleft)
  · exact Fin.ext (beBytes_inj b.isLt d.isLt hright)

variable {keccak256 : Bytes → Bytes32}

/-- The loop of the contract is a climb. -/
theorem verifyInclusion_iff_climb {bridge : NilBridge} {leaf : Bytes32} {proof : List Bytes32} :
    bridge.verifyInclusion keccak256 leaf proof = true ↔
      SortedMerkle.climb (hashPair keccak256) leaf proof = bridge.latestStateRoot := by
  have hfold : proof.foldl (fun computedHash proofElement =>
      if computedHash ≤ proofElement then keccak256 (encodePacked computedHash proofElement)
      else keccak256 (encodePacked proofElement computedHash)) leaf =
      SortedMerkle.climb (hashPair keccak256) leaf proof := by
    induction proof generalizing leaf with
    | nil => rfl
    | cons s rest ih =>
        rw [List.foldl_cons, ih, SortedMerkle.climb_cons, SortedMerkle.sorted]
        by_cases hle : leaf ≤ s
        · rw [if_pos hle, if_pos hle, hashPair]
        · rw [if_neg hle, if_neg hle, hashPair]
  unfold NilBridge.verifyInclusion
  rw [beq_iff_eq, hfold]

/-- The contract accepts the openings of the tree and nothing else. Pairs are hashed in sorted
order, so a proof carries no sides; and since leaves are not told from nodes, what is asked of them
is that none is the hash of a pair that the proof climbs. -/
theorem verifyInclusion_iff_opens (bridge : NilBridge) (t : SortedMerkle.Tree Bytes32)
    (hroot : bridge.latestStateRoot = t.root (hashPair keccak256)) (leaf : Bytes32)
    (proof : List Bytes32)
    (hkeccak : Set.InjOn keccak256 {b | ∃ e, (e ∈ t.pairs (hashPair keccak256) ∨
      e ∈ SortedMerkle.climbPairs (hashPair keccak256) leaf proof) ∧ b = encodePacked e.1 e.2})
    (hleaves : ∀ a ∈ t.leaves, ∀ e ∈ SortedMerkle.climbPairs (hashPair keccak256) leaf proof,
      a ≠ hashPair keccak256 e) :
    bridge.verifyInclusion keccak256 leaf proof = true ↔
      ∃ u, SortedMerkle.Opens (hashPair keccak256) t u proof ∧
        u.root (hashPair keccak256) = leaf := by
  rw [verifyInclusion_iff_climb, hroot]
  -- from the climb to the opening: pairs are hashed without collision
  constructor
  · intro hclimb
    have hpairs : Set.InjOn (hashPair keccak256) {e | e ∈ t.pairs (hashPair keccak256) ∨
        e ∈ SortedMerkle.climbPairs (hashPair keccak256) leaf proof} := by
      intro e he e' he' hsame
      obtain ⟨hleft, hright⟩ := encodePacked_inj (hkeccak ⟨e, he, rfl⟩ ⟨e', he', rfl⟩ hsame)
      exact Prod.ext hleft hright
    exact SortedMerkle.opens_of_climb hpairs (fun e he => Or.inl he) (fun e he =>
      Or.inr he) hleaves hclimb
  · rintro ⟨u, hopens, rfl⟩
    exact hopens.climb_eq

/-! ### Three leaves -/

/-- `keccak256` of the words 1 and 2. -/
def pairDigest : Bytes32 :=
  toWord 0xe90b7bceb6e7df5418fb78d8ee546e97c83a08bbccc01a0644d599ccd2a7c2e0

/-- `keccak256` of the word 3 and `pairDigest`. -/
def topDigest : Bytes32 := toWord 0x9b0225f2c6f59eeaf8302811ea290e95258763189b82dc033158e99a6ef45a87

/-- `keccak256` on what the tree hashes. -/
def threeLeafKeccak (b : Bytes) : Bytes32 :=
  if b = encodePacked (toWord 1) (toWord 2) then pairDigest
  else if b = encodePacked (toWord 3) pairDigest then topDigest else toWord 0

/-- The tree of the leaves 1, 2 and 3. -/
def threeLeafTree : SortedMerkle.Tree Bytes32 :=
  .node (.node (.leaf (toWord 1)) (.leaf (toWord 2))) (.leaf (toWord 3))

/-- The order of the first pair. -/
theorem sorted_leaves :
    SortedMerkle.sorted (toWord 1) (toWord 2) = (toWord 1, toWord 2) := by decide +kernel

/-- The order of the second pair. -/
theorem sorted_top :
    SortedMerkle.sorted pairDigest (toWord 3) = (toWord 3, pairDigest) := by decide +kernel

/-- The digest of the first pair. -/
theorem threeLeafKeccak_leaves :
    threeLeafKeccak (encodePacked (toWord 1) (toWord 2)) = pairDigest := if_pos rfl

/-- The digest of the second pair. -/
theorem threeLeafKeccak_top : threeLeafKeccak (encodePacked (toWord 3) pairDigest) = topDigest :=
  (if_neg (by decide +kernel)).trans (if_pos rfl)

/-- The node over the first two leaves. -/
theorem hashPair_leaves : hashPair threeLeafKeccak (toWord 1, toWord 2) = pairDigest :=
  threeLeafKeccak_leaves

/-- The root. -/
theorem hashPair_top : hashPair threeLeafKeccak (toWord 3, pairDigest) = topDigest :=
  threeLeafKeccak_top

/-- Nothing collides among the two pairs of the tree. A proof for it climbs these pairs only. -/
theorem injOn_threeLeafKeccak {x : Bytes32} {proof : List Bytes32}
    (hclimb : ∀ e ∈ SortedMerkle.climbPairs (hashPair threeLeafKeccak) x proof, e =
      (toWord 1, toWord 2) ∨ e = (toWord 3, pairDigest)) :
    Set.InjOn threeLeafKeccak {b | ∃ e, (e ∈ threeLeafTree.pairs (hashPair threeLeafKeccak) ∨
      e ∈ SortedMerkle.climbPairs (hashPair threeLeafKeccak) x proof) ∧
        b = encodePacked e.1 e.2} := by
  -- the pairs of the tree
  have htree : ∀ e ∈ threeLeafTree.pairs (hashPair threeLeafKeccak), e = (toWord 1, toWord 2) ∨
      e = (toWord 3, pairDigest) := by
    intro e he
    simp only [threeLeafTree, SortedMerkle.Tree.pairs, SortedMerkle.Tree.root, sorted_leaves,
      hashPair_leaves, sorted_top, List.append_nil, List.mem_cons, List.not_mem_nil, or_false] at he
    exact he.symm
  -- and what is hashed for them
  have hbytes : ∀ b, (∃ e, (e ∈ threeLeafTree.pairs (hashPair threeLeafKeccak) ∨
      e ∈ SortedMerkle.climbPairs (hashPair threeLeafKeccak) x proof) ∧ b = encodePacked e.1 e.2) →
      b = encodePacked (toWord 1) (toWord 2) ∧ threeLeafKeccak b = pairDigest ∨
        b = encodePacked (toWord 3) pairDigest ∧ threeLeafKeccak b = topDigest := by
    rintro b ⟨e, he, hb⟩
    rcases he.elim (htree e) (hclimb e) with he | he
    · rw [he] at hb
      rw [hb]
      exact Or.inl ⟨rfl, threeLeafKeccak_leaves⟩
    · rw [he] at hb
      rw [hb]
      exact Or.inr ⟨rfl, threeLeafKeccak_top⟩
  have hne : pairDigest ≠ topDigest := by decide +kernel
  intro b hb b' hb' hsame
  rcases hbytes b hb with ⟨heq, hhash⟩ | ⟨heq, hhash⟩ <;>
    rcases hbytes b' hb' with ⟨heq', hhash'⟩ | ⟨heq', hhash'⟩
  · exact heq.trans heq'.symm
  · exact absurd (hhash.symm.trans (hsame.trans hhash')) hne
  · exact absurd (hhash'.symm.trans (hsame.symm.trans hhash)) hne
  · exact heq.trans heq'.symm

/-- The contract with the root of three leaves accepts the first of them, and the inner node above
it as well. The leaves are small numbers and the nodes are digests, so no leaf is taken for a
node. -/
theorem verifyInclusion_iff_opens_three :
    (∃ u, SortedMerkle.Opens (hashPair threeLeafKeccak) threeLeafTree u [toWord 2, toWord 3] ∧
      u.root (hashPair threeLeafKeccak) = toWord 1) ∧
    ∃ u, SortedMerkle.Opens (hashPair threeLeafKeccak) threeLeafTree u [toWord 3] ∧
      u.root (hashPair threeLeafKeccak) = pairDigest := by
  have hroot : (NilBridge.mk topDigest (toWord 1) 0).latestStateRoot =
      threeLeafTree.root (hashPair threeLeafKeccak) := by
    simp only [threeLeafTree, SortedMerkle.Tree.root, sorted_leaves, hashPair_leaves,
      sorted_top, hashPair_top]
  -- no leaf is the digest of one of the two pairs
  have hleaves : ∀ a ∈ threeLeafTree.leaves, ∀ e, e = (toWord 1, toWord 2) ∨
      e = (toWord 3, pairDigest) →
      a ≠ hashPair threeLeafKeccak e := by
    intro a ha e he
    have hvalue : hashPair threeLeafKeccak e = pairDigest ∨
        hashPair threeLeafKeccak e = topDigest := by
      rcases he with rfl | rfl
      · exact Or.inl hashPair_leaves
      · exact Or.inr hashPair_top
    have hsmall : a = toWord 1 ∨ a = toWord 2 ∨ a = toWord 3 := by
      simpa [threeLeafTree, SortedMerkle.Tree.leaves] using ha
    rcases hvalue with hvalue | hvalue <;> rw [hvalue] <;>
      rcases hsmall with hsmall | hsmall | hsmall <;>
      rw [hsmall] <;> decide +kernel
  -- the first leaf, and the node above it
  constructor
  · have hclimb : ∀ e ∈
        SortedMerkle.climbPairs (hashPair threeLeafKeccak) (toWord 1) [toWord 2, toWord 3],
        e = (toWord 1, toWord 2) ∨ e = (toWord 3, pairDigest) := by
      intro e he
      simpa only [SortedMerkle.climbPairs, sorted_leaves, hashPair_leaves, sorted_top,
        List.mem_cons, List.not_mem_nil, or_false] using he
    refine (verifyInclusion_iff_opens _ threeLeafTree hroot (toWord 1) [toWord 2, toWord 3]
      (injOn_threeLeafKeccak hclimb)
      fun a ha e he => hleaves a ha e (hclimb e he)).mp ?_
    decide +kernel
  · have hclimb : ∀ e ∈ SortedMerkle.climbPairs (hashPair threeLeafKeccak) pairDigest [toWord 3],
        e = (toWord 1, toWord 2) ∨ e = (toWord 3, pairDigest) := by
      simp [SortedMerkle.climbPairs, sorted_top]
    refine (verifyInclusion_iff_opens _ threeLeafTree hroot pairDigest [toWord 3]
      (injOn_threeLeafKeccak hclimb)
      fun a ha e he => hleaves a ha e (hclimb e he)).mp ?_
    decide +kernel

end NilStore.Bridge
