import NilStore.Chain.Eip712
import NilStore.Lib.DuplicatedMerkle

/-!
# `NilStore.Gateway.SessionMerkle`: the tree over the chunks of a session

`nil_gateway/session_merkle.go`. The gateway builds the tree layer by layer and keeps for each leaf
its index on the layer and the siblings so far. `keccakMerkleRootAndPaths_eq` says that this is the
tree that duplicates a lonely node, with its siblings.
-/

set_option autoImplicit false

namespace NilStore.Gateway

open NilStore.Lib

section

variable (keccak256 : Bytes → Bytes)

/-- The parent of two nodes. The left one is hashed first. -/
def keccakNode (left right : Bytes) : Bytes := keccak256 (left ++ right)

/-- The loop that hashes the neighbours of a layer. The layer has an even length by then. -/
def hashNeighbours : List Bytes → List Bytes
  | a :: b :: rest => keccak256 (a ++ b) :: hashNeighbours rest
  | _ => []

/-- A layer of odd length is filled up with its last node. -/
def padLevel (level : List Bytes) : List Bytes :=
  if level.length % 2 = 1 then level ++ [level.getLastD []] else level

/-- The session tree's next level is the library's layer of a tree that duplicates an odd last
node. -/
theorem hashNeighbours_padLevel (level : List Bytes) :
    hashNeighbours keccak256 (padLevel level) =
      DuplicatedMerkle.layerUp (keccakNode keccak256) level := by
  induction level using DuplicatedMerkle.pairsOf.induct with
  | case1 a b rest ih =>
      have hpad : padLevel (a :: b :: rest) = a :: b :: padLevel rest := by
        have hodd : (a :: b :: rest).length % 2 = rest.length % 2 := by
          simp only [List.length_cons]
          omega
        rw [padLevel, padLevel, hodd]
        split
        · rename_i hrest
          cases rest with
          | nil => simp at hrest
          | cons c tail => rfl
        · rfl
      rw [hpad, hashNeighbours, ih]
      rfl
  | case2 a => rfl
  | case3 => rfl

/-- A level is half as long as the one below it, rounded up. -/
theorem length_hashNeighbours_padLevel (level : List Bytes) :
    (hashNeighbours keccak256 (padLevel level)).length = (level.length + 1) / 2 := by
  rw [hashNeighbours_padLevel, DuplicatedMerkle.length_layerUp]

/-- The loop over the layers. An entry has the index of a leaf on the layer and its siblings. -/
def keccakLoop (level : List Bytes) (entries : List (Nat × List Bytes)) :
    Bytes × List (List Bytes) :=
  if level.length ≤ 1 then (level.headD [], entries.map (·.2))
  else
    keccakLoop (hashNeighbours keccak256 (padLevel level))
      (entries.map fun e => (e.1 / 2, e.2 ++ [(padLevel level).getD (e.1 ^^^ 1) []]))
termination_by level.length
decreasing_by
  rw [length_hashNeighbours_padLevel]
  omega

/-- `keccakMerkleRootAndPaths`. A single leaf is paired with itself. -/
def keccakMerkleRootAndPaths (leaves : List Bytes) : Bytes × List (List Bytes) :=
  match leaves with
  | [] => (Chain.zeroHash, [])
  | [leaf] => (keccak256 (leaf ++ leaf), [[leaf]])
  | leaves => keccakLoop keccak256 leaves ((List.range leaves.length).map fun i => (i, []))

/-! ### The tree that it builds -/

/-- Flipping the last bit of an index goes to its neighbour. -/
theorem xor_one_eq (i : Nat) : i ^^^ 1 = if i % 2 = 0 then i + 1 else i - 1 := by
  have hdiv : (i ^^^ 1) / 2 = i / 2 := by
    rw [Nat.xor_div_two]
    simp
  have hmod : (i ^^^ 1) % 2 = (i + 1) % 2 := Nat.xor_mod_two_eq
  split <;> omega

/-- The sibling in the padded layer. -/
theorem getD_padLevel {level : List Bytes} {i : Nat} {x : Bytes} (h : level[i]? = some x) :
    (padLevel level).getD (i ^^^ 1) [] = DuplicatedMerkle.sibling level i x := by
  have hlt := (List.getElem?_eq_some_iff.mp h).1
  rw [List.getD_eq_getElem?_getD, xor_one_eq, DuplicatedMerkle.sibling]
  -- a node with an even index has its sibling to the right, which may be missing
  by_cases hi : i % 2 = 0
  · rw [if_pos hi, if_pos hi, padLevel]
    by_cases hlast : i + 1 < level.length
    · have hsome := List.getElem?_eq_getElem hlast
      split
      · rw [List.getElem?_append_left hlast, hsome]
        rfl
      · rw [hsome]
        rfl
    · -- The last node of an odd layer is its own sibling.
      have hlength : level.length = i + 1 := by omega
      have hnone : level[i + 1]? = none := List.getElem?_eq_none (by omega)
      have hgetLast : level.getLastD [] = x := by
        rw [List.getLastD_eq_getLast?, List.getLast?_eq_getElem?, hlength, Nat.add_sub_cancel, h]
        rfl
      rw [if_pos (by omega), List.getElem?_append_right (by omega), hlength, Nat.sub_self, hgetLast,
        hnone]
      rfl
  -- a node with an odd index has its sibling to the left, which is there
  · have hbefore : i - 1 < level.length := by omega
    have hsome := List.getElem?_eq_getElem hbefore
    rw [if_neg hi, if_neg hi, padLevel]
    split
    · rw [List.getElem?_append_left hbefore, hsome]
      rfl
    · rw [hsome]
      rfl

/-- One round of the loop on the entries. -/
theorem nextEntry_eq {level : List Bytes} {i : Nat} (hlt : i < level.length) :
    (padLevel level).getD (i ^^^ 1) [] = DuplicatedMerkle.sibling level i (level.getD i []) ∧
      (DuplicatedMerkle.layerUp (keccakNode keccak256) level).getD (i / 2) [] =
        if i % 2 = 0 then
          keccakNode keccak256 (level.getD i [])
            (DuplicatedMerkle.sibling level i (level.getD i []))
        else
          keccakNode keccak256 (DuplicatedMerkle.sibling level i (level.getD i []))
            (level.getD i []) := by
  have hx : level[i]? = some (level.getD i []) := by
    rw [List.getD_eq_getElem?_getD, List.getElem?_eq_getElem hlt]
    rfl
  constructor
  · exact getD_padLevel hx
  · have hup : (DuplicatedMerkle.layerUp (keccakNode keccak256) level)[i / 2]? = some _ :=
      DuplicatedMerkle.getElem?_layerUp hx
    rw [List.getD_eq_getElem?_getD, hup]
    rfl

/-- The loop computes the top of the layer and completes the siblings: each entry has an index into
the layer and the siblings so far, and gets the siblings from this layer up. -/
theorem keccakLoop_eq (length : Nat) :
    ∀ (level : List Bytes) (entries : List (Nat × List Bytes)), level.length = length →
      level ≠ [] → (∀ e ∈ entries, e.1 < level.length) →
      DuplicatedMerkle.root (keccakNode keccak256) level =
          some (keccakLoop keccak256 level entries).1 ∧
        (keccakLoop keccak256 level entries).2 = entries.map fun e =>
          e.2 ++ DuplicatedMerkle.siblings (keccakNode keccak256) level e.1
            (level.getD e.1 []) := by
  -- On the length: the layers above are shorter.
  induction length using Nat.strong_induction_on with
  | h length ih =>
      intro level entries hlen hne hentries
      by_cases h : level.length ≤ 1
      · rw [keccakLoop, if_pos h, DuplicatedMerkle.root, if_pos h]
        constructor
        · cases level with
          | nil => exact absurd rfl hne
          | cons a rest => rfl
        · apply List.map_congr_left
          intro e _
          rw [DuplicatedMerkle.siblings, if_pos h, List.append_nil]
      -- above it is the layer of the pairs, and each entry moves to the parent
      · rw [keccakLoop, if_neg h, DuplicatedMerkle.root, if_neg h, hashNeighbours_padLevel]
        have hlength := DuplicatedMerkle.length_layerUp (keccakNode keccak256) level
        have hne' : DuplicatedMerkle.layerUp (keccakNode keccak256) level ≠ [] := by
          rw [← List.length_pos_iff]
          omega
        have hentries' : ∀ e ∈ entries.map fun e =>
            (e.1 / 2, e.2 ++ [(padLevel level).getD (e.1 ^^^ 1) []]),
            e.1 < (DuplicatedMerkle.layerUp (keccakNode keccak256) level).length := by
          intro e he
          obtain ⟨e', he', rfl⟩ := List.mem_map.mp he
          have hlt := hentries e' he'
          show e'.1 / 2 < _
          omega
        -- the induction hypothesis, for the layer above and the moved entries
        obtain ⟨hroot, hpaths⟩ := ih _ (by omega) _ _ hlength hne' hentries'
        constructor
        · exact hroot
        · rw [hpaths, List.map_map]
          apply List.map_congr_left
          intro e he
          obtain ⟨hsibling, hparent⟩ := nextEntry_eq keccak256 (hentries e he)
          show (e.2 ++ [(padLevel level).getD (e.1 ^^^ 1) []]) ++
              DuplicatedMerkle.siblings (keccakNode keccak256) _ (e.1 / 2)
                ((DuplicatedMerkle.layerUp (keccakNode keccak256) level).getD (e.1 / 2) []) =
            e.2 ++ DuplicatedMerkle.siblings (keccakNode keccak256) level e.1 (level.getD e.1 [])
          rw [hsibling, hparent, List.append_assoc, DuplicatedMerkle.siblings.eq_def _ level,
            if_neg h]
          rfl

/-- The gateway builds the tree that duplicates a lonely node, and the siblings of each leaf. -/
theorem keccakMerkleRootAndPaths_eq {leaves : List Bytes} (hne : leaves ≠ []) :
    DuplicatedMerkle.treeRoot (keccakNode keccak256) leaves =
        some (keccakMerkleRootAndPaths keccak256 leaves).1 ∧
      (keccakMerkleRootAndPaths keccak256 leaves).2 = (List.range leaves.length).map fun i =>
        DuplicatedMerkle.treeSiblings (keccakNode keccak256) leaves i (leaves.getD i []) := by
  match leaves, hne with
  -- one leaf is the root, and has itself for a path
  | [leaf], _ =>
      constructor
      · rw [DuplicatedMerkle.treeRoot, DuplicatedMerkle.root]
        rfl
      · show [[leaf]] = [DuplicatedMerkle.treeSiblings (keccakNode keccak256) [leaf] 0 leaf]
        rw [DuplicatedMerkle.treeSiblings, DuplicatedMerkle.siblings]
        rfl
  | a :: b :: rest, _ =>
      have hmany : ¬(a :: b :: rest).length ≤ 1 := by simp
      -- each leaf starts at its own index with no sibling
      have hentries : ∀ e ∈ (List.range (a :: b :: rest).length).map fun i =>
          (i, ([] : List Bytes)),
          e.1 < (a :: b :: rest).length := by
        intro e he
        obtain ⟨i, hi, rfl⟩ := List.mem_map.mp he
        exact List.mem_range.mp hi
      obtain ⟨hroot, hpaths⟩ :=
        keccakLoop_eq keccak256 _ (a :: b :: rest) _ rfl (List.cons_ne_nil a _) hentries
      rw [DuplicatedMerkle.root, if_neg hmany] at hroot
      refine ⟨hroot, ?_⟩
      show (keccakLoop keccak256 _ _).2 = _
      rw [hpaths, List.map_map]
      refine List.map_congr_left ?_
      intro i _
      show [] ++ DuplicatedMerkle.siblings (keccakNode keccak256) (a :: b :: rest) i _ = _
      rw [List.nil_append, DuplicatedMerkle.siblings, if_neg hmany]
      rfl

end

end NilStore.Gateway
