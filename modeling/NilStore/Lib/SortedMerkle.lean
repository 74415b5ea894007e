import Mathlib.Data.Set.Function
import Mathlib.Data.List.Induction
import Mathlib.Order.Lattice
import Mathlib.Tactic.Common

/-!
# `NilStore.Lib.SortedMerkle`: Merkle trees whose pairs are sorted

A binary tree over nodes with an order. The parent of two nodes is the hash of the pair with the
smaller node in front, so a path needs no bits: `climb` is told a node and siblings, and nothing
about sides. `Opens t u siblings` says that the siblings lead from the subtree `u` to the top of
`t`.

An opening climbs to the root (`Opens.climb_eq`). Conversely, a climb to the root follows an opening
(`opens_of_climb`), as long as the pairs that are hashed do not collide and no leaf is the parent of
a pair of the climb. It may stop at an inner node, since nothing tells the verifier where the leaves
are.
-/

set_option autoImplicit false

namespace NilStore.Lib.SortedMerkle

variable {α : Type} [LinearOrder α]

/-! ### Sorted pairs -/

/-- The two nodes, the smaller one first. -/
def sorted (a b : α) : α × α := if a ≤ b then (a, b) else (b, a)

/-- A pair is hashed the same way from both sides. -/
theorem sorted_comm (a b : α) : sorted a b = sorted b a := by
  rcases lt_trichotomy a b with hlt | rfl | hlt
  · simp [sorted, hlt.le, hlt.not_ge]
  · rfl
  · simp [sorted, hlt.le, hlt.not_ge]

/-- A sorted pair forgets the sides and nothing else. -/
theorem sorted_eq_sorted {a b c d : α} (h : sorted a b = sorted c d) :
    (a = c ∧ b = d) ∨ (a = d ∧ b = c) := by
  unfold sorted at h
  split at h <;> split at h <;> simp only [Prod.mk.injEq] at h
  · exact Or.inl h
  · exact Or.inr h
  · exact Or.inr h.symm
  · exact Or.inl h.symm

/-! ### Trees and climbs -/

/-- A binary tree with its leaves. -/
inductive Tree (α : Type) where
  | leaf (a : α)
  | node (left right : Tree α)

variable (hash : α × α → α)

/-- The node at the top. -/
def Tree.root : Tree α → α
  | .leaf a => a
  | .node left right => hash (sorted left.root right.root)

/-- The leaves, left to right. -/
def Tree.leaves : Tree α → List α
  | .leaf a => [a]
  | .node left right => left.leaves ++ right.leaves

/-- The pairs that are hashed in the tree. -/
def Tree.pairs : Tree α → List (α × α)
  | .leaf _ => []
  | .node left right => sorted (left.root hash) (right.root hash) :: (left.pairs ++ right.pairs)

/-- Combine a node with the siblings, one after the other. -/
def climb (x : α) (siblings : List α) : α := siblings.foldl (fun x s => hash (sorted x s)) x

/-- The pairs that a climb hashes. -/
def climbPairs : (x : α) → (siblings : List α) → List (α × α)
  | _, [] => []
  | x, s :: rest => sorted x s :: climbPairs (hash (sorted x s)) rest

/-- The siblings lead from the subtree to the top of the tree. -/
inductive Opens : Tree α → Tree α → List α → Prop where
  | here (t : Tree α) : Opens t t []
  | left {left right u : Tree α} {siblings : List α} (h : Opens left u siblings) :
      Opens (.node left right) u (siblings ++ [right.root hash])
  | right {left right u : Tree α} {siblings : List α} (h : Opens right u siblings) :
      Opens (.node left right) u (siblings ++ [left.root hash])

variable {hash}

/-- Without siblings the climb stays at the leaf. -/
@[simp] theorem climb_nil (x : α) : climb hash x [] = x := rfl

/-- The climb takes the first sibling first. -/
theorem climb_cons (x s : α) (rest : List α) :
    climb hash x (s :: rest) = climb hash (hash (sorted x s)) rest := rfl

/-- The climb takes the last sibling at the top. -/
theorem climb_snoc (x s : α) (siblings : List α) :
    climb hash x (siblings ++ [s]) = hash (sorted (climb hash x siblings) s) := by
  rw [climb, List.foldl_append]
  rfl

/-- The last pair of a climb is that of the last sibling. -/
theorem climbPairs_snoc (x s : α) (siblings : List α) :
    climbPairs hash x (siblings ++ [s]) =
      climbPairs hash x siblings ++ [sorted (climb hash x siblings) s] := by
  induction siblings generalizing x with
  | nil => rfl
  | cons t rest ih =>
      rw [List.cons_append, climbPairs, ih, climbPairs, climb_cons]
      rfl

/-! ### Completeness and soundness -/

/-- An opening climbs to the root. -/
theorem Opens.climb_eq {t u : Tree α} {siblings : List α} (h : Opens hash t u siblings) :
    climb hash (u.root hash) siblings = t.root hash := by
  induction h with
  | here t => rfl
  | left h ih => rw [climb_snoc, ih, Tree.root]
  | right h ih => rw [climb_snoc, ih, sorted_comm, Tree.root]

/-- A climb that ends at the root follows an opening of the tree. The induction is on the siblings
from the last one, which belongs to the top of the tree. -/
theorem opens_of_climb {S : Set (α × α)} (hS : Set.InjOn hash S) {t : Tree α} {x : α}
    {siblings : List α} (htree : ∀ e ∈ t.pairs hash, e ∈ S)
    (hclimb : ∀ e ∈ climbPairs hash x siblings, e ∈ S)
    (hleaves : ∀ a ∈ t.leaves, ∀ e ∈ climbPairs hash x siblings, a ≠ hash e)
    (h : climb hash x siblings = t.root hash) :
    ∃ u, Opens hash t u siblings ∧ u.root hash = x := by
  induction siblings using List.reverseRecOn generalizing t with
  | nil => exact ⟨t, .here t, h.symm⟩
  | append_singleton rest s ih =>
      rw [climb_snoc] at h
      rw [climbPairs_snoc] at hclimb hleaves
      have hlast : sorted (climb hash x rest) s ∈ S := hclimb _ (by simp)
      have hrest : ∀ e ∈ climbPairs hash x rest, e ∈ S :=
        fun e he => hclimb e (List.mem_append_left _ he)
      cases t with
      | leaf a => exact absurd h.symm (hleaves a (by simp [Tree.leaves]) _ (by simp))
      | node left right =>
          have htop : sorted (left.root hash) (right.root hash) ∈ S :=
            htree _ (by simp [Tree.pairs])
          -- no two pairs collide, so the last pair is the top pair of the tree
          have hpair := hS hlast htop h
          -- The last step ends in the top pair, so the climb before it ends in one of its two
          -- nodes.
          rcases sorted_eq_sorted hpair with ⟨hbelow, rfl⟩ | ⟨hbelow, rfl⟩
          · obtain ⟨u, hu, hroot⟩ := ih (t := left)
              (fun e he => htree e (by simp [Tree.pairs, he])) hrest
              (fun a ha e he => hleaves a (by simp [Tree.leaves, ha]) e (List.mem_append_left _ he))
              hbelow
            exact ⟨u, .left hu, hroot⟩
          · obtain ⟨u, hu, hroot⟩ := ih (t := right)
              (fun e he => htree e (by simp [Tree.pairs, he])) hrest
              (fun a ha e he => hleaves a (by simp [Tree.leaves, ha]) e (List.mem_append_left _ he))
              hbelow
            exact ⟨u, .right hu, hroot⟩

end NilStore.Lib.SortedMerkle
