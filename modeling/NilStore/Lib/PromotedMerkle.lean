import Mathlib.Data.Set.Function
import Mathlib.Data.List.Basic
import Mathlib.Tactic.Common

/-!
# `NilStore.Lib.PromotedMerkle`: Merkle trees that promote a lonely node

A tree over a list of leaves whose length need not be a power of two. One layer up, two
neighbours become their parent, and a last node without a right neighbour becomes the node
above itself (`layerUp`). `root` climbs to the only node of the top layer.

The verifier knows the number of leaves `n` and the index `i` of one leaf, and with them the
shape: at each layer either a sibling is called for or the node is promoted. `foldPath`
climbs along a list of siblings and fails when one is called for and none is left; siblings
that no layer calls for are ignored. `pathLength n i` is the number that is called for
(`foldPath_isSome`).

Two results: the siblings that the tree itself has lead from each leaf to the root
(`foldPath_honestPath`), and two folds of one shape that reach the same root start at the
same leaf, if parents are never shared by two different pairs that were combined on the way
(`foldPath_inj`). Together they say that a fold that reaches the root of a tree starts at the
tree's own leaf (`leaf_of_foldPath`), and that the root determines the leaves (`root_inj`).
-/

set_option autoImplicit false

namespace NilStore.Lib.PromotedMerkle

variable {α : Type}

/-! ### The tree -/

/-- The layer above: neighbours combined, a lonely last node promoted. -/
def layerUp (node : α → α → α) : List α → List α
  | a :: b :: rest => node a b :: layerUp node rest
  | [a] => [a]
  | [] => []

/-- A level is half as long as the one below it, rounded up. -/
theorem length_layerUp (node : α → α → α) (l : List α) :
    (layerUp node l).length = (l.length + 1) / 2 := by
  induction l using layerUp.induct with
  | case1 a b rest ih =>
      rw [layerUp, List.length_cons, ih, List.length_cons, List.length_cons]
      omega
  | case2 a => simp [layerUp]
  | case3 => simp [layerUp]

/-- The root of the tree over the leaves; a tree without leaves has none. -/
def root (node : α → α → α) (l : List α) : Option α :=
  if l.length ≤ 1 then l.head? else root node (layerUp node l)
termination_by l.length
decreasing_by
  rw [length_layerUp]
  omega

/-- The pairs that are combined on the way to the root. -/
def treePairs (node : α → α → α) (l : List α) : List (α × α) :=
  if l.length ≤ 1 then [] else pairsOf l ++ treePairs node (layerUp node l)
termination_by l.length
decreasing_by
  rw [length_layerUp]
  omega
where
  /-- The neighbours of one layer. -/
  pairsOf : List α → List (α × α)
    | a :: b :: rest => (a, b) :: pairsOf rest
    | [_] => []
    | [] => []

/-! ### The fold -/

/-- The siblings that the fold from leaf `i` of `n` calls for. -/
def pathLength (n i : Nat) : Nat :=
  if n ≤ 1 then 0
  else (if i % 2 = 0 ∧ i + 1 = n then 0 else 1) + pathLength ((n + 1) / 2) (i / 2)
termination_by n
decreasing_by omega

/-- Climb from the node `x` at index `i` of a layer of `n` nodes to the root. -/
def foldPath (node : α → α → α) (n i : Nat) (x : α) (path : List α) : Option α :=
  if n ≤ 1 then some x
  else if i % 2 = 0 ∧ i + 1 = n then foldPath node ((n + 1) / 2) (i / 2) x path
  else
    match path with
    | [] => none
    | s :: rest =>
        foldPath node ((n + 1) / 2) (i / 2) (if i % 2 = 0 then node x s else node s x) rest
termination_by n
decreasing_by all_goals omega

/-- The pairs that the fold combines. -/
def foldPairs (node : α → α → α) (n i : Nat) (x : α) (path : List α) : List (α × α) :=
  if n ≤ 1 then []
  else if i % 2 = 0 ∧ i + 1 = n then foldPairs node ((n + 1) / 2) (i / 2) x path
  else
    match path with
    | [] => []
    | s :: rest =>
        let pair := if i % 2 = 0 then (x, s) else (s, x)
        pair :: foldPairs node ((n + 1) / 2) (i / 2) (node pair.1 pair.2) rest
termination_by n
decreasing_by all_goals omega

section Equations

variable (node : α → α → α) {n i : Nat} (x s : α) (path : List α)

/-- At the top of the tree the fold is over, whatever is left of the path. -/
theorem foldPath_top (h : n ≤ 1) : foldPath node n i x path = some x := by
  rw [foldPath.eq_def, if_pos h]

/-- A promoted node climbs one level without taking a step of the path. -/
theorem foldPath_promote (h : ¬n ≤ 1) (hlast : i % 2 = 0 ∧ i + 1 = n) :
    foldPath node n i x path = foldPath node ((n + 1) / 2) (i / 2) x path := by
  rw [foldPath.eq_def, if_neg h, if_pos hlast]

/-- A path that is too short for the level gives nothing. -/
theorem foldPath_nil (h : ¬n ≤ 1) (hlast : ¬(i % 2 = 0 ∧ i + 1 = n)) :
    foldPath node n i x [] = none := by
  rw [foldPath.eq_def, if_neg h, if_neg hlast]

/-- A node with a sibling takes one step of the path, on the side its index says. -/
theorem foldPath_cons (h : ¬n ≤ 1) (hlast : ¬(i % 2 = 0 ∧ i + 1 = n)) :
    foldPath node n i x (s :: path) =
      foldPath node ((n + 1) / 2) (i / 2) (if i % 2 = 0 then node x s else node s x) path := by
  rw [foldPath.eq_def, if_neg h, if_neg hlast]

/-- At the top of the tree there is no pair left to hash. -/
theorem foldPairs_top (h : n ≤ 1) : foldPairs node n i x path = [] := by
  rw [foldPairs.eq_def, if_pos h]

/-- A promoted node climbs one level without hashing a pair. -/
theorem foldPairs_promote (h : ¬n ≤ 1) (hlast : i % 2 = 0 ∧ i + 1 = n) :
    foldPairs node n i x path = foldPairs node ((n + 1) / 2) (i / 2) x path := by
  rw [foldPairs.eq_def, if_neg h, if_pos hlast]

/-- A node with a sibling hashes one pair, in the order its index says. -/
theorem foldPairs_cons (h : ¬n ≤ 1) (hlast : ¬(i % 2 = 0 ∧ i + 1 = n)) :
    foldPairs node n i x (s :: path) =
      (if i % 2 = 0 then (x, s) else (s, x)) ::
        foldPairs node ((n + 1) / 2) (i / 2) (if i % 2 = 0 then node x s else node s x) path := by
  rw [foldPairs.eq_def, if_neg h, if_neg hlast]
  by_cases hi : i % 2 = 0
  · simp only [if_pos hi]
  · simp only [if_neg hi]

/-- At the top of the tree the path is empty. -/
theorem pathLength_top (h : n ≤ 1) : pathLength n i = 0 := by
  rw [pathLength, if_pos h]

/-- A promoted node needs no step of the path at its level. -/
theorem pathLength_promote (h : ¬n ≤ 1) (hlast : i % 2 = 0 ∧ i + 1 = n) :
    pathLength n i = pathLength ((n + 1) / 2) (i / 2) := by
  rw [pathLength, if_neg h, if_pos hlast, Nat.zero_add]

/-- A node with a sibling needs one step of the path at its level. -/
theorem pathLength_cons (h : ¬n ≤ 1) (hlast : ¬(i % 2 = 0 ∧ i + 1 = n)) :
    pathLength n i = pathLength ((n + 1) / 2) (i / 2) + 1 := by
  rw [pathLength, if_neg h, if_neg hlast, Nat.add_comm]

end Equations

/-- The fold reaches a root exactly when it is given the siblings it calls for. -/
theorem foldPath_isSome (node : α → α → α) (n i : Nat) (x : α) (path : List α) :
    (foldPath node n i x path).isSome ↔ pathLength n i ≤ path.length := by
  induction n, i, x, path using foldPath.induct node with
  | case1 n i x path h =>
      rw [foldPath_top node x path h, pathLength_top h]
      simp
  | case2 n i x path h hlast ih =>
      rw [foldPath_promote node x path h hlast, pathLength_promote h hlast, ih]
  | case3 n i x h hlast =>
      rw [foldPath_nil node x h hlast, pathLength_cons h hlast]
      simp
  | case4 n i x h hlast s rest ih =>
      rw [foldPath_cons node x s rest h hlast, pathLength_cons h hlast, List.length_cons,
        Nat.add_le_add_iff_right]
      exact ih

/-- Two folds of one shape that reach the same root start at the same node, when the pairs
that they combine are determined by their parents. -/
theorem foldPath_inj {node : α → α → α} {S : Set (α × α)}
    (hS : Set.InjOn (fun p => node p.1 p.2) S) {n i : Nat} {x y r : α} {p q : List α}
    (hp : ∀ e ∈ foldPairs node n i x p, e ∈ S) (hq : ∀ e ∈ foldPairs node n i y q, e ∈ S)
    (hx : foldPath node n i x p = some r) (hy : foldPath node n i y q = some r) : x = y := by
  -- the induction follows the fold; the second path has the same shape
  induction n, i, x, p using foldPath.induct node generalizing y q with
  | case1 n i x p h =>
      rw [foldPath_top _ _ _ h] at hx hy
      exact (Option.some.inj hx).trans (Option.some.inj hy).symm
  | case2 n i x p h hlast ih =>
      rw [foldPath_promote _ _ _ h hlast] at hx hy
      rw [foldPairs_promote _ _ _ h hlast] at hp hq
      exact ih hp hq hx hy
  | case3 n i x h hlast =>
      rw [foldPath_nil _ _ h hlast] at hx
      cases hx
  | case4 n i x h hlast s p ih =>
      cases q with
      | nil =>
          rw [foldPath_nil _ _ h hlast] at hy
          cases hy
      | cons t q =>
          rw [foldPath_cons _ _ _ _ h hlast] at hx hy
          rw [foldPairs_cons _ _ _ _ h hlast] at hp hq
          simp only [List.mem_cons, forall_eq_or_imp] at hp hq
          -- The parents agree by induction, and the parent determines the pair.
          by_cases hi : i % 2 = 0
          · rw [dif_pos hi] at ih
            simp only [if_pos hi] at hx hy hp hq
            have hpar := ih hp.2 hq.2 hx hy
            have hpair := hS hp.1 hq.1 hpar
            exact (Prod.mk.inj hpair).1
          · rw [dif_neg hi] at ih
            simp only [if_neg hi] at hx hy hp hq
            have hpar := ih hp.2 hq.2 hx hy
            have hpair := hS hp.1 hq.1 hpar
            exact (Prod.mk.inj hpair).2

/-! ### The tree's own siblings -/

/-- The siblings that the tree has for its leaf `i`, from the leaf up. -/
def honestPath (node : α → α → α) (l : List α) (i : Nat) : List α :=
  if l.length ≤ 1 then []
  else if i % 2 = 0 ∧ i + 1 = l.length then honestPath node (layerUp node l) (i / 2)
  else
    (l[if i % 2 = 0 then i + 1 else i - 1]?).toList ++ honestPath node (layerUp node l) (i / 2)
termination_by l.length
decreasing_by
  all_goals
    rw [length_layerUp]
    omega

/-- The tree has the siblings that the fold calls for, and no others. -/
theorem length_honestPath (node : α → α → α) (l : List α) {i : Nat} (h : i < l.length) :
    (honestPath node l i).length = pathLength l.length i := by
  -- the induction follows the layers
  induction l, i using honestPath.induct node with
  | case1 l i hone =>
      rw [honestPath, if_pos hone, pathLength_top hone]
      rfl
  | case2 l i hmore hlast ih =>
      have hup : i / 2 < (layerUp node l).length := by
        rw [length_layerUp]
        omega
      rw [honestPath, if_neg hmore, if_pos hlast, pathLength_promote hmore hlast, ih hup,
        length_layerUp]
  | case3 l i hmore hlast ih =>
      have hup : i / 2 < (layerUp node l).length := by
        rw [length_layerUp]
        omega
      have hsibling : (if i % 2 = 0 then i + 1 else i - 1) < l.length := by
        split <;> omega
      rw [honestPath, if_neg hmore, if_neg hlast, pathLength_cons hmore hlast,
        List.length_append, ih hup, length_layerUp, List.getElem?_eq_getElem hsibling, Nat.add_comm]
      rfl

/-- What holds of the leaves and of every parent holds of a layer. -/
theorem forall_layerUp {node : α → α → α} {P : α → Prop} (hnode : ∀ a b, P (node a b)) {l : List α}
    (h : ∀ x ∈ l, P x) : ∀ x ∈ layerUp node l, P x := by
  induction l using layerUp.induct with
  | case1 a b rest ih =>
      intro x hx
      rw [layerUp] at hx
      rcases List.mem_cons.mp hx with rfl | hx
      · exact hnode a b
      · exact ih (fun y hy => h y (List.mem_cons_of_mem _ (List.mem_cons_of_mem _ hy))) x hx
  | case2 a => exact h
  | case3 => exact h

/-- What holds of the leaves and of every parent holds of the siblings of a leaf. -/
theorem forall_honestPath {node : α → α → α} {P : α → Prop} (hnode : ∀ a b, P (node a b))
    {l : List α} (h : ∀ x ∈ l, P x) (i : Nat) : ∀ x ∈ honestPath node l i, P x := by
  induction l, i using honestPath.induct node with
  | case1 l i hone =>
      rw [honestPath, if_pos hone]
      exact fun x hx => absurd hx List.not_mem_nil
  | case2 l i hmore hlast ih =>
      rw [honestPath, if_neg hmore, if_pos hlast]
      exact ih (forall_layerUp hnode h)
  | case3 l i hmore hlast ih =>
      intro x hx
      rw [honestPath, if_neg hmore, if_neg hlast] at hx
      rcases List.mem_append.mp hx with hx | hx
      · exact h x (List.mem_of_getElem? (Option.mem_toList.mp hx))
      · exact ih (forall_layerUp hnode h) x hx

/-- What holds of the leaves and of every parent holds of the root. -/
theorem forall_root {node : α → α → α} {P : α → Prop} (hnode : ∀ a b, P (node a b)) {l : List α}
    (h : ∀ x ∈ l, P x) {r : α} (hr : root node l = some r) : P r := by
  induction l using root.induct node with
  | case1 l hone =>
      rw [root, if_pos hone] at hr
      exact h r (List.mem_of_mem_head? hr)
  | case2 l hmore ih =>
      rw [root, if_neg hmore] at hr
      exact ih (forall_layerUp hnode h) hr

/-- The node above index `i` is the parent of the two neighbours at `i`, or the promoted
last node. -/
theorem getElem?_layerUp (node : α → α → α) (l : List α) (j : Nat) :
    (layerUp node l)[j]? = match l[2 * j]?, l[2 * j + 1]? with
      | some a, some b => some (node a b)
      | some a, none => some a
      | none, _ => none := by
  induction l using layerUp.induct generalizing j with
  | case1 a b rest ih =>
      cases j with
      | zero => simp [layerUp]
      | succ j =>
          have h1 : 2 * (j + 1) = 2 * j + 1 + 1 := by omega
          rw [layerUp, List.getElem?_cons_succ, ih, h1, List.getElem?_cons_succ,
            List.getElem?_cons_succ, List.getElem?_cons_succ, List.getElem?_cons_succ]
  | case2 a => cases j <;> simp [layerUp]
  | case3 => simp [layerUp]

/-- Two neighbours at an even index are a pair of the level. -/
theorem mem_pairsOf {l : List α} {j : Nat} {a b : α} (ha : l[2 * j]? = some a)
    (hb : l[2 * j + 1]? = some b) : (a, b) ∈ treePairs.pairsOf l := by
  induction l using layerUp.induct generalizing j with
  | case1 c d rest ih =>
      rw [treePairs.pairsOf]
      cases j with
      | zero =>
          simp only [Nat.mul_zero, List.getElem?_cons_zero, Option.some.injEq, Nat.zero_add,
            List.getElem?_cons_succ] at ha hb
          rw [ha, hb]
          exact List.mem_cons_self
      | succ j =>
          have h1 : 2 * (j + 1) = 2 * j + 1 + 1 := by omega
          rw [h1] at ha hb
          exact List.mem_cons_of_mem _ (ih ha hb)
  | case2 c => cases j <;> simp at hb
  | case3 => simp at ha

/-- The tree's own siblings lead from each of its leaves to its root, and every pair
combined on the way is a pair of the tree. -/
theorem foldPath_honestPath (node : α → α → α) (l : List α) {i : Nat} {x : α}
    (hx : l[i]? = some x) :
    foldPath node l.length i x (honestPath node l i) = root node l ∧
      ∀ e ∈ foldPairs node l.length i x (honestPath node l i), e ∈ treePairs node l := by
  -- the induction follows the layers, from the leaf up
  induction l, i using honestPath.induct node generalizing x with
  | case1 l i h =>
      have hi : i = 0 := by
        have := (List.getElem?_eq_some_iff.mp hx).1
        omega
      subst hi
      rw [foldPath_top _ _ _ h, foldPairs_top _ _ _ h, root, if_pos h, List.head?_eq_getElem?, hx]
      simp
  | case2 l i h hlast ih =>
      rw [foldPath_promote _ _ _ h hlast, foldPairs_promote _ _ _ h hlast, honestPath, root,
        treePairs, if_neg h, if_neg h, if_neg h, if_pos hlast]
      -- The last node is its own node one layer up.
      have hup : (layerUp node l)[i / 2]? = some x := by
        have hi : 2 * (i / 2) = i := by omega
        have hnone : l[i + 1]? = none := List.getElem?_eq_none (by omega)
        rw [getElem?_layerUp, hi, hx, hnone]
      obtain ⟨hfold, hpairs⟩ := ih hup
      rw [length_layerUp] at hfold hpairs
      exact ⟨hfold, fun e he => List.mem_append_right _ (hpairs e he)⟩
  | case3 l i h hlast ih =>
      have hlen := (List.getElem?_eq_some_iff.mp hx).1
      rw [honestPath, root, treePairs, if_neg h, if_neg h, if_neg h, if_neg hlast]
      -- a left child is combined with the node behind it, a right one with the node before it
      by_cases hi : i % 2 = 0
      · obtain ⟨s, hs⟩ : ∃ s, l[i + 1]? = some s :=
          ⟨l.get ⟨i + 1, by omega⟩, List.getElem?_eq_getElem _⟩
        have hdiv : 2 * (i / 2) = i := by omega
        have hup : (layerUp node l)[i / 2]? = some (node x s) := by
          rw [getElem?_layerUp, hdiv, hx, hs]
        obtain ⟨hfold, hpairs⟩ := ih hup
        rw [length_layerUp] at hfold hpairs
        rw [if_pos hi, hs, Option.toList_some, List.singleton_append, foldPath_cons _ _ _ _ h hlast,
          foldPairs_cons _ _ _ _ h hlast, if_pos hi, if_pos hi]
        simp only [List.mem_cons, forall_eq_or_imp, List.mem_append]
        refine ⟨hfold, Or.inl (mem_pairsOf (j := i / 2) ?_ ?_), fun e he => Or.inr (hpairs e he)⟩
        · rw [hdiv, hx]
        · rw [hdiv, hs]
      · obtain ⟨s, hs⟩ : ∃ s, l[i - 1]? = some s :=
          ⟨l.get ⟨i - 1, by omega⟩, List.getElem?_eq_getElem _⟩
        have hdiv : 2 * (i / 2) = i - 1 := by omega
        have hdiv' : 2 * (i / 2) + 1 = i := by omega
        have hup : (layerUp node l)[i / 2]? = some (node s x) := by
          rw [getElem?_layerUp, hdiv', hdiv, hx, hs]
        obtain ⟨hfold, hpairs⟩ := ih hup
        rw [length_layerUp] at hfold hpairs
        rw [if_neg hi, hs, Option.toList_some, List.singleton_append, foldPath_cons _ _ _ _ h hlast,
          foldPairs_cons _ _ _ _ h hlast, if_neg hi, if_neg hi]
        simp only [List.mem_cons, forall_eq_or_imp, List.mem_append]
        refine ⟨hfold, Or.inl (mem_pairsOf (j := i / 2) ?_ ?_), fun e he => Or.inr (hpairs e he)⟩
        · rw [hdiv, hs]
        · rw [hdiv', hx]

/-- A fold that reaches the root of a tree starts at the leaf of the tree, when the pairs
combined by the fold and by the tree are determined by their parents. -/
theorem leaf_of_foldPath {node : α → α → α} {S : Set (α × α)}
    (hS : Set.InjOn (fun p => node p.1 p.2) S) {l : List α} {i : Nat} {x y r : α} {p : List α}
    (htree : ∀ e ∈ treePairs node l, e ∈ S) (hp : ∀ e ∈ foldPairs node l.length i x p, e ∈ S)
    (hfold : foldPath node l.length i x p = some r) (hroot : root node l = some r)
    (hy : l[i]? = some y) : x = y := by
  obtain ⟨hhonest, hpairs⟩ := foldPath_honestPath node l hy
  rw [hroot] at hhonest
  exact foldPath_inj hS hp (fun e he => htree e (hpairs e he)) hfold hhonest

/-- Two trees of one shape with the same root have the same leaves, when the pairs that they combine
are determined by their parents. -/
theorem root_inj {node : α → α → α} {S : Set (α × α)} (hS : Set.InjOn (fun p => node p.1 p.2) S)
    {l l' : List α} {r : α} (hl : ∀ e ∈ treePairs node l, e ∈ S)
    (hl' : ∀ e ∈ treePairs node l', e ∈ S)
    (hlength : l'.length = l.length) (hroot : root node l = some r)
    (hroot' : root node l' = some r) :
    l' = l := by
  refine List.ext_getElem hlength fun i hi' hi => ?_
  obtain ⟨hfold, hpairs⟩ := foldPath_honestPath node l' (List.getElem?_eq_getElem hi')
  rw [hlength] at hfold hpairs
  rw [hroot'] at hfold
  exact leaf_of_foldPath hS hl (fun e he => hl' e (hpairs e he)) hfold hroot
    (List.getElem?_eq_getElem hi)

end NilStore.Lib.PromotedMerkle
