import Mathlib.Data.Set.Function
import Mathlib.Data.List.Basic
import Mathlib.Tactic.Common

/-!
# `NilStore.Lib.DuplicatedMerkle`: Merkle trees that duplicate a lonely node

A tree over a list whose last node, on a layer of odd length, is combined with itself (`layerUp`).
`climb` goes from a node up along a list of siblings, and takes the sides from the bits of the
index. It is told neither the number of leaves nor the height of the tree, so it can be started at a
node that is no leaf, or go on past the root.

The siblings of the tree lead from each leaf to the root (`climb_siblings`). Conversely, a climb
that ends at the root has one of three shapes (`sound_tree`): it starts at an inner node of the
tree; or it is as long as the tree is high and starts at the leaf of its index; or it is longer, and
one of the nodes that it combines is a leaf. Where leaves and nodes can be told apart, only the
second is left.
-/

set_option autoImplicit false

namespace NilStore.Lib.DuplicatedMerkle

variable {α : Type}

/-! ### The tree -/

/-- The neighbours of a layer; a lonely last node is its own neighbour. -/
def pairsOf : List α → List (α × α)
  | a :: b :: rest => (a, b) :: pairsOf rest
  | [a] => [(a, a)]
  | [] => []

/-- The layer above. It is half as long, rounded up. -/
def layerUp (node : α → α → α) (l : List α) : List α := (pairsOf l).map fun e => node e.1 e.2

/-- A level has half as many pairs as nodes, rounded up. -/
theorem length_pairsOf (l : List α) : (pairsOf l).length = (l.length + 1) / 2 := by
  induction l using pairsOf.induct with
  | case1 a b rest ih =>
      rw [pairsOf, List.length_cons, ih, List.length_cons, List.length_cons]
      omega
  | case2 a => simp [pairsOf]
  | case3 => simp [pairsOf]

/-- A level is half as long as the one below it, rounded up. -/
theorem length_layerUp (node : α → α → α) (l : List α) :
    (layerUp node l).length = (l.length + 1) / 2 := by
  rw [layerUp, List.length_map, length_pairsOf]

/-- The pair at a place. -/
theorem getElem?_pairsOf {l : List α} {j : Nat} {a : α} (h : l[2 * j]? = some a) :
    (pairsOf l)[j]? = some (a, (l[2 * j + 1]?).getD a) := by
  induction l using pairsOf.induct generalizing j with
  | case1 b c rest ih =>
      cases j with
      | zero =>
          have hb : b = a := by simpa using h
          simp [pairsOf, hb]
      | succ j =>
          have hplace : 2 * (j + 1) = 2 * j + 1 + 1 := by omega
          rw [hplace] at h ⊢
          simp only [List.getElem?_cons_succ] at h
          rw [pairsOf, List.getElem?_cons_succ, ih h]
          simp only [List.getElem?_cons_succ]
  | case2 b =>
      cases j with
      | zero =>
          have hb : b = a := by simpa using h
          simp [pairsOf, hb]
      | succ j => simp at h
  | case3 => simp at h

/-- The nodes of a pair are nodes of the level. -/
theorem mem_of_mem_pairsOf {l : List α} {e : α × α} (h : e ∈ pairsOf l) : e.1 ∈ l ∧ e.2 ∈ l := by
  induction l using pairsOf.induct with
  | case1 a b rest ih =>
      rcases List.mem_cons.mp h with rfl | h
      · simp
      · obtain ⟨hleft, hright⟩ := ih h
        simp [hleft, hright]
  | case2 a =>
      rw [List.mem_singleton.mp h]
      simp
  | case3 => cases h

/-- The top of the layers from `l` up. Only an empty list has none. -/
def root (node : α → α → α) (l : List α) : Option α :=
  if l.length ≤ 1 then l.head? else root node (layerUp node l)
termination_by l.length
decreasing_by
  rw [length_layerUp]
  omega

/-- The number of layers above `l`. -/
def height (node : α → α → α) (l : List α) : Nat :=
  if l.length ≤ 1 then 0 else height node (layerUp node l) + 1
termination_by l.length
decreasing_by
  rw [length_layerUp]
  omega

/-- The pairs that are combined above `l`. -/
def pairsAbove (node : α → α → α) (l : List α) : List (α × α) :=
  if l.length ≤ 1 then [] else pairsOf l ++ pairsAbove node (layerUp node l)
termination_by l.length
decreasing_by
  rw [length_layerUp]
  omega

/-- The sibling of index `i` in a layer. -/
def sibling (l : List α) (i : Nat) (x : α) : α :=
  if i % 2 = 0 then (l[i + 1]?).getD x else (l[i - 1]?).getD x

/-- The siblings on the way from index `i` of `l` to the top. -/
def siblings (node : α → α → α) (l : List α) (i : Nat) (x : α) : List α :=
  if l.length ≤ 1 then []
  else
    let s := sibling l i x
    s :: siblings node (layerUp node l) (i / 2) (if i % 2 = 0 then node x s else node s x)
termination_by l.length
decreasing_by
  rw [length_layerUp]
  omega

/-! ### The climb -/

/-- Combine a node with the siblings, one after the other. The bits of the index say on which side
the node stands. -/
def climb (node : α → α → α) : (index : Nat) → α → List α → α
  | _, x, [] => x
  | i, x, s :: rest => climb node (i / 2) (if i % 2 = 0 then node x s else node s x) rest

/-- The pairs that a climb combines. -/
def climbPairs (node : α → α → α) : (index : Nat) → α → List α → List (α × α)
  | _, _, [] => []
  | i, x, s :: rest =>
      let e := if i % 2 = 0 then (x, s) else (s, x)
      e :: climbPairs node (i / 2) (node e.1 e.2) rest

/-- One step up combines the pair of the node and its sibling. -/
theorem climb_cons (node : α → α → α) (i : Nat) (x s : α) (rest : List α) :
    climb node i x (s :: rest) = climb node (i / 2)
      (node (if i % 2 = 0 then (x, s) else (s, x)).1
        (if i % 2 = 0 then (x, s) else (s, x)).2) rest := by
  rw [climb]
  by_cases hi : i % 2 = 0
  · rw [if_pos hi, if_pos hi]
  · rw [if_neg hi, if_neg hi]

/-- A climb of some length ends with the parent of a pair. -/
theorem climb_eq_node (node : α → α → α) (i : Nat) (x s : α) (rest : List α) :
    ∃ e ∈ climbPairs node i x (s :: rest), climb node i x (s :: rest) = node e.1 e.2 := by
  induction rest generalizing i x s with
  | nil => exact ⟨_, List.mem_cons_self, climb_cons node i x s []⟩
  | cons t rest ih =>
      obtain ⟨e, he, hend⟩ := ih (i / 2)
        (node (if i % 2 = 0 then (x, s) else (s, x)).1 (if i % 2 = 0 then (x, s) else (s, x)).2) t
      refine ⟨e, List.mem_cons_of_mem _ he, ?_⟩
      rw [climb_cons]
      exact hend

/-- In each pair of a climb there is its start or the parent of a pair of it. -/
theorem climbPairs_source (node : α → α → α) (i : Nat) (x : α) (p : List α) :
    ∀ e ∈ climbPairs node i x p, ∃ y, (y = e.1 ∨ y = e.2) ∧
      (y = x ∨ ∃ e' ∈ climbPairs node i x p, y = node e'.1 e'.2) := by
  induction p generalizing i x with
  | nil =>
      intro e he
      cases he
  | cons s rest ih =>
      intro e he
      rcases List.mem_cons.mp he with rfl | he
      · refine ⟨x, ?_, Or.inl rfl⟩
        by_cases hi : i % 2 = 0
        · rw [if_pos hi]
          exact Or.inl rfl
        · rw [if_neg hi]
          exact Or.inr rfl
      · obtain ⟨y, hy, hsource⟩ := ih _ _ e he
        refine ⟨y, hy, Or.inr ?_⟩
        rcases hsource with hstart | ⟨e', he', hparent⟩
        · exact ⟨_, List.mem_cons_self, hstart⟩
        · exact ⟨e', List.mem_cons_of_mem _ he', hparent⟩

/-- The parent of the node at index `i` and its sibling is the node above. -/
theorem getElem?_layerUp {node : α → α → α} {l : List α} {i : Nat} {x : α} (h : l[i]? = some x) :
    (layerUp node l)[i / 2]? =
      some (if i % 2 = 0 then node x (sibling l i x) else node (sibling l i x) x) := by
  rw [layerUp, List.getElem?_map, sibling]
  by_cases hi : i % 2 = 0
  · have hplace : 2 * (i / 2) = i := by omega
    have hpair := getElem?_pairsOf (l := l) (j := i / 2) (a := x) (by rw [hplace]; exact h)
    rw [hpair, hplace, if_pos hi, if_pos hi]
    rfl
  · have hplace : 2 * (i / 2) = i - 1 := by omega
    have hplace' : i - 1 + 1 = i := by omega
    have hlt := (List.getElem?_eq_some_iff.mp h).1
    obtain ⟨y, hy⟩ : ∃ y, l[i - 1]? = some y :=
      ⟨l.get ⟨i - 1, by omega⟩, List.getElem?_eq_getElem _⟩
    have hpair := getElem?_pairsOf (l := l) (j := i / 2) (a := y) (by rw [hplace]; exact hy)
    rw [hpair, hplace, hplace', h, if_neg hi, if_neg hi, hy]
    rfl

/-- The tree's own siblings lead from each of its nodes to the top. -/
theorem climb_siblings (node : α → α → α) (l : List α) {i : Nat} {x : α} (hx : l[i]? = some x) :
    root node l = some (climb node i x (siblings node l i x)) := by
  induction l using root.induct node generalizing i x with
  | case1 l h =>
      have hi : i = 0 := by
        have hlt := (List.getElem?_eq_some_iff.mp hx).1
        omega
      rw [root, siblings, if_pos h, if_pos h, List.head?_eq_getElem?, ← hi, hx, climb]
  | case2 l h ih =>
      rw [root, siblings, if_neg h, if_neg h]
      exact ih (getElem?_layerUp hx)

/-- A sibling is a node of the layer or the node itself. -/
theorem forall_sibling {P : α → Prop} (l : List α) (i : Nat) (x : α) (hl : ∀ y ∈ l, P y)
    (hx : P x) : P (sibling l i x) := by
  have hget : ∀ j : Nat, P ((l[j]?).getD x) := by
    intro j
    cases hj : l[j]? with
    | none => exact hx
    | some y => exact hl y (List.mem_of_getElem? hj)
  rw [sibling]
  split
  · exact hget (i + 1)
  · exact hget (i - 1)

/-- What holds of the nodes of a layer and of every parent holds of the siblings on a way up. -/
theorem forall_mem_siblings (P : α → Prop) (node : α → α → α) (hnode : ∀ a b, P (node a b))
    (l : List α) (i : Nat) (x : α) (hl : ∀ y ∈ l, P y) (hx : P x) :
    ∀ s ∈ siblings node l i x, P s := by
  induction l using root.induct node generalizing i x with
  | case1 l h =>
      intro s hs
      rw [siblings, if_pos h] at hs
      cases hs
  | case2 l h ih =>
      intro s hs
      rw [siblings, if_neg h] at hs
      rcases List.mem_cons.mp hs with rfl | hs
      · exact forall_sibling l i x hl hx
      · refine ih (i / 2) _ ?_ ?_ s hs
        · intro y hy
          obtain ⟨e, -, rfl⟩ := List.mem_map.mp hy
          exact hnode _ _
        · split
          · exact hnode _ _
          · exact hnode _ _

/-! ### Climbs that end at the root -/

/-- What a climb to `r` from a layer that is `d` below it looks like: it starts at a parent among
`pairs`, or at its index of the layer, or one of the parents that it makes is in the layer. -/
def Sound (node : α → α → α) (S : Set (α × α)) (l : List α) (pairs : List (α × α)) (r : α)
    (d : Nat) : Prop :=
  ∀ (i : Nat) (x : α) (p : List α), (∀ e ∈ climbPairs node i x p, e ∈ S) → climb node i x p = r →
    (p.length < d ∧ ∃ e ∈ pairs, x = node e.1 e.2) ∨
    (p.length = d ∧ (i < l.length → l[i]? = some x)) ∨
    (d < p.length ∧ ∃ e ∈ climbPairs node i x p, node e.1 e.2 ∈ l)

variable {node : α → α → α} {S : Set (α × α)} {l : List α} {pairs : List (α × α)} {r : α} {d : Nat}

/-- The top of the tree. -/
theorem sound_top (node : α → α → α) (S : Set (α × α)) (pairs : List (α × α)) (r : α) :
    Sound node S [r] pairs r 0 := by
  intro i x p hp hclimb
  cases p with
  | nil =>
      right
      left
      refine ⟨rfl, ?_⟩
      intro hi
      have hzero : i = 0 := by simpa using hi
      have hx : x = r := hclimb
      simp [hzero, hx]
  | cons s rest =>
      right
      right
      obtain ⟨e, he, hend⟩ := climb_eq_node node i x s rest
      refine ⟨Nat.succ_pos _, e, he, ?_⟩
      rw [← hend, hclimb]
      exact List.mem_singleton_self r

/-- From one layer to the layer below it. The nodes of the pairs above are parents. Each of the
three ways in which a climb can end in the layer above becomes one in this layer: the node is a
parent of some pair, it is the node at the index, or a pair of the climb is one of the tree. -/
theorem sound_below (hS : Set.InjOn (fun e => node e.1 e.2) S) (hpairs : ∀ e ∈ pairs, e ∈ S)
    (hlayer : ∀ e ∈ pairsOf l, e ∈ S)
    (hnodes : ∀ e ∈ pairs, (∃ e' ∈ pairsOf l ++ pairs, e.1 = node e'.1 e'.2) ∧
      ∃ e' ∈ pairsOf l ++ pairs, e.2 = node e'.1 e'.2)
    (h : Sound node S (layerUp node l) pairs r d) (hne : l ≠ []) :
    Sound node S l (pairsOf l ++ pairs) r (d + 1) := by
  intro i x p hp hclimb
  -- the climb is over, so the node is the top itself
  cases p with
  | nil =>
      left
      refine ⟨Nat.succ_pos d, ?_⟩
      rcases h 0 x [] hp hclimb with ⟨-, e, he, hx⟩ | ⟨-, hx⟩ | ⟨hlt, -⟩
      · exact ⟨e, List.mem_append_right _ he, hx⟩
      · have hpos : 0 < (layerUp node l).length := by
          have hlength := List.length_pos_iff.mpr hne
          rw [length_layerUp]
          omega
        have hmem := List.mem_of_getElem? (hx hpos)
        obtain ⟨e, he, hparent⟩ := List.mem_map.mp hmem
        exact ⟨e, List.mem_append_left _ he, hparent.symm⟩
      · exact absurd hlt (Nat.not_lt_zero d)
  -- the first pair of the climb, and the climb from its parent
  | cons s rest =>
      have hfirst : (if i % 2 = 0 then (x, s) else (s, x)) ∈ S := hp _ List.mem_cons_self
      have hrest : ∀ e ∈ climbPairs node (i / 2)
          (node (if i % 2 = 0 then (x, s) else (s, x)).1
            (if i % 2 = 0 then (x, s) else (s, x)).2) rest,
          e ∈ S :=
        fun e he => hp e (List.mem_cons_of_mem _ he)
      rw [climb_cons] at hclimb
      rcases h _ _ rest hrest hclimb with ⟨hlt, e, he, hparent⟩ | ⟨hlength, hplace⟩ |
        ⟨hlt, e, he, hmem⟩
      · -- The first parent is one above the layer, so its children are parents.
        left
        refine ⟨Nat.succ_lt_succ hlt, ?_⟩
        have hpair := hS hfirst (hpairs e he) hparent
        obtain ⟨hleft, hright⟩ := hnodes e he
        by_cases hi : i % 2 = 0
        · rw [if_pos hi] at hpair
          rw [← hpair] at hleft
          exact hleft
        · rw [if_neg hi] at hpair
          rw [← hpair] at hright
          exact hright
      · -- The first parent is the node above the index, so its child is the node at the index.
        right
        left
        refine ⟨congrArg (· + 1) hlength, ?_⟩
        intro hi
        obtain ⟨y, hy⟩ : ∃ y, l[i]? = some y := ⟨l.get ⟨i, hi⟩, List.getElem?_eq_getElem _⟩
        have hup : i / 2 < (layerUp node l).length := by
          rw [length_layerUp]
          omega
        have habove := hplace hup
        rw [layerUp, List.getElem?_map] at habove
        obtain ⟨e, he, hparent⟩ := Option.map_eq_some_iff.mp habove
        have hpair := hS (hlayer e (List.mem_of_getElem? he)) hfirst hparent
        -- the index is the left child of its parent, or the right one
        by_cases heven : i % 2 = 0
        · have hplace : 2 * (i / 2) = i := by omega
          have hat := getElem?_pairsOf (l := l) (j := i / 2) (a := y) (by rw [hplace]; exact hy)
          rw [he] at hat
          rw [if_pos heven] at hpair
          have hyx := (congrArg Prod.fst (Option.some.inj hat)).symm.trans (congrArg Prod.fst hpair)
          rw [hy]
          exact congrArg some hyx
        · have hplace : 2 * (i / 2) = i - 1 := by omega
          have hplace' : i - 1 + 1 = i := by omega
          obtain ⟨z, hz⟩ : ∃ z, l[i - 1]? = some z :=
            ⟨l.get ⟨i - 1, by omega⟩, List.getElem?_eq_getElem _⟩
          have hat := getElem?_pairsOf (l := l) (j := i / 2) (a := z) (by rw [hplace]; exact hz)
          rw [he, hplace, hplace', hy] at hat
          rw [if_neg heven] at hpair
          have hyx := (congrArg Prod.snd (Option.some.inj hat)).symm.trans (congrArg Prod.snd hpair)
          rw [hy]
          exact congrArg some hyx
      · -- A parent of the climb is in the layer above, so the pair is one of the layer's.
        right
        right
        refine ⟨Nat.succ_lt_succ hlt, ?_⟩
        obtain ⟨e', he', hparent⟩ := List.mem_map.mp hmem
        have hpair : e' = e := hS (hlayer e' he') (hrest e he) hparent
        obtain ⟨hleft, hright⟩ := mem_of_mem_pairsOf he'
        rw [hpair] at hleft hright
        obtain ⟨y, hy, hsource⟩ := climbPairs_source node _ _ _ e he
        -- the node of the climb in that pair is in this layer
        have hyl : y ∈ l := by
          rcases hy with rfl | rfl
          · exact hleft
          · exact hright
        -- it is where the climb starts, or the parent of a pair before
        rcases hsource with hstart | ⟨e'', he'', hnode⟩
        · refine ⟨_, List.mem_cons_self, ?_⟩
          rw [← hstart]
          exact hyl
        · refine ⟨e'', List.mem_cons_of_mem _ he'', ?_⟩
          rw [← hnode]
          exact hyl

/-- The nodes of the pairs above a layer are nodes of the layer or parents of such pairs. -/
theorem mem_pairsAbove (node : α → α → α) (l : List α) :
    ∀ e ∈ pairsAbove node l, (e.1 ∈ l ∧ e.2 ∈ l) ∨
      ((∃ e' ∈ pairsAbove node l, e.1 = node e'.1 e'.2) ∧
        ∃ e' ∈ pairsAbove node l, e.2 = node e'.1 e'.2) := by
  induction l using pairsAbove.induct node with
  | case1 l h =>
      intro e he
      rw [pairsAbove, if_pos h] at he
      cases he
  | case2 l h ih =>
      intro e he
      rw [pairsAbove, if_neg h] at he ⊢
      rcases List.mem_append.mp he with he | he
      · exact Or.inl (mem_of_mem_pairsOf he)
      -- the nodes of the layer above are parents of the pairs of this one
      · have hlayer : ∀ x ∈ layerUp node l,
            ∃ e' ∈ pairsOf l ++ pairsAbove node (layerUp node l), x = node e'.1 e'.2 := by
          intro x hx
          obtain ⟨e', he', rfl⟩ := List.mem_map.mp hx
          exact ⟨e', List.mem_append_left _ he', rfl⟩
        right
        rcases ih e he with ⟨hleft, hright⟩ | ⟨⟨e₁, he₁, hleft⟩, e₂, he₂, hright⟩
        · exact ⟨hlayer _ hleft, hlayer _ hright⟩
        · exact ⟨⟨e₁, List.mem_append_right _ he₁, hleft⟩, e₂, List.mem_append_right _ he₂, hright⟩

/-- The nodes of the pairs above the next layer are parents. -/
theorem mem_pairsAbove_layerUp (node : α → α → α) (l : List α) :
    ∀ e ∈ pairsAbove node (layerUp node l),
      (∃ e' ∈ pairsOf l ++ pairsAbove node (layerUp node l), e.1 = node e'.1 e'.2) ∧
        ∃ e' ∈ pairsOf l ++ pairsAbove node (layerUp node l), e.2 = node e'.1 e'.2 := by
  intro e he
  have hlayer : ∀ x ∈ layerUp node l,
      ∃ e' ∈ pairsOf l ++ pairsAbove node (layerUp node l), x = node e'.1 e'.2 := by
    intro x hx
    obtain ⟨e', he', rfl⟩ := List.mem_map.mp hx
    exact ⟨e', List.mem_append_left _ he', rfl⟩
  rcases mem_pairsAbove node (layerUp node l) e he with ⟨hleft, hright⟩ |
    ⟨⟨e₁, he₁, hleft⟩, e₂, he₂, hright⟩
  · exact ⟨hlayer _ hleft, hlayer _ hright⟩
  · exact ⟨⟨e₁, List.mem_append_right _ he₁, hleft⟩, e₂, List.mem_append_right _ he₂, hright⟩

/-- Climbs to the top of the layers above `l`. -/
theorem sound_root (hS : Set.InjOn (fun e => node e.1 e.2) S) (l : List α) (r : α)
    (hroot : root node l = some r) (hpairs : ∀ e ∈ pairsAbove node l, e ∈ S) :
    Sound node S l (pairsAbove node l) r (height node l) := by
  -- the induction follows the layers up to the top
  induction l using root.induct node with
  | case1 l h =>
      rw [root, if_pos h] at hroot
      have hl : l = [r] := by
        cases l with
        | nil => cases hroot
        | cons a rest =>
            have hrest : rest = [] := by simpa using h
            rw [hrest, Option.some.inj hroot]
      rw [height, if_pos h, hl]
      exact sound_top node S _ r
  | case2 l h ih =>
      rw [root, if_neg h] at hroot
      rw [pairsAbove, if_neg h] at hpairs ⊢
      rw [height, if_neg h]
      have habove : ∀ e ∈ pairsAbove node (layerUp node l), e ∈ S :=
        fun e he => hpairs e (List.mem_append_right _ he)
      have hlayer : ∀ e ∈ pairsOf l, e ∈ S := fun e he => hpairs e (List.mem_append_left _ he)
      have hne : l ≠ [] := by
        intro hnil
        rw [hnil] at h
        exact h (Nat.zero_le 1)
      exact sound_below hS habove hlayer (mem_pairsAbove_layerUp node l) (ih hroot habove) hne

/-- A tree combines its leaves at least once, also when there is only one. -/
def treeRoot (node : α → α → α) (l : List α) : Option α := root node (layerUp node l)

/-- The pairs of a tree. -/
def treePairs (node : α → α → α) (l : List α) : List (α × α) :=
  pairsOf l ++ pairsAbove node (layerUp node l)

/-- The siblings of a leaf. -/
def treeSiblings (node : α → α → α) (l : List α) (i : Nat) (x : α) : List α :=
  sibling l i x :: siblings node (layerUp node l) (i / 2)
    (if i % 2 = 0 then node x (sibling l i x) else node (sibling l i x) x)

/-- The siblings of a leaf lead to the root. -/
theorem climb_treeSiblings (node : α → α → α) (l : List α) {i : Nat} {x : α} (hx : l[i]? = some x) :
    treeRoot node l = some (climb node i x (treeSiblings node l i x)) :=
  climb_siblings node (layerUp node l) (getElem?_layerUp hx)

/-- A climb to the root starts at an inner node, or at the leaf of its index, or makes a leaf. -/
theorem sound_tree (hS : Set.InjOn (fun e => node e.1 e.2) S) (hne : l ≠ [])
    (hroot : treeRoot node l = some r) (hpairs : ∀ e ∈ treePairs node l, e ∈ S) :
    Sound node S l (treePairs node l) r (height node (layerUp node l) + 1) := by
  have habove : ∀ e ∈ pairsAbove node (layerUp node l), e ∈ S :=
    fun e he => hpairs e (List.mem_append_right _ he)
  have hlayer : ∀ e ∈ pairsOf l, e ∈ S := fun e he => hpairs e (List.mem_append_left _ he)
  exact sound_below hS habove hlayer (mem_pairsAbove_layerUp node l)
    (sound_root hS (layerUp node l) r hroot habove) hne

end NilStore.Lib.DuplicatedMerkle
