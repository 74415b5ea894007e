import Mathlib.Data.Set.Lattice
import Mathlib.Order.CompletePartialOrder
import Mathlib.Order.Interval.Set.Disjoint

/-!
# `NilStore.Lib.Extents`: lists of disjoint sets

Sets in a list are disjoint where no two of them meet, whatever their order. A set may be split in
two: one half takes its place, and the other goes to the end. The sets are disjoint as before, and
cover the same (`pairwise_disjoint_split`, `covered_split`).
-/

set_option autoImplicit false

namespace NilStore.Lib

variable {α : Type} {l l' : List (Set α)} {s t : Set α}

/-- What the sets of a list cover. -/
def covered (l : List (Set α)) : Set α := {x | ∃ s ∈ l, x ∈ s}

/-- No extents cover nothing. -/
@[simp] theorem covered_nil : covered ([] : List (Set α)) = ∅ := by
  ext x
  simp [covered]

/-- The first extent and the others together cover what the list covers. -/
@[simp] theorem covered_cons : covered (s :: l) = s ∪ covered l := by
  ext x
  simp [covered]

/-- Two lists of extents together cover what each of them covers. -/
@[simp] theorem covered_append : covered (l ++ l') = covered l ∪ covered l' := by
  ext x
  simp [covered, or_and_right, exists_or]

/-- A list around one of its places. -/
theorem eq_take_cons_drop {i : Nat} (h : i < l.length) :
    l = l.take i ++ l[i] :: l.drop (i + 1) := by
  rw [← List.drop_eq_getElem_cons h, List.take_append_drop]

/-- Splitting a set keeps what is covered. -/
theorem covered_split {i : Nat} (h : i < l.length) (hunion : s ∪ t = l[i]) :
    covered (l.set i s ++ [t]) = covered l := by
  conv_rhs => rw [eq_take_cons_drop h]
  rw [List.set_eq_take_append_cons_drop, if_pos h]
  simp only [covered_append, covered_cons, covered_nil, ← hunion]
  ext x
  simp only [Set.mem_union, Set.mem_empty_iff_false]
  tauto

/-- Splitting a set in two that do not meet keeps the sets disjoint. -/
theorem pairwise_disjoint_split {i : Nat} (h : i < l.length) (hunion : s ∪ t = l[i])
    (hst : Disjoint s t) (hl : l.Pairwise Disjoint) : (l.set i s ++ [t]).Pairwise Disjoint := by
  have hs : s ⊆ l[i] := hunion ▸ Set.subset_union_left
  have ht : t ⊆ l[i] := hunion ▸ Set.subset_union_right
  -- the sets before, the one that is split, and those behind it
  rw [eq_take_cons_drop h, List.pairwise_append, List.pairwise_cons] at hl
  obtain ⟨hfront, ⟨hmiddle, hback⟩, hacross⟩ := hl
  rw [List.set_eq_take_append_cons_drop, if_pos h, List.append_assoc, List.cons_append,
    List.pairwise_append, List.pairwise_cons, List.pairwise_append]
  refine ⟨hfront, ⟨?_, hback, List.pairwise_singleton _ _, ?_⟩, ?_⟩
  · intro u hu
    rcases List.mem_append.mp hu with hu | hu
    · exact (hmiddle u hu).mono_left hs
    · rw [List.mem_singleton.mp hu]
      exact hst
  · intro u hu v hv
    rw [List.mem_singleton.mp hv]
    exact ((hmiddle u hu).mono_left ht).symm
  · intro u hu v hv
    rcases List.mem_cons.mp hv with rfl | hv
    · exact (hacross u hu _ List.mem_cons_self).mono_right hs
    · rcases List.mem_append.mp hv with hv | hv
      · exact hacross u hu v (List.mem_cons_of_mem _ hv)
      · rw [List.mem_singleton.mp hv]
        exact (hacross u hu _ List.mem_cons_self).mono_right ht

/-- A set in the list does not meet what the others cover. -/
theorem disjoint_of_getElem (hl : l.Pairwise Disjoint) {i j : Nat} (hi : i < l.length)
    (hj : j < l.length) (hij : i ≠ j) : Disjoint l[i] l[j] := by
  rcases Nat.lt_or_gt_of_ne hij with h | h
  · exact List.pairwise_iff_getElem.mp hl i j hi hj h
  · exact (List.pairwise_iff_getElem.mp hl j i hj hi h).symm

end NilStore.Lib
