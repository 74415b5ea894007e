import Mathlib.Data.List.DropRight
import NilStore.Lib.GoString

/-!
# `NilStore.Lib.Tokens`: trimming and cutting

A text is trimmed at both ends and cut at a separator. When the separator is not trimmed, the two
orders agree up to white space: the parts of a trimmed text trim to the same as the parts of the
text (`trimBoth_cut`).

`trimBoth` is over an arbitrary set of characters, since languages differ in what they take for
white space.
-/

set_option autoImplicit false

namespace NilStore.Lib

/-! ### Trimming -/

section Trim

variable {α : Type} {p q : α → Bool} {s a b : List α} {x : α}

/-- What is left between the first and the last element outside `p`. -/
def trimBoth (p : α → Bool) (s : List α) : List α := (s.dropWhile p).rdropWhile p

/-- Trimming only drops characters. -/
theorem trimBoth_subset (p : α → Bool) (s : List α) : trimBoth p s ⊆ s := fun _ hx =>
  (List.dropWhile_sublist p).subset ((List.rdropWhile_prefix p _).subset hx)

/-- Trimming depends on the elements of the list alone. -/
theorem trimBoth_congr (h : ∀ x ∈ s, p x = q x) : trimBoth p s = trimBoth q s := by
  have hdrop : ∀ {t : List α}, (∀ x ∈ t, p x = q x) → t.dropWhile p = t.dropWhile q := by
    intro t ht
    induction t with
    | nil => rfl
    | cons x t ih =>
        rw [List.dropWhile_cons, List.dropWhile_cons, ht x List.mem_cons_self,
          ih fun y hy => ht y (List.mem_cons_of_mem _ hy)]
  rw [trimBoth, trimBoth, List.rdropWhile, List.rdropWhile, hdrop h, hdrop fun x hx =>
    h x ((List.dropWhile_sublist q).subset (List.mem_reverse.mp hx))]

/-- An element outside `p` keeps what is behind it. -/
theorem dropWhile_append_cons (hx : p x = false) :
    (a ++ x :: b).dropWhile p = a.dropWhile p ++ x :: b := by
  rw [List.dropWhile_append]
  split
  · rename_i hempty
    rw [List.isEmpty_iff.mp hempty, List.nil_append, List.dropWhile_cons,
      if_neg (by rw [hx]; decide)]
  · rfl

/-- Dropping from the right stops at a character that stays. -/
theorem rdropWhile_append_cons (hx : p x = false) :
    (a ++ x :: b).rdropWhile p = a ++ x :: b.rdropWhile p := by
  rw [List.rdropWhile, List.reverse_append, List.reverse_cons, List.append_assoc,
    List.singleton_append,
    dropWhile_append_cons hx, List.reverse_append, List.reverse_cons, List.reverse_reverse,
    List.append_assoc,
    List.singleton_append, List.rdropWhile]

/-- Around an element outside `p` the two ends are trimmed apart. -/
theorem trimBoth_append_cons (hx : p x = false) :
    trimBoth p (a ++ x :: b) = a.dropWhile p ++ x :: b.rdropWhile p := by
  rw [trimBoth, dropWhile_append_cons hx, rdropWhile_append_cons hx]

/-- A character that is not to be trimmed stays, wherever it stands. -/
theorem mem_trimBoth (hx : p x = false) (hmem : x ∈ s) : x ∈ trimBoth p s := by
  obtain ⟨a, b, rfl⟩ := List.append_of_mem hmem
  rw [trimBoth_append_cons hx]
  exact List.mem_append_right _ List.mem_cons_self

/-- A text of trimmed characters only is trimmed to nothing. -/
theorem trimBoth_eq_nil (h : ∀ x ∈ s, p x = true) : trimBoth p s = [] := by
  rw [trimBoth, List.dropWhile_eq_nil_iff.mpr h, List.rdropWhile_nil]

/-- Dropping on the left first changes nothing. -/
theorem trimBoth_dropWhile : trimBoth p (s.dropWhile p) = trimBoth p s := by
  rw [trimBoth, List.dropWhile_idempotent, trimBoth]

/-- Dropping on the right first changes nothing. -/
theorem trimBoth_rdropWhile : trimBoth p (s.rdropWhile p) = trimBoth p s := by
  by_cases hall : ∀ x ∈ s, p x = true
  · rw [List.rdropWhile_eq_nil_iff.mpr hall, trimBoth_eq_nil hall]
    rfl
  · push Not at hall
    obtain ⟨x, hmem, hx⟩ := hall
    have hx : p x = false := Bool.eq_false_iff.mpr hx
    obtain ⟨a, b, rfl⟩ := List.append_of_mem hmem
    rw [rdropWhile_append_cons hx, trimBoth_append_cons hx, trimBoth_append_cons hx,
      List.rdropWhile_idempotent]

/-- Trimming twice is trimming once. -/
theorem trimBoth_trimBoth : trimBoth p (trimBoth p s) = trimBoth p s := by
  rw [trimBoth.eq_1 p s, trimBoth_rdropWhile, trimBoth_dropWhile, trimBoth]

/-- A trimmed list has nothing to drop in front. -/
theorem dropWhile_trimBoth : (trimBoth p s).dropWhile p = trimBoth p s := by
  by_cases hall : ∀ x ∈ s, p x = true
  · rw [trimBoth_eq_nil hall]
    rfl
  · push Not at hall
    obtain ⟨x, hmem, hx⟩ := hall
    have hx : p x = false := Bool.eq_false_iff.mpr hx
    obtain ⟨a, b, rfl⟩ := List.append_of_mem hmem
    rw [trimBoth_append_cons hx, dropWhile_append_cons hx, List.dropWhile_idempotent]

end Trim

/-- `strings.TrimSpace` is the general trim for white space. -/
theorem trimSpace_eq_trimBoth (s : Str) : trimSpace s = trimBoth isSpace s := rfl

/-! ### Cutting -/

section Cut

variable {sep : Char} {s a b : Str}

/-- There is no cut at a separator that does not occur. -/
theorem cut_eq_none : sep ∉ s → cut sep s = none := by
  intro h
  have hspan : s.span (· ≠ sep) = (s, []) := by
    rw [List.span_eq_takeWhile_dropWhile, List.takeWhile_eq_self_iff.mpr,
      List.dropWhile_eq_nil_iff.mpr]
    all_goals
      intro c hc
      exact decide_eq_true fun heq => h (heq ▸ hc)
  rw [cut, hspan]

/-- The cut is at the first separator. -/
theorem cut_append_cons (h : sep ∉ a) : cut sep (a ++ sep :: b) = some (a, b) := by
  have hall : ∀ c ∈ a, decide (c ≠ sep) = true := fun c hc => decide_eq_true fun heq => h (heq ▸ hc)
  have hspan : (a ++ sep :: b).span (· ≠ sep) = (a, sep :: b) := by
    rw [List.span_eq_takeWhile_dropWhile, List.takeWhile_append_of_pos hall,
      List.dropWhile_append_of_pos hall,
      List.takeWhile_cons, List.dropWhile_cons, if_neg (by simp), if_neg (by simp), List.append_nil]
  rw [cut, hspan]

/-- A text has no separator, or it is cut at the first one. -/
theorem cut_cases (sep : Char) (s : Str) :
    (sep ∉ s ∧ cut sep s = none) ∨ ∃ a b, s = a ++ sep :: b ∧ sep ∉ a ∧
      cut sep s = some (a, b) := by
  by_cases hmem : sep ∈ s
  · obtain ⟨a, b, rfl, hnot⟩ := List.eq_append_cons_of_mem hmem
    exact .inr ⟨a, b, rfl, hnot, cut_append_cons hnot⟩
  · exact .inl ⟨hmem, cut_eq_none hmem⟩

/-- The parts of a trimmed text, trimmed, are those of the text. -/
theorem trimBoth_cut {p : Char → Bool} (hsep : p sep = false) (h : sep ∉ a) :
    ∃ a' b', cut sep (trimBoth p (a ++ sep :: b)) = some (a', b') ∧ trimBoth p a' = trimBoth p a ∧
      trimBoth p b' = trimBoth p b := by
  refine ⟨a.dropWhile p, b.rdropWhile p, ?_, trimBoth_dropWhile, trimBoth_rdropWhile⟩
  rw [trimBoth_append_cons hsep]
  exact cut_append_cons fun hmem => h ((List.dropWhile_sublist p).subset hmem)

/-- A separator of two parts is in the text, and so are the parts. -/
theorem eq_of_splitOn_pair (h : s.splitOn sep = [a, b]) : s = a ++ sep :: b := by
  have hback : [sep].intercalate (s.splitOn sep) = s := List.intercalate_splitOn sep
  rw [h] at hback
  rw [← hback]
  simp [List.intercalate]

/-- The pieces of a text have its characters. -/
theorem subset_of_mem_splitOn (h : a ∈ s.splitOn sep) : a ⊆ s := by
  induction s generalizing a with
  | nil =>
      rw [List.splitOn_nil, List.mem_singleton] at h
      exact h ▸ List.Subset.refl _
  | cons c s ih =>
      rw [List.splitOn_cons_eq_if_modifyHead] at h
      split at h
      · rcases List.mem_cons.mp h with rfl | h
        · exact List.nil_subset _
        · exact fun x hx => List.mem_cons_of_mem _ (ih h hx)
      · obtain ⟨first, rest, hpieces⟩ := List.exists_cons_of_ne_nil (List.splitOn_ne_nil sep s)
        rw [hpieces] at h ih
        rcases List.mem_cons.mp h with rfl | h
        · exact List.cons_subset_cons _ (ih List.mem_cons_self)
        · exact fun x hx => List.mem_cons_of_mem _ (ih (List.mem_cons_of_mem _ h) hx)

end Cut

end NilStore.Lib
