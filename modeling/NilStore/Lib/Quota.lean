import Mathlib.Data.List.Nodup
import Mathlib.Tactic.Common

/-!
# `NilStore.Lib.Quota`: a loop that stops when it has enough

`fillTo` goes over a list, and stops when the state is full. A step takes an element, or leaves it
and the state as they are. Where what a step does depends on the element alone (`accept`), and a
state is full when it has taken `k` elements, the loop takes the first of the accepted elements
(`fillTo_eq`).
-/

set_option autoImplicit false

namespace NilStore.Lib

section

variable {σ α β : Type}

/-- The loop. It stops as soon as the state is full, and what is left of the list is not looked
at. -/
def fillTo (full : σ → Bool) (body : σ → α → σ) : σ → List α → σ
  | s, [] => s
  | s, x :: rest => if full s then s else fillTo full body (body s x) rest

/-- The accepted elements, with what they give. -/
def accepted (accept : α → Option β) (l : List α) : List (α × β) :=
  l.filterMap fun x => (accept x).map fun y => (x, y)

/-- What is accepted is what the list offers and the test takes, with the test's value. -/
theorem mem_accepted {accept : α → Option β} {l : List α} {e : α × β} :
    e ∈ accepted accept l ↔ e.1 ∈ l ∧ accept e.1 = some e.2 := by
  rw [accepted, List.mem_filterMap]
  constructor
  · rintro ⟨x, hx, he⟩
    obtain ⟨y, hy, rfl⟩ := Option.map_eq_some_iff.mp he
    exact ⟨hx, hy⟩
  · rintro ⟨hx, hy⟩
    exact ⟨e.1, hx, Option.map_eq_some_iff.mpr ⟨e.2, hy, rfl⟩⟩

/-- The candidates accepted are those of the list that pass the test. -/
theorem mem_map_accepted {accept : α → Option β} {l : List α} {x : α} :
    x ∈ (accepted accept l).map (·.1) ↔ x ∈ l ∧ (accept x).isSome = true := by
  rw [List.mem_map, Option.isSome_iff_exists]
  constructor
  · rintro ⟨e, he, rfl⟩
    exact ⟨(mem_accepted.mp he).1, e.2, (mem_accepted.mp he).2⟩
  · rintro ⟨hx, y, hy⟩
    exact ⟨(x, y), mem_accepted.mpr ⟨hx, hy⟩, rfl⟩

/-- The candidates are tested in the order of the list. -/
theorem accepted_cons (accept : α → Option β) (x : α) (l : List α) :
    accepted accept (x :: l) = match accept x with
      | none => accepted accept l
      | some y => (x, y) :: accepted accept l := by
  rw [accepted, List.filterMap_cons]
  cases accept x <;> rfl

/-- An element is accepted once. -/
theorem nodup_accepted (accept : α → Option β) {l : List α} (h : l.Nodup) :
    ((accepted accept l).map (·.1)).Nodup := by
  induction l with
  | nil => exact List.nodup_nil
  | cons x l ih =>
      rw [List.nodup_cons] at h
      rw [accepted_cons]
      cases accept x with
      | none => exact ih h.2
      | some y =>
          rw [List.map_cons, List.nodup_cons]
          refine ⟨fun hmem => ?_, ih h.2⟩
          exact h.1 (mem_map_accepted.mp hmem).1

/-- The loop takes the first accepted elements. `Untouched s x` says that the state `s` has not seen
`x`. -/
theorem fillTo_eq {k : Nat} {count : σ → Nat} {put : σ → α → β → σ} {accept : α → Option β}
    {Untouched : σ → α → Prop} {full : σ → Bool} {body : σ → α → σ}
    (hfull : ∀ s, full s = true ↔ k ≤ count s)
    (hcount : ∀ s x y, Untouched s x → count (put s x y) = count s + 1)
    (hbody : ∀ s x, Untouched s x → body s x = (accept x).elim s (put s x))
    (hput : ∀ s x y z, z ≠ x → Untouched s z → Untouched (put s x y) z)
    {l : List α} (hnodup : l.Nodup) (s : σ) (hl : ∀ x ∈ l, Untouched s x) :
    fillTo full body s l =
      ((accepted accept l).take (k - count s)).foldl (fun s e => put s e.1 e.2) s := by
  -- the induction is on the elements that are still to come; none of them has been seen
  induction l generalizing s with
  | nil => rw [accepted, List.filterMap_nil, List.take_nil, List.foldl_nil, fillTo]
  | cons x rest ih =>
      rw [List.nodup_cons] at hnodup
      have hx := hl x List.mem_cons_self
      have hrest : ∀ z ∈ rest, Untouched s z := fun z hz => hl z (List.mem_cons_of_mem _ hz)
      rw [fillTo]
      by_cases hk : k ≤ count s
      · rw [if_pos ((hfull s).mpr hk), Nat.sub_eq_zero_of_le hk, List.take_zero, List.foldl_nil]
      · rw [if_neg fun h => hk ((hfull s).mp h), hbody s x hx, accepted_cons]
        cases hy : accept x with
        | none => exact ih hnodup.2 s hrest
        | some y =>
            -- the element is taken, and there is room for one less
            have hroom : k - count s = k - count (put s x y) + 1 := by
              rw [hcount s x y hx]
              omega
            rw [hroom, List.take_succ_cons, List.foldl_cons]
            refine ih hnodup.2 _ fun z hz => hput s x y z ?_ (hrest z hz)
            rintro rfl
            exact hnodup.1 hz

end

end NilStore.Lib
