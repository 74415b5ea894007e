import NilStore.Lib.Runs
import NilStore.Lib.Walks

/-!
# `NilStore.Lib.Logs`: a store under a counter is a log

A store that is written only at the next free number, where the counter goes up with each write, is
a log: `IsLog m n xs` says that it holds `xs`, each entry under its position, and that the counter
is its length. `run_isLog` is for a machine that keeps one: after every run the log is what the
steps have put out, so no entry is ever changed or lost.
-/

set_option autoImplicit false

namespace NilStore.Lib

variable {α : Type}

/-- The store holds these entries under their positions, and the counter is the next position. -/
structure IsLog (m : KVStore Nat α) (n : Nat) (xs : List α) : Prop where
  length : n = xs.length
  get : ∀ i, m.get i = xs[i]?

namespace IsLog

variable {m : KVStore Nat α} {n : Nat} {xs : List α}

/-- The empty store is the log of no entries. -/
theorem empty : IsLog (.empty : KVStore Nat α) 0 [] := ⟨rfl, fun _ => rfl⟩

/-- A write at the counter appends. -/
theorem append (h : IsLog m n xs) (x : α) : IsLog (m.set n x) (n + 1) (xs ++ [x]) := by
  have hn := h.length
  subst hn
  refine ⟨by simp, fun i => ?_⟩
  rw [KVStore.get_set, h.get i]
  rcases Nat.lt_trichotomy i xs.length with hlt | rfl | hgt
  · -- Below the counter nothing has changed.
    rw [if_neg (by omega), List.getElem?_append_left hlt]
  · simp
  · rw [if_neg (by omega), List.getElem?_eq_none (by omega), List.getElem?_eq_none]
    rw [List.length_append, List.length_singleton]
    omega

/-- The values of a walk over the store are the log. -/
theorem values (h : IsLog m n xs) : m.entries.map (·.2) = xs := by
  have hentries : m.entries = List.ofFn fun i : Fin xs.length => (i.val, xs[i]) := by
    refine KVStore.entries_eq ?_ fun k v => ?_
    · rw [List.ofFn_eq_map, List.pairwise_map]
      exact List.pairwise_lt_finRange xs.length
    · rw [h.get k, List.mem_ofFn, List.getElem?_eq_some_iff]
      constructor
      · rintro ⟨i, hi⟩
        cases hi
        exact ⟨i.isLt, rfl⟩
      · rintro ⟨hk, rfl⟩
        exact ⟨⟨k, hk⟩, rfl⟩
  rw [hentries, List.map_ofFn]
  exact List.ofFn_getElem

end IsLog

/-- A machine that appends to its log what its steps put out: after every run the log is the
trace. -/
theorem run_isLog {σ ε : Type} {step : σ → ε → σ} {out : σ → ε → List α}
    {store : σ → KVStore Nat α} {counter : σ → Nat} {s₀ : σ} (h₀ : IsLog (store s₀) (counter s₀) [])
    (hstep : ∀ s e xs, IsLog (store s) (counter s) xs →
      IsLog (store (step s e)) (counter (step s e)) (xs ++ out s e)) (es : List ε) :
    IsLog (store (run step s₀ es)) (counter (run step s₀ es)) (trace step out s₀ es) := by
  induction es using List.reverseRecOn with
  | nil => exact h₀
  | append_singleton es e ih =>
      rw [run_snoc, trace_snoc]
      exact hstep _ e _ ih

end NilStore.Lib
