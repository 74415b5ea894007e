import Mathlib.Data.List.Basic
import Mathlib.Tactic.Common
import NilStore.Lib.Tx

/-!
# `NilStore.Lib.Loops`: loops in `Except`

A loop that may fail is `mapM` or `foldlM` in `Except`. Where no step fails, it is the loop without
the monad (`mapM_ok`, `foldlM_eq_ok`); the steps of `foldlM_eq_ok` may rely on an invariant.
-/

set_option autoImplicit false

namespace NilStore.Lib

variable {ε α β σ : Type}

/-- A loop whose steps all succeed. -/
theorem mapM_ok {f : α → Except ε β} {g : α → β} {l : List α} (h : ∀ x ∈ l, f x = .ok (g x)) :
    l.mapM f = .ok (l.map g) := by
  induction l with
  | nil => rfl
  | cons x rest ih =>
      rw [List.mapM_cons, h x List.mem_cons_self, ih fun y hy => h y (List.mem_cons_of_mem _ hy)]
      rfl

/-- What a loop that succeeds has done at each element. -/
theorem forall₂_of_mapM_eq_ok {f : α → Except ε β} {l : List α} {l' : List β}
    (h : l.mapM f = .ok l') : List.Forall₂ (fun a b => f a = .ok b) l l' := by
  induction l generalizing l' with
  | nil =>
      cases h
      exact List.Forall₂.nil
  | cons x rest ih =>
      rw [List.mapM_cons, except_bind_ok] at h
      obtain ⟨y, hy, h⟩ := h
      rw [except_bind_ok] at h
      obtain ⟨ys, hys, h⟩ := h
      cases h
      exact List.Forall₂.cons hy (ih hys)

/-- Every result comes from an element, and every element has its result. -/
theorem mem_of_mapM_eq_ok {f : α → Except ε β} {l : List α} {l' : List β} (h : l.mapM f = .ok l') :
    (∀ b ∈ l', ∃ a ∈ l, f a = .ok b) ∧ ∀ a ∈ l, ∃ b ∈ l', f a = .ok b := by
  have hpairs := forall₂_of_mapM_eq_ok h
  clear h
  induction hpairs with
  | nil => exact ⟨fun b hb => absurd hb (by simp), fun a ha => absurd ha (by simp)⟩
  | cons hhead _ ih =>
      constructor
      · intro b hb
        rcases List.mem_cons.mp hb with rfl | hb
        · exact ⟨_, List.mem_cons_self, hhead⟩
        · obtain ⟨a, ha, hab⟩ := ih.1 b hb
          exact ⟨a, List.mem_cons_of_mem _ ha, hab⟩
      · intro a ha
        rcases List.mem_cons.mp ha with rfl | ha
        · exact ⟨_, List.mem_cons_self, hhead⟩
        · obtain ⟨b, hb, hab⟩ := ih.2 a ha
          exact ⟨b, List.mem_cons_of_mem _ hb, hab⟩

/-- A loop without results. -/
theorem forM_eq_ok {f : α → Except ε Unit} {l : List α} {u : Unit} :
    l.forM f = .ok u ↔ ∀ x ∈ l, f x = .ok () := by
  induction l with
  | nil => exact iff_of_true rfl (by simp)
  | cons x rest ih =>
      show (f x >>= fun _ => rest.forM f) = .ok u ↔ _
      rw [except_bind_ok, List.forall_mem_cons, ← ih]
      exact ⟨fun ⟨_, h⟩ => h, fun h => ⟨_, h⟩⟩

/-- A loop with a state, whose steps succeed and keep an invariant. -/
theorem foldlM_eq_ok {f : σ → α → Except ε σ} {g : σ → α → σ} (P : σ → Prop) (l : List α)
    (hf : ∀ s, P s → ∀ a ∈ l, f s a = .ok (g s a) ∧ P (g s a)) (s : σ) (hs : P s) :
    l.foldlM f s = .ok (l.foldl g s) ∧ P (l.foldl g s) := by
  induction l generalizing s with
  | nil => exact ⟨rfl, hs⟩
  | cons a rest ih =>
      obtain ⟨hstep, hnext⟩ := hf s hs a List.mem_cons_self
      rw [List.foldlM_cons, hstep, List.foldl_cons]
      exact ih (fun s hs b hb => hf s hs b (List.mem_cons_of_mem _ hb)) _ hnext

/-- Two loops whose steps agree. -/
theorem foldlM_congr {f g : σ → α → Except ε σ} {l : List α}
    (h : ∀ a ∈ l, ∀ s, f s a = g s a) (s : σ) :
    l.foldlM f s = l.foldlM g s := by
  induction l generalizing s with
  | nil => rfl
  | cons a rest ih =>
      rw [List.foldlM_cons, List.foldlM_cons, h a List.mem_cons_self s]
      exact congrArg _ (funext fun s' => ih (fun b hb => h b (List.mem_cons_of_mem _ hb)) s')

/-- Two loops whose first failing step is the same fail in the same way, whatever they do before. -/
theorem foldlM_error {f : σ → α → Except ε σ} {g : α → Except ε β}
    (hf : ∀ s a e, g a = .error e → f s a = .error e) {l : List α}
    (hok : ∀ a ∈ l, ∀ b, g a = .ok b → ∀ s, ∃ s', f s a = .ok s') {e : ε}
    (h : l.mapM g = .error e) (s : σ) :
    l.foldlM f s = .error e := by
  -- the induction goes to the first step that fails
  induction l generalizing s with
  | nil => cases h
  | cons a rest ih =>
      rw [List.mapM_cons] at h
      rw [List.foldlM_cons]
      cases hstep : g a with
      | error e' =>
          rw [hstep] at h
          cases h
          rw [hf s a e hstep]
          rfl
      -- a step that does not fail is passed in both loops
      | ok b =>
          obtain ⟨s', hs'⟩ := hok a List.mem_cons_self b hstep s
          rw [hstep] at h
          rw [hs']
          refine ih (fun c hc => hok c (List.mem_cons_of_mem _ hc)) ?_ s'
          cases hrest : rest.mapM g with
          | error e' =>
              rw [show (rest.mapM g) = .error e' from hrest] at h
              cases h
              rfl
          | ok bs =>
              rw [show (rest.mapM g) = .ok bs from hrest] at h
              cases h

/-- Two nested loops are one. -/
theorem foldl_foldl (f : σ → α → σ) (inner : β → List α) (outer : List β) (s : σ) :
    outer.foldl (fun s b => (inner b).foldl f s) s = (outer.flatMap inner).foldl f s := by
  induction outer generalizing s with
  | nil => rfl
  | cons b rest ih => rw [List.foldl_cons, List.flatMap_cons, List.foldl_append, ih]

end NilStore.Lib
