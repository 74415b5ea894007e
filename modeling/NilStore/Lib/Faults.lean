import NilStore.Lib.Tx

/-!
# `NilStore.Lib.Faults`: with which faults a computation can fail

`FaultsIn P x` says that every fault with which `x` can fail satisfies `P`. It says nothing of a run
that succeeds. The rules follow the building blocks of a handler, so the faults of a handler are
found without a case for each of its checks.
-/

set_option autoImplicit false

namespace NilStore.Lib

variable {σ ε ε' α β : Type} {P : ε → Prop}

/-! ### Without a state -/

/-- Every fault of the computation satisfies the predicate. -/
def FaultsIn (P : ε → Prop) (x : Except ε α) : Prop := ∀ e, x = .error e → P e

/-- A result is no fault. -/
theorem faultsIn_ok (a : α) : FaultsIn P (.ok a) := nofun

/-- Returning raises no fault. -/
theorem faultsIn_pure (a : α) : FaultsIn P (pure a : Except ε α) := nofun

/-- A computation that fails with an allowed fault raises only allowed ones. -/
theorem faultsIn_error {e : ε} (h : P e) : FaultsIn P (.error e : Except ε α) := by
  intro e' he
  cases he
  exact h

/-- A guard raises only its own fault. -/
theorem faultsIn_rejectIf {c : Prop} [Decidable c] {e : ε} (h : P e) :
    FaultsIn P (rejectIf c e) := by
  rw [rejectIf]
  split
  · exact faultsIn_error h
  · exact faultsIn_ok ()

/-- A lookup raises only the fault of a missing entry. -/
theorem faultsIn_orFail {x : Option α} {e : ε} (h : P e) : FaultsIn P (orFail x e) := by
  cases x with
  | none => exact faultsIn_error h
  | some a => exact faultsIn_ok a

/-- Faults that are wrapped. -/
theorem faultsIn_mapError {f : ε' → ε} {x : Except ε' α} (h : ∀ e, P (f e)) :
    FaultsIn P (x.mapError f) := by
  cases x with
  | error e => exact faultsIn_error (h e)
  | ok a => exact faultsIn_ok a

/-- The rule of sequence: where both parts raise only allowed faults, so does the whole. -/
theorem faultsIn_bind {x : Except ε α} {f : α → Except ε β} (hx : FaultsIn P x)
    (hf : ∀ a, FaultsIn P (f a)) : FaultsIn P (x >>= f) := by
  intro e he
  cases x with
  | error e' =>
      cases he
      exact hx e rfl
  | ok a => exact hf a e he

/-! ### On a state -/

namespace Tx

/-- Every fault with which the transaction can fail, from any state, satisfies the predicate. -/
def FaultsIn (P : ε → Prop) (x : Tx σ ε α) : Prop := ∀ s e s', x.exec s = (.error e, s') → P e

/-- Returning raises no fault. -/
theorem faultsIn_pure (a : α) : FaultsIn P (pure a : Tx σ ε α) := by
  intro s e s' h
  cases h

/-- Throwing raises the thrown fault and no other. -/
theorem faultsIn_throw {e : ε} (h : P e) : FaultsIn P (throw e : Tx σ ε α) := by
  intro s e' s' he
  cases he
  exact h

/-- A state update raises no fault. -/
theorem faultsIn_update (f : σ → σ) : FaultsIn P (update f : Tx σ ε Unit) := by
  intro s e s' h
  cases h

/-- A guard raises only its own fault. -/
theorem faultsIn_failIf {c : Prop} [Decidable c] {e : ε} (h : P e) :
    FaultsIn P (failIf c e : Tx σ ε Unit) := by
  intro s e' s' he
  obtain ⟨-, rfl, -⟩ := exec_failIf_error.mp he
  exact h

/-- A pure check raises the same faults when it is run as a step. -/
theorem faultsIn_ofExcept {x : Except ε α} (h : Lib.FaultsIn P x) :
    FaultsIn P (ofExcept x : Tx σ ε α) := by
  intro s e s' he
  exact h e (Prod.mk.inj he).1

/-- A check of the state raises only what it can raise in some state. -/
theorem faultsIn_reads {f : σ → Except ε α} (h : ∀ s, Lib.FaultsIn P (f s)) :
    FaultsIn P (reads f) := by
  intro s e s' he
  exact h s e (Prod.mk.inj he).1

/-- The rule of sequence: where both parts raise only allowed faults, so does the whole. -/
theorem faultsIn_bind {x : Tx σ ε α} {f : α → Tx σ ε β} (hx : FaultsIn P x)
    (hf : ∀ a, FaultsIn P (f a)) : FaultsIn P (x >>= f) := by
  intro s e s' h
  rcases exec_bind_error.mp h with hfirst | ⟨a, s₁, -, hrest⟩
  · exact hx s e s' hfirst
  · exact hf a s₁ e s' hrest

/-- A choice raises only what one of its branches can raise. -/
theorem faultsIn_ite {c : Prop} [Decidable c] {x y : Tx σ ε α} (hx : FaultsIn P x)
    (hy : FaultsIn P y) : FaultsIn P (if c then x else y) := by
  split
  · exact hx
  · exact hy

end Tx

end NilStore.Lib
