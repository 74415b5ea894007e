import Mathlib.Data.List.Basic
import Mathlib.Tactic.Common

/-!
# `NilStore.Lib.Tx`: transactions that can fail half-way

A `Tx σ ε α` runs on a state of type `σ`, fails with a fault of type `ε` or returns an `α`,
and leaves a state *in both cases*: a write made before the failure is still in the state
that the failing run leaves. `Tx.exec` is the run. Whoever runs the transaction decides what
a failure keeps: `Tx.commitOrRollback` drops the writes of a failed run, the way a message
router does.

The `exec_*` lemmas take a run apart. For each building block there is one equation, and
for `bind` an equivalence for each of the two outcomes (`exec_bind_ok`, `exec_bind_error`).
With them `simp only` turns "this handler ran to that result" into the conjunction of the
checks it passed and the writes it made.

`Tx.Keeps r` says that every run, failed or not, relates the states before and after by `r`,
and `Tx.KeepsAt r x s` that the run of `x` from `s` does.
-/

set_option autoImplicit false

namespace NilStore.Lib

/-- A computation on a state that can fail; the state outlives the failure. -/
abbrev Tx (σ ε α : Type) := ExceptT ε (StateM σ) α

namespace Tx

variable {σ ε α β : Type}

/-- Run the transaction: the result, and the state it leaves. A failed run leaves a state too. -/
def exec (x : Tx σ ε α) (s : σ) : Except ε α × σ := x s

/-- Fail with the fault when the condition holds. -/
def failIf (c : Prop) [Decidable c] (e : ε) : Tx σ ε Unit :=
  if c then throw e else pure ()

/-- Read the state. -/
def gets (f : σ → α) : Tx σ ε α := fun s => (.ok (f s), s)

/-- Read the state through a function that may itself fail. -/
def reads (f : σ → Except ε α) : Tx σ ε α := fun s => (f s, s)

/-- A computation that does not look at the state. -/
def ofExcept (x : Except ε α) : Tx σ ε α := fun s => (x, s)

/-- Change the state by a function that cannot fail. -/
def update (f : σ → σ) : Tx σ ε Unit := fun s => (.ok (), f s)

/-- Change the state by a function that can fail; then the state stays and the fault is
`e`. -/
def updateOr (f : σ → Option σ) (e : ε) : Tx σ ε Unit := fun s =>
  match f s with
  | some s' => (.ok (), s')
  | none => (.error e, s)

/-- Run the transaction as a whole: a failed run leaves the old state. -/
def commitOrRollback (x : Tx σ ε α) (s : σ) : σ :=
  match x.exec s with
  | (.ok _, s') => s'
  | (.error _, _) => s

/-! ### Taking a run apart -/

/-- Returning leaves the state alone. -/
@[simp] theorem exec_pure (a : α) (s : σ) : exec (pure a : Tx σ ε α) s = (.ok a, s) := rfl

/-- Throwing leaves the state alone. -/
@[simp] theorem exec_throw (e : ε) (s : σ) : exec (throw e : Tx σ ε α) s = (.error e, s) := rfl

/-- Reading leaves the state alone. -/
@[simp] theorem exec_gets (f : σ → α) (s : σ) :
    exec (gets f : Tx σ ε α) s = (.ok (f s), s) := rfl

/-- A pure check leaves the state alone. -/
@[simp] theorem exec_ofExcept (x : Except ε α) (s : σ) : exec (ofExcept x) s = (x, s) := rfl

/-- A choice runs the branch its condition picks. -/
theorem exec_ite {c : Prop} [Decidable c] (x y : Tx σ ε α) (s : σ) :
    exec (if c then x else y) s = if c then exec x s else exec y s := by
  split <;> rfl

/-- A check of the state leaves it alone. -/
@[simp] theorem exec_reads (f : σ → Except ε α) (s : σ) : exec (reads f) s = (f s, s) := rfl

/-- An update always succeeds. -/
@[simp] theorem exec_update (f : σ → σ) (s : σ) :
    exec (update f : Tx σ ε Unit) s = (.ok (), f s) := rfl

/-- A verdict, and the state that comes with it. -/
theorem exists_exec_eq {x : Tx σ ε α} {s : σ} {res : Except ε α} (h : (x.exec s).1 = res) :
    ∃ s', x.exec s = (res, s') := ⟨(x.exec s).2, Prod.ext h rfl⟩

/-- A sequence runs its second part in the state the first left, unless the first threw. Nothing is
rolled back here. -/
theorem exec_bind (x : Tx σ ε α) (f : α → Tx σ ε β) (s : σ) :
    exec (x >>= f) s = match exec x s with
      | (.ok a, s') => exec (f a) s'
      | (.error e, s') => (.error e, s') := by
  show ExceptT.bindCont f (exec x s).1 (exec x s).2 = _
  rcases exec x s with ⟨_ | _, _⟩ <;> rfl

/-- A sequence succeeds when both parts do, the second from where the first ended. -/
theorem exec_bind_ok {x : Tx σ ε α} {f : α → Tx σ ε β} {s s' : σ} {b : β} :
    exec (x >>= f) s = (.ok b, s') ↔
      ∃ a s₁, exec x s = (.ok a, s₁) ∧ exec (f a) s₁ = (.ok b, s') := by
  rw [exec_bind]
  rcases exec x s with ⟨e | a, s₁⟩ <;> simp

/-- A sequence fails when the first part does, or when the second does after it. -/
theorem exec_bind_error {x : Tx σ ε α} {f : α → Tx σ ε β} {s s' : σ} {e : ε} :
    exec (x >>= f) s = (.error e, s') ↔
      exec x s = (.error e, s') ∨
        ∃ a s₁, exec x s = (.ok a, s₁) ∧ exec (f a) s₁ = (.error e, s') := by
  rw [exec_bind]
  rcases exec x s with ⟨e | a, s₁⟩ <;> simp

/-- A sequence that ends with a value leaves the state of its first part. -/
theorem exec_bind_pure {x : Tx σ ε α} {f : α → β} {s s' : σ} {res : Except ε β}
    (h : exec (x >>= fun a => pure (f a)) s = (res, s')) : ∃ res', exec x s = (res', s') := by
  rw [exec_bind] at h
  cases hx : exec x s with
  | mk r s₁ =>
      rw [hx] at h
      cases r <;> cases h <;> exact ⟨_, rfl⟩

/-- A guard throws exactly under its condition and leaves the state alone. -/
theorem exec_failIf (c : Prop) [Decidable c] (e : ε) (s : σ) :
    exec (failIf c e : Tx σ ε Unit) s = (if c then .error e else .ok (), s) := by
  rw [failIf]
  split <;> rfl

/-- A guard lets exactly those states pass that do not meet its condition. -/
@[simp] theorem exec_failIf_ok {c : Prop} [Decidable c] {e : ε} {s s' : σ} {u : Unit} :
    exec (failIf c e : Tx σ ε Unit) s = (.ok u, s') ↔ ¬c ∧ s = s' := by
  rw [exec_failIf]
  split <;> simp_all

/-- A guard throws its own fault, exactly under its condition. -/
@[simp] theorem exec_failIf_error {c : Prop} [Decidable c] {e e' : ε} {s s' : σ} :
    exec (failIf c e : Tx σ ε Unit) s = (.error e', s') ↔ c ∧ e = e' ∧ s = s' := by
  rw [exec_failIf]
  split <;> simp_all

/-- A partial update succeeds exactly where its function is defined. -/
@[simp] theorem exec_updateOr_ok {f : σ → Option σ} {e : ε} {s s' : σ} {u : Unit} :
    exec (updateOr f e) s = (.ok u, s') ↔ f s = some s' := by
  rw [exec, updateOr]
  cases f s <;> simp

/-- A partial update throws its own fault, exactly where its function is undefined, and changes
nothing then. -/
@[simp] theorem exec_updateOr_error {f : σ → Option σ} {e e' : ε} {s s' : σ} :
    exec (updateOr f e) s = (.error e', s') ↔ f s = none ∧ e = e' ∧ s = s' := by
  rw [exec, updateOr]
  cases f s <;> simp

/-! ### Taking a sequence apart

What a sequence did, by its first block. The state passes on to the rest without a name of
its own, so a long handler unfolds into its checks. None of these is proved by `rfl`: a
rewrite by definition would leave the kernel to compare two runs by unfolding both. -/

section Sequence

variable {s s' : σ} {b : β}

/-- Returning and going on is going on with the value. -/
@[simp] theorem exec_pure_bind (a : α) (g : α → Tx σ ε β) (s : σ) :
    exec (pure a >>= g) s = exec (g a) s := by
  rw [exec_bind, exec_pure]

/-- Reading and going on is going on with what the state holds. -/
@[simp] theorem exec_gets_bind (f : σ → α) (g : α → Tx σ ε β) (s : σ) :
    exec (gets f >>= g) s = exec (g (f s)) s := by
  rw [exec_bind, exec_gets]

/-- Updating and going on is going on in the new state. -/
@[simp] theorem exec_update_bind (f : σ → σ) (g : Unit → Tx σ ε β) (s : σ) :
    exec (update f >>= g) s = exec (g ()) (f s) := by
  rw [exec_bind, exec_update]

/-- What follows a throw does not run. -/
@[simp] theorem exec_throw_bind (e : ε) (g : α → Tx σ ε β) (s : σ) :
    exec (throw e >>= g) s = (.error e, s) := by
  rw [exec_bind, exec_throw]

/-- The inversion rule of a pure check that something follows. -/
theorem exec_ofExcept_bind_ok {x : Except ε α} {g : α → Tx σ ε β} :
    exec (ofExcept x >>= g) s = (.ok b, s') ↔ ∃ a, x = .ok a ∧ exec (g a) s = (.ok b, s') := by
  rw [exec_bind, exec_ofExcept]
  cases x <;> simp

/-- The inversion rule of a check of the state that something follows. -/
theorem exec_reads_bind_ok {f : σ → Except ε α} {g : α → Tx σ ε β} :
    exec (reads f >>= g) s = (.ok b, s') ↔ ∃ a, f s = .ok a ∧ exec (g a) s = (.ok b, s') := by
  rw [exec_bind, exec_reads]
  cases f s <;> simp

/-- The inversion rule of a guard that something follows. -/
theorem exec_failIf_bind_ok {c : Prop} [Decidable c] {e : ε} {g : Unit → Tx σ ε β} :
    exec (failIf c e >>= g) s = (.ok b, s') ↔ ¬c ∧ exec (g ()) s = (.ok b, s') := by
  rw [exec_bind, exec_failIf]
  by_cases hc : c <;> simp [hc]

/-- The inversion rule of a partial update that something follows. -/
theorem exec_updateOr_bind_ok {f : σ → Option σ} {e : ε} {g : Unit → Tx σ ε β} :
    exec (updateOr f e >>= g) s = (.ok b, s') ↔
      ∃ s₁, f s = some s₁ ∧ exec (g ()) s₁ = (.ok b, s') := by
  rw [exec_bind, exec, updateOr]
  cases f s <;> simp

/-- A pure check that something follows fails at the check or later. -/
theorem exec_ofExcept_bind_error {x : Except ε α} {g : α → Tx σ ε β} {e : ε} :
    exec (ofExcept x >>= g) s = (.error e, s') ↔
      x = .error e ∧ s = s' ∨ ∃ a, x = .ok a ∧ exec (g a) s = (.error e, s') := by
  rw [exec_bind, exec_ofExcept]
  cases x <;> simp

/-- A check of the state that something follows fails at the check or later. -/
theorem exec_reads_bind_error {f : σ → Except ε α} {g : α → Tx σ ε β} {e : ε} :
    exec (reads f >>= g) s = (.error e, s') ↔
      f s = .error e ∧ s = s' ∨ ∃ a, f s = .ok a ∧ exec (g a) s = (.error e, s') := by
  rw [exec_bind, exec_reads]
  cases f s <;> simp

/-- A guard that something follows fails at the guard or later. -/
theorem exec_failIf_bind_error {c : Prop} [Decidable c] {e e' : ε} {g : Unit → Tx σ ε β} :
    exec (failIf c e' >>= g) s = (.error e, s') ↔
      c ∧ e' = e ∧ s = s' ∨ ¬c ∧ exec (g ()) s = (.error e, s') := by
  rw [exec_bind, exec_failIf]
  by_cases hc : c <;> simp [hc]

/-- A partial update that something follows fails at the update or later. -/
theorem exec_updateOr_bind_error {f : σ → Option σ} {e e' : ε} {g : Unit → Tx σ ε β} :
    exec (updateOr f e' >>= g) s = (.error e, s') ↔
      f s = none ∧ e' = e ∧ s = s' ∨ ∃ s₁, f s = some s₁ ∧ exec (g ()) s₁ = (.error e, s') := by
  rw [exec_bind, exec, updateOr]
  cases f s <;> simp

end Sequence

/-! ### Rollback -/

/-- A transaction that returned is committed. -/
theorem commitOrRollback_of_ok {x : Tx σ ε α} {s s' : σ} {a : α}
    (h : x.exec s = (.ok a, s')) : x.commitOrRollback s = s' := by
  rw [commitOrRollback, h]

/-- A transaction that failed leaves the state it started in. -/
theorem commitOrRollback_of_error {x : Tx σ ε α} {s s' : σ} {e : ε}
    (h : x.exec s = (.error e, s')) : x.commitOrRollback s = s := by
  rw [commitOrRollback, h]

/-! ### Frames

A frame is a reflexive and transitive relation on states. A run is taken through it block by
block, and a later block may use what the earlier ones have returned. -/

/-- The run from `s`, failed or not, relates `s` to the state that it leaves. -/
def KeepsAt (r : σ → σ → Prop) (x : Tx σ ε α) (s : σ) : Prop := r s (x.exec s).2

/-- Every run of the transaction, failed or not, relates the state before to the state
after. -/
def Keeps (r : σ → σ → Prop) (x : Tx σ ε α) : Prop := ∀ s, KeepsAt r x s

section Keeps

variable {r : σ → σ → Prop} {s : σ}

/-- What a computation keeps relates the state before it to the one it is seen to leave. -/
theorem KeepsAt.of_exec {x : Tx σ ε α} (h : KeepsAt r x s) {s' : σ} {res : Except ε α}
    (hx : x.exec s = (res, s')) : r s s' := by
  rw [KeepsAt, hx] at h
  exact h

/-- A computation that leaves its state alone keeps every reflexive relation. -/
theorem keepsAt_of_snd (hrefl : ∀ s, r s s) {x : Tx σ ε α} (h : (x.exec s).2 = s) :
    KeepsAt r x s := by
  rw [KeepsAt, h]
  exact hrefl s

/-- Returning keeps every reflexive relation. -/
theorem keeps_pure (hrefl : ∀ s, r s s) (a : α) : Keeps r (pure a : Tx σ ε α) :=
  fun _ => keepsAt_of_snd hrefl rfl

/-- Throwing keeps every reflexive relation. -/
theorem keeps_throw (hrefl : ∀ s, r s s) (e : ε) : Keeps r (throw e : Tx σ ε α) :=
  fun _ => keepsAt_of_snd hrefl rfl

/-- A check of the state keeps every reflexive relation. -/
theorem keeps_reads (hrefl : ∀ s, r s s) (f : σ → Except ε α) : Keeps r (reads f) :=
  fun _ => keepsAt_of_snd hrefl rfl

/-- Reading keeps every reflexive relation. -/
theorem keeps_gets (hrefl : ∀ s, r s s) (f : σ → α) : Keeps r (gets f : Tx σ ε α) :=
  fun _ => keepsAt_of_snd hrefl rfl

/-- A pure check keeps every reflexive relation. -/
theorem keeps_ofExcept (hrefl : ∀ s, r s s) (x : Except ε α) : Keeps r (ofExcept x) :=
  fun _ => keepsAt_of_snd hrefl rfl

/-- A guard keeps every reflexive relation. -/
theorem keeps_failIf (hrefl : ∀ s, r s s) (c : Prop) [Decidable c] (e : ε) :
    Keeps r (failIf c e : Tx σ ε Unit) := fun s =>
  keepsAt_of_snd hrefl (by rw [exec_failIf])

/-- An update keeps a relation that its function does. -/
theorem keepsAt_update {f : σ → σ} (h : r s (f s)) : KeepsAt r (update f : Tx σ ε Unit) s := h

/-- A partial update keeps a relation that its function does where it is defined. -/
theorem keepsAt_updateOr (hrefl : ∀ s, r s s) {f : σ → Option σ} {e : ε}
    (h : ∀ s', f s = some s' → r s s') : KeepsAt r (updateOr f e) s := by
  rw [KeepsAt, exec, updateOr]
  cases hf : f s with
  | none => exact hrefl s
  | some s' => exact h s' hf

/-- A sequence keeps the frame when its first part does, and the second does from every state
in which the first succeeds. -/
theorem keepsAt_bind (htrans : ∀ a b c, r a b → r b c → r a c) {x : Tx σ ε α}
    {f : α → Tx σ ε β} (hx : KeepsAt r x s)
    (hf : ∀ a s₁, x.exec s = (.ok a, s₁) → KeepsAt r (f a) s₁) : KeepsAt r (x >>= f) s := by
  rw [KeepsAt, exec_bind]
  cases h : exec x s with
  | mk res s₁ =>
      have h₁ := hx.of_exec h
      cases res with
      | ok a => exact htrans _ _ _ h₁ (hf a s₁ h)
      | error e => exact h₁

/-- A choice keeps what its branches do, each under the condition that leads to it. -/
theorem keepsAt_ite {c : Prop} [Decidable c] {x y : Tx σ ε α} (hx : c → KeepsAt r x s)
    (hy : ¬c → KeepsAt r y s) : KeepsAt r (if c then x else y) s := by
  split
  · exact hx ‹_›
  · exact hy ‹_›

/-- A run from `s` that fails relates `s` to the state that it leaves. -/
def FailsWithin (r : σ → σ → Prop) (x : Tx σ ε α) (s : σ) : Prop :=
  ∀ e s', x.exec s = (.error e, s') → r s s'

/-- The state a failed computation is seen to leave is within the relation. -/
theorem FailsWithin.of_exec {x : Tx σ ε α} (h : FailsWithin r x s) {s' : σ} {e : ε}
    (hx : x.exec s = (.error e, s')) : r s s' := h e s' hx

/-- What is kept on every outcome is kept on failure. -/
theorem KeepsAt.failsWithin {x : Tx σ ε α} (h : KeepsAt r x s) : FailsWithin r x s :=
  fun _ _ hx => h.of_exec hx

/-- A sequence fails within the frame when its first part keeps it and the second fails within
it. -/
theorem failsWithin_bind (htrans : ∀ a b c, r a b → r b c → r a c) {x : Tx σ ε α}
    {f : α → Tx σ ε β} (hx : KeepsAt r x s)
    (hf : ∀ a s₁, x.exec s = (.ok a, s₁) → FailsWithin r (f a) s₁) :
    FailsWithin r (x >>= f) s := by
  intro e s' h
  rcases exec_bind_error.mp h with h | ⟨a, s₁, h₁, h⟩
  · exact hx.of_exec h
  · exact htrans _ _ _ (hx.of_exec h₁) (hf a s₁ h₁ e s' h)

/-- The transaction fails from no state. It may still change the state. -/
def Total (x : Tx σ ε α) : Prop := ∀ s e s', x.exec s ≠ (.error e, s')

/-- Returning never throws. -/
theorem total_pure (a : α) : Total (pure a : Tx σ ε α) := by
  intro s e s' h
  cases h

/-- An update throws nothing of its own. -/
theorem total_update_bind {f : σ → σ} {g : Unit → Tx σ ε β} (hg : Total (g ())) :
    Total (update f >>= g) := by
  intro s e s' h
  rw [exec_update_bind] at h
  exact hg _ _ _ h

/-- When nothing after the first part can fail, the failures are those of the first part. -/
theorem failsWithin_bind_total {x : Tx σ ε α} {f : α → Tx σ ε β} (hx : FailsWithin r x s)
    (hf : ∀ a, Total (f a)) : FailsWithin r (x >>= f) s := by
  intro e s' h
  rcases exec_bind_error.mp h with h | ⟨a, s₁, -, h⟩
  · exact hx e s' h
  · exact absurd h (hf a s₁ e s')

end Keeps

end Tx

/-! ### Checks without a state -/

/-- The value, or the fault when there is none. -/
def orFail {ε α : Type} (x : Option α) (e : ε) : Except ε α :=
  match x with
  | some a => .ok a
  | none => .error e

/-- A lookup passes exactly on a present entry. -/
@[simp] theorem orFail_eq_ok {ε α : Type} {x : Option α} {e : ε} {a : α} :
    orFail x e = .ok a ↔ x = some a := by
  cases x <;> simp [orFail]

/-- Rewording an error changes no success. -/
@[simp] theorem mapError_eq_ok {ε ε' α : Type} {f : ε → ε'} {x : Except ε α} {a : α} :
    x.mapError f = .ok a ↔ x = .ok a := by
  cases x <;> simp [Except.mapError]

/-- Reject with the fault when the condition holds. -/
def rejectIf {ε : Type} (c : Prop) [Decidable c] (e : ε) : Except ε Unit :=
  if c then .error e else .ok ()

/-- A guard passes exactly where its condition fails. -/
@[simp] theorem rejectIf_eq_ok {ε : Type} {c : Prop} [Decidable c] {e : ε} {u : Unit} :
    rejectIf c e = .ok u ↔ ¬c := by
  rw [rejectIf]
  split <;> simp_all

/-- A sequence of checks succeeds when each does. -/
theorem except_bind_ok {ε α β : Type} {x : Except ε α} {f : α → Except ε β} {b : β} :
    (x >>= f) = .ok b ↔ ∃ a, x = .ok a ∧ f a = .ok b := by
  cases x with
  | error e =>
      constructor
      · intro h
        cases h
      · rintro ⟨_, h, _⟩
        cases h
  | ok a =>
      constructor
      · intro h
        exact ⟨a, rfl, h⟩
      · rintro ⟨_, h, hb⟩
        cases h
        exact hb

end NilStore.Lib
