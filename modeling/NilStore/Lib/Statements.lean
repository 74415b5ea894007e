import Mathlib.Algebra.BigOperators.Group.List.Basic
import NilStore.Lib.Runs

/-!
# `NilStore.Lib.Statements`: accounts that are the sum of what was posted to them

A machine keeps an account for each key. A step posts entries, and an entry names an account and
an amount. If each step changes each account by the entries that it posts there, then after every
run an account is its opening balance and the sum of its entries: `run_statement`.
-/

set_option autoImplicit false

namespace NilStore.Lib

/-- An amount that is added to the account of a key. -/
structure Posting (κ M : Type) where
  account : κ
  amount : M
deriving DecidableEq

section Balance

variable {κ M : Type} [DecidableEq κ] [AddCommMonoid M]

/-- What was posted to the account of a key. -/
def balanceOf (ps : List (Posting κ M)) (k : κ) : M :=
  ((ps.filter fun p => p.account = k).map Posting.amount).sum

/-- A statement without postings moves no balance. -/
@[simp] theorem balanceOf_nil (k : κ) : balanceOf ([] : List (Posting κ M)) k = 0 := rfl

/-- A posting moves the balance of its account and no other. -/
theorem balanceOf_cons (p : Posting κ M) (ps : List (Posting κ M)) (k : κ) :
    balanceOf (p :: ps) k = (if p.account = k then p.amount else 0) + balanceOf ps k := by
  rw [balanceOf, balanceOf, List.filter_cons]
  by_cases h : p.account = k
  · simp [h]
  · simp [h]

/-- One posting moves the balance of its account by its amount. -/
theorem balanceOf_singleton (p : Posting κ M) (k : κ) :
    balanceOf [p] k = if p.account = k then p.amount else 0 := by
  rw [balanceOf_cons, balanceOf_nil, add_zero]

/-- Two statements one after the other move a balance by the sum of their moves. -/
theorem balanceOf_append (ps qs : List (Posting κ M)) (k : κ) :
    balanceOf (ps ++ qs) k = balanceOf ps k + balanceOf qs k := by
  rw [balanceOf, List.filter_append, List.map_append, List.sum_append]
  rfl

/-- The accounts afterwards are those before, and what was posted to them. -/
def Posted (before after : κ → M) (ps : List (Posting κ M)) : Prop :=
  ∀ k, after k = before k + balanceOf ps k

/-- What changed nothing is explained by the empty statement. -/
theorem Posted.of_eq {before after : κ → M} (h : after = before) : Posted before after [] := by
  intro k
  rw [h, balanceOf_nil, add_zero]

/-- A change of one account is explained by one posting. -/
theorem Posted.one {before after : κ → M} {a : κ} {amount : M} (hat : after a = before a + amount)
    (hoff : ∀ k, k ≠ a → after k = before k) : Posted before after [⟨a, amount⟩] := by
  intro k
  rw [balanceOf_singleton]
  by_cases h : a = k
  · subst h
    rw [if_pos rfl, hat]
  · rw [if_neg h, hoff k (Ne.symm h), add_zero]

/-- Statements of two changes one after the other make the statement of both. -/
theorem Posted.append {before mid after : κ → M} {ps qs : List (Posting κ M)}
    (h : Posted before mid ps) (h' : Posted mid after qs) : Posted before after (ps ++ qs) := by
  intro k
  rw [h' k, h k, balanceOf_append, add_assoc]

end Balance

/-- After every run, the accounts are those at the start, and what the steps have posted. -/
theorem run_statement {σ ε κ M : Type} [DecidableEq κ] [AddCommMonoid M] {step : σ → ε → σ}
    {accounts : σ → κ → M} {posts : σ → ε → List (Posting κ M)} {s₀ : σ} {es : List ε}
    (h : Along (fun past e => Posted (accounts (run step s₀ past))
      (accounts (step (run step s₀ past) e)) (posts (run step s₀ past) e)) es) :
    Posted (accounts s₀) (accounts (run step s₀ es)) (trace step posts s₀ es) := by
  induction es using List.reverseRecOn with
  | nil => exact .of_eq rfl
  | append_singleton es e ih =>
      rw [run_snoc, trace_snoc]
      exact (ih h.left).append h.last

end NilStore.Lib
