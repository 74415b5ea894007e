import Mathlib.Algebra.BigOperators.Group.List.Basic
import Mathlib.Algebra.Order.BigOperators.Group.List
import Mathlib.Algebra.Order.Ring.Int
import Mathlib.Tactic.Common

/-!
# `NilStore.Lib.SpendWindow`: a spend counter that starts anew

A window has the time at which it opened and the amount that was spent in it. A debit first rolls
the window: when its length is over, a new one opens at the time of the debit, with nothing spent.
Nothing happens between debits, so the counter is reset lazily.

`Covers len debits w` says what the counter is worth: it is at least the total of the debits since
the window opened, and every debit came before the window ends. It survives a debit
(`Covers.debit`), whatever the times of the debits are: a window that rolls leaves all earlier
debits behind.
-/

set_option autoImplicit false

namespace NilStore.Lib

/-- A spend window: when it opened, and what was spent in it. -/
structure Window where
  start : Nat
  spent : Int

/-- The window at a time: a new one, when the length is over. -/
def Window.roll (len : Nat) (w : Window) (time : Nat) : Window :=
  if w.start + len ≤ time then ⟨time, 0⟩ else w

/-- The window after a debit. -/
def Window.debit (len : Nat) (w : Window) (time : Nat) (cost : Int) : Window :=
  ⟨(w.roll len time).start, (w.roll len time).spent + cost⟩

/-- What was debited from a time on. -/
def debitedSince (start : Nat) (debits : List (Nat × Int)) : Int :=
  ((debits.filter fun d => start ≤ d.1).map (·.2)).sum

/-- What was debited in an interval of times. -/
def debitedIn (start stop : Nat) (debits : List (Nat × Int)) : Int :=
  ((debits.filter fun d => start ≤ d.1 ∧ d.1 < stop).map (·.2)).sum

/-- What two logs debited since a start adds up. -/
theorem debitedSince_append (start : Nat) (debits debits' : List (Nat × Int)) :
    debitedSince start (debits ++ debits') =
      debitedSince start debits + debitedSince start debits' := by
  rw [debitedSince, List.filter_append, List.map_append, List.sum_append]
  rfl

/-- Dropping some of the debits, none of which is negative, does not raise the total. -/
theorem sum_filter_le {debits : List (Nat × Int)} (hpos : ∀ d ∈ debits, 0 ≤ d.2)
    {p q : Nat × Int → Bool} (himp : ∀ d ∈ debits, p d → q d) :
    ((debits.filter p).map (·.2)).sum ≤ ((debits.filter q).map (·.2)).sum := by
  induction debits with
  | nil => rfl
  | cons d rest ih =>
      have hrest := ih (fun x hx => hpos x (List.mem_cons_of_mem d hx))
        (fun x hx => himp x (List.mem_cons_of_mem d hx))
      have hd := hpos d List.mem_cons_self
      by_cases hp : p d
      · have hq := himp d List.mem_cons_self hp
        rw [List.filter_cons_of_pos hp, List.filter_cons_of_pos hq, List.map_cons, List.map_cons,
          List.sum_cons, List.sum_cons]
        omega
      · rw [List.filter_cons_of_neg hp]
        by_cases hq : q d
        · rw [List.filter_cons_of_pos hq, List.map_cons, List.sum_cons]
          omega
        · rwa [List.filter_cons_of_neg hq]

/-- The counter of the window covers the debits since it opened, and none came after its end. -/
structure Covers (len : Nat) (debits : List (Nat × Int)) (w : Window) : Prop where
  nonneg : ∀ d ∈ debits, 0 ≤ d.2
  before : ∀ d ∈ debits, d.1 < w.start + len
  covered : debitedSince w.start debits ≤ w.spent

section Covers

variable {len : Nat} {debits : List (Nat × Int)} {w : Window}

/-- A window that has spent nothing below zero covers the empty log. -/
theorem Covers.nil (hspent : 0 ≤ w.spent) : Covers len [] w := ⟨nofun, nofun, hspent⟩

/-- The debits within the window are covered. -/
theorem Covers.debitedIn_le (h : Covers len debits w) :
    debitedIn w.start (w.start + len) debits ≤ w.spent := by
  refine le_trans (sum_filter_le h.nonneg fun d _ hd => ?_) h.covered
  have hwithin : w.start ≤ d.1 ∧ d.1 < w.start + len := of_decide_eq_true hd
  exact decide_eq_true hwithin.1

/-- A window that is said to have opened later covers fewer debits. -/
theorem Covers.later (h : Covers len debits w) {start : Nat} (hle : w.start ≤ start) :
    Covers len debits ⟨start, w.spent⟩ := by
  refine ⟨h.nonneg, fun d hd => ?_, ?_⟩
  · have hbefore := h.before d hd
    show d.1 < start + len
    omega
  · refine le_trans (sum_filter_le h.nonneg fun d _ hd => ?_) h.covered
    have hlate : start ≤ d.1 := of_decide_eq_true hd
    exact decide_eq_true (by omega)

/-- A debit keeps the counter right. -/
theorem Covers.debit (h : Covers len debits w) (hlen : 0 < len) (time : Nat) {cost : Int}
    (hcost : 0 ≤ cost) : Covers len (debits ++ [(time, cost)]) (w.debit len time cost) := by
  have hnonneg : ∀ d ∈ debits ++ [(time, cost)], 0 ≤ d.2 := by
    intro d hd
    rcases List.mem_append.mp hd with hd | hd
    · exact h.nonneg d hd
    · cases List.mem_singleton.mp hd
      exact hcost
  -- the window is over at the time of the debit, or it still goes on
  by_cases hroll : w.start + len ≤ time
  · -- The window rolls, and every earlier debit is from before the new one.
    have hw : w.debit len time cost = ⟨time, cost⟩ := by
      rw [Window.debit, Window.roll, if_pos hroll, Int.zero_add]
    have hnone : debitedSince time debits = 0 := by
      have hempty : debits.filter (fun d => time ≤ d.1) = [] := by
        refine List.filter_eq_nil_iff.mpr fun d hd => ?_
        have hbefore := h.before d hd
        simp only [decide_eq_true_eq, not_le]
        omega
      rw [debitedSince, hempty]
      rfl
    rw [hw]
    refine ⟨hnonneg, fun d hd => ?_, ?_⟩
    · show d.1 < time + len
      rcases List.mem_append.mp hd with hd | hd
      · have hbefore := h.before d hd
        omega
      · cases List.mem_singleton.mp hd
        show time < time + len
        omega
    · show debitedSince time (debits ++ [(time, cost)]) ≤ cost
      rw [debitedSince_append, hnone]
      simp [debitedSince]
  · have hw : w.debit len time cost = ⟨w.start, w.spent + cost⟩ := by
      rw [Window.debit, Window.roll, if_neg hroll]
    -- a debit from before the window, if there were one, would not count
    have hlast : debitedSince w.start [(time, cost)] ≤ cost := by
      by_cases hstart : w.start ≤ time
      · simp [debitedSince, hstart]
      · simpa [debitedSince, hstart] using hcost
    rw [hw]
    refine ⟨hnonneg, fun d hd => ?_, ?_⟩
    · show d.1 < w.start + len
      rcases List.mem_append.mp hd with hd | hd
      · exact h.before d hd
      · cases List.mem_singleton.mp hd
        show time < w.start + len
        omega
    · show debitedSince w.start (debits ++ [(time, cost)]) ≤ w.spent + cost
      have hcovered := h.covered
      rw [debitedSince_append]
      omega

end Covers

end NilStore.Lib
