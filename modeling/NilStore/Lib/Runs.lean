import Mathlib.Data.List.Induction
import Mathlib.Tactic.Common

/-!
# `NilStore.Lib.Runs`: runs of a machine, and their invariants

A machine is a step function on states and events. `run step s es` is the state after the
events, first to last. A condition on an event may look at the events before it: `Along ok es`
says that each event of the run meets it after its own past, and holds of every beginning of a
run of which it holds (`Along.left`). `Occurs P es` says that some event does. `trace` collects
what the steps put out.

`run_history` is the induction: a relation between the past and the state that holds at the
start and survives each step holds after every run. `run_invariant` is the case in which the
past does not matter.
-/

set_option autoImplicit false

namespace NilStore.Lib

variable {σ ε : Type}

/-- The state after the events. The first event of the list happens first. -/
def run (step : σ → ε → σ) (s : σ) (es : List ε) : σ := es.foldl step s

/-- A run of no events stays where it is. -/
@[simp] theorem run_nil (step : σ → ε → σ) (s : σ) : run step s [] = s := rfl

/-- A run takes its first event first. -/
@[simp] theorem run_cons (step : σ → ε → σ) (s : σ) (e : ε) (es : List ε) :
    run step s (e :: es) = run step (step s e) es := rfl

/-- A run can be cut anywhere. -/
theorem run_append (step : σ → ε → σ) (s : σ) (es fs : List ε) :
    run step s (es ++ fs) = run step (run step s es) fs := List.foldl_append

/-- A run takes its last event in the state the others lead to. -/
theorem run_snoc (step : σ → ε → σ) (s : σ) (es : List ε) (e : ε) :
    run step s (es ++ [e]) = step (run step s es) e := run_append step s es [e]

/-- Each event meets the condition after the events before it. -/
def Along (ok : List ε → ε → Prop) (es : List ε) : Prop :=
  ∀ past e rest, es = past ++ e :: rest → ok past e

section Along

variable {ok : List ε → ε → Prop} {es fs : List ε}

/-- What holds along a run holds along its beginnings. -/
theorem Along.left (h : Along ok (es ++ fs)) : Along ok es := by
  intro past e rest heq
  exact h past e (rest ++ fs) (by rw [heq, List.append_assoc, List.cons_append])

/-- What holds along a run holds of its last event, given the others. -/
theorem Along.last {e : ε} (h : Along ok (es ++ [e])) : ok es e := h es e [] rfl

/-- Everything holds along the empty run. -/
theorem along_nil : Along ok [] := by
  intro past e rest heq
  exact absurd heq.symm (by simp)

/-- One more event that meets the condition extends a run that meets it. -/
theorem along_snoc {e : ε} (h : Along ok es) (he : ok es e) : Along ok (es ++ [e]) := by
  intro past f rest heq
  rcases List.eq_nil_or_concat rest with rfl | ⟨rest, g, rfl⟩
  · obtain ⟨rfl, hf⟩ := List.append_inj' heq rfl
    cases hf
    exact he
  · rw [List.concat_eq_append, ← List.cons_append, ← List.append_assoc] at heq
    obtain ⟨rfl, -⟩ := List.append_inj' heq rfl
    exact h past f rest rfl

/-- A condition along a run may be weakened. -/
theorem Along.mono {ok' : List ε → ε → Prop} (h : Along ok es)
    (himp : ∀ past e, ok past e → ok' past e) : Along ok' es :=
  fun past e rest heq => himp past e (h past e rest heq)

/-- Two conditions along a run hold together. -/
theorem Along.and {ok' : List ε → ε → Prop} (h : Along ok es) (h' : Along ok' es) :
    Along (fun past e => ok past e ∧ ok' past e) es :=
  fun past e rest heq => ⟨h past e rest heq, h' past e rest heq⟩

/-- Event by event: each one meets the condition after those before it. -/
theorem along_iff_take :
    Along ok es ↔ ∀ i : Fin es.length, ok (es.take i) (es.get i) := by
  constructor
  · intro h i
    refine h _ _ (es.drop (i + 1)) ?_
    rw [List.get_eq_getElem, List.getElem_cons_drop, List.take_append_drop]
  · intro h past e rest heq
    subst heq
    have hlast := h ⟨past.length, by simp⟩
    simpa using hlast

instance [∀ past e, Decidable (ok past e)] : Decidable (Along ok es) :=
  decidable_of_iff _ along_iff_take.symm

end Along

/-- Some event of the run meets the condition after its own past. It may meet it in one place
only. -/
def Occurs (P : List ε → ε → Prop) (es : List ε) : Prop :=
  ∃ past e rest, es = past ++ e :: rest ∧ P past e

section Occurs

variable {P : List ε → ε → Prop} {es fs : List ε} {e : ε}

/-- Nothing occurs in the empty run. -/
theorem not_occurs_nil : ¬Occurs P [] := by
  rintro ⟨past, e, rest, heq, -⟩
  exact absurd heq.symm (by simp)

/-- What occurs in a run occurred before its last event or is that event. -/
theorem occurs_snoc : Occurs P (es ++ [e]) ↔ Occurs P es ∨ P es e := by
  constructor
  · rintro ⟨past, f, rest, heq, hP⟩
    rcases List.eq_nil_or_concat rest with rfl | ⟨rest, g, rfl⟩
    · obtain ⟨rfl, hf⟩ := List.append_inj' heq rfl
      cases hf
      exact Or.inr hP
    · rw [List.concat_eq_append, ← List.cons_append, ← List.append_assoc] at heq
      obtain ⟨rfl, -⟩ := List.append_inj' heq rfl
      exact Or.inl ⟨past, f, rest, rfl, hP⟩
  · rintro (⟨past, f, rest, rfl, hP⟩ | hP)
    · exact ⟨past, f, rest ++ [e], by simp, hP⟩
    · exact ⟨es, e, [], rfl, hP⟩

/-- What has occurred stays occurred. -/
theorem Occurs.append (h : Occurs P es) (fs : List ε) : Occurs P (es ++ fs) := by
  obtain ⟨past, e, rest, rfl, hP⟩ := h
  exact ⟨past, e, rest ++ fs, by simp, hP⟩

/-- What occurred may be described less precisely. -/
theorem Occurs.mono {Q : List ε → ε → Prop} (h : Occurs P es)
    (himp : ∀ past e, P past e → Q past e) : Occurs Q es := by
  obtain ⟨past, e, rest, rfl, hP⟩ := h
  exact ⟨past, e, rest, rfl, himp past e hP⟩

end Occurs

section Trace

variable {α : Type}

/-- What the steps of a run put out, first to last. -/
def trace (step : σ → ε → σ) (out : σ → ε → List α) (s : σ) : List ε → List α
  | [] => []
  | e :: es => out s e ++ trace step out (step s e) es

/-- The trace of a run that is cut is the trace of each part, the second one taken from where the
first ends. -/
theorem trace_append (step : σ → ε → σ) (out : σ → ε → List α) (s : σ) (es fs : List ε) :
    trace step out s (es ++ fs) = trace step out s es ++ trace step out (run step s es) fs := by
  induction es generalizing s with
  | nil => rfl
  | cons e es ih => rw [List.cons_append, trace, trace, ih, run_cons, List.append_assoc]

/-- The last event adds to the trace what it puts out in the state before it. -/
theorem trace_snoc (step : σ → ε → σ) (out : σ → ε → List α) (s : σ) (es : List ε) (e : ε) :
    trace step out s (es ++ [e]) = trace step out s es ++ out (run step s es) e := by
  rw [trace_append, trace, trace, List.append_nil]

/-- What a run puts out, one of its events has put out. -/
theorem mem_trace {step : σ → ε → σ} {out : σ → ε → List α} {s : σ} {es : List ε} {x : α}
    (h : x ∈ trace step out s es) :
    ∃ past e rest, es = past ++ e :: rest ∧ x ∈ out (run step s past) e := by
  induction es using List.reverseRecOn with
  | nil => cases h
  | append_singleton es e ih =>
      rw [trace_snoc] at h
      rcases List.mem_append.mp h with hpast | hlast
      · obtain ⟨past, f, rest, rfl, hx⟩ := ih hpast
        exact ⟨past, f, rest ++ [e], by simp, hx⟩
      · exact ⟨es, e, [], rfl, hlast⟩

/-- Mapping every output maps the trace. -/
theorem trace_map {γ : Type} (step : σ → ε → σ) (out : σ → ε → List α) (f : α → γ) (s : σ)
    (es : List ε) :
    trace step (fun s e => (out s e).map f) s es = (trace step out s es).map f := by
  induction es generalizing s with
  | nil => rfl
  | cons e es ih => rw [trace, trace, ih, List.map_append]

end Trace

/-- A relation between past and state that holds at the start and survives each step holds
after every run. -/
theorem run_history {step : σ → ε → σ} {s₀ : σ} (ok : List ε → ε → Prop)
    (Inv : List ε → σ → Prop) (h₀ : Inv [] s₀)
    (hstep : ∀ past e, Inv past (run step s₀ past) → ok past e →
      Inv (past ++ [e]) (step (run step s₀ past) e))
    {es : List ε} (hes : Along ok es) : Inv es (run step s₀ es) := by
  induction es using List.reverseRecOn with
  | nil => exact h₀
  | append_singleton es e ih =>
      rw [run_snoc]
      exact hstep es e (ih hes.left) hes.last

/-- A property of the state that holds after a run, and that no step of the run brought about,
held before it. -/
theorem run_holds_before {step : σ → ε → σ} {s₀ : σ} {P : σ → Prop} {past es : List ε}
    (h : P (run step s₀ (past ++ es)))
    (hno : ∀ mid e rest, es = mid ++ e :: rest → P (step (run step s₀ (past ++ mid)) e) →
      P (run step s₀ (past ++ mid))) : P (run step s₀ past) := by
  induction es using List.reverseRecOn with
  | nil => rwa [List.append_nil] at h
  | append_singleton es e ih =>
      rw [← List.append_assoc, run_snoc] at h
      refine ih (hno es e [] rfl h) fun mid f rest heq => hno mid f (rest ++ [e]) ?_
      rw [heq, List.append_assoc, List.cons_append]

/-- A run with more than `k` events of a kind has one with exactly `k` such events before
it. -/
theorem exists_split_of_countP {p : ε → Bool} {es : List ε} {k : Nat} (h : k < es.countP p) :
    ∃ past e rest, es = past ++ e :: rest ∧ p e ∧ past.countP p = k := by
  induction es using List.reverseRecOn with
  | nil => simp at h
  | append_singleton es e ih =>
      by_cases hk : k < es.countP p
      · obtain ⟨past, f, rest, rfl, hf, hcount⟩ := ih hk
        exact ⟨past, f, rest ++ [e], by simp, hf, hcount⟩
      · rw [List.countP_append, List.countP_singleton] at h
        split at h
        · rename_i he
          exact ⟨es, e, [], rfl, he, by omega⟩
        · omega

/-- A property of the state that holds at the start and survives each step holds after every
run. -/
theorem run_invariant {step : σ → ε → σ} {s₀ : σ} (ok : ε → Prop) (Inv : σ → Prop)
    (h₀ : Inv s₀) (hstep : ∀ s e, Inv s → ok e → Inv (step s e)) {es : List ε}
    (hes : ∀ e ∈ es, ok e) :
    Inv (run step s₀ es) := by
  refine run_history (fun _ e => ok e) (fun _ s => Inv s) h₀
    (fun past e hinv hok => hstep _ e hinv hok) ?_
  intro past e rest heq
  exact hes e (by rw [heq]; simp)

end NilStore.Lib
