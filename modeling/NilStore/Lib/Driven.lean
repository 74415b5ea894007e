import NilStore.Lib.Runs

/-!
# `NilStore.Lib.Driven`: a view of a machine that inputs drive

A view is what an observer keeps of a machine's state. Inputs move it with `step`, and `admits`
says which input the view lets through. `Driven step admits v acts v'` says that the inputs, each
let through when its turn comes, take the view from `v` to `v'`.

`run_driven` is the refinement rule: when each event of a machine drives the view with what the
event puts out, a whole run drives it with the trace of the run. Events that put out nothing leave
the view alone, so they need not be told apart.
-/

set_option autoImplicit false

namespace NilStore.Lib

variable {σ ε ν α : Type}

/-- The inputs take the view from `v` to `v'`, and each was let through. -/
structure Driven (step : ν → α → ν) (admits : ν → α → Prop) (v : ν) (acts : List α) (v' : ν) :
    Prop where
  reached : v' = run step v acts
  admitted : Along (fun past act => admits (run step v past) act) acts

section Driven

variable {step : ν → α → ν} {admits : ν → α → Prop} {v v' v'' : ν} {acts rest : List α}

/-- Without inputs the view stays. -/
theorem Driven.nil (h : v' = v) : Driven step admits v [] v' := ⟨h, along_nil⟩

/-- One input. -/
theorem Driven.one {act : α} (hadmits : admits v act) (h : v' = step v act) :
    Driven step admits v [act] v' := by
  refine ⟨h, ?_⟩
  have hone : Along (fun past act => admits (run step v past) act) ([] ++ [act]) :=
    along_snoc along_nil hadmits
  exact hone

/-- One more input. -/
theorem Driven.snoc {act : α} (h : Driven step admits v acts v') (hadmits : admits v' act) :
    Driven step admits v (acts ++ [act]) (step v' act) := by
  obtain ⟨rfl, hacts⟩ := h
  exact ⟨(run_snoc step v acts act).symm, along_snoc hacts hadmits⟩

/-- Inputs, and then others. -/
theorem Driven.append (h : Driven step admits v acts v') (h' : Driven step admits v' rest v'') :
    Driven step admits v (acts ++ rest) v'' := by
  obtain ⟨rfl, hrest⟩ := h'
  induction rest using List.reverseRecOn with
  | nil => simpa using h
  | append_singleton rest act ih =>
      have hdriven := ih hrest.left
      rw [← List.append_assoc, run_snoc]
      exact hdriven.snoc hrest.last

/-- What the view has at first and every input keeps, it has at last. -/
theorem Driven.invariant {P : ν → Prop} (h : Driven step admits v acts v') (hP : P v)
    (hstep : ∀ u, ∀ act ∈ acts, P u → admits u act → P (step u act)) : P v' := by
  obtain ⟨rfl, hacts⟩ := h
  induction acts using List.reverseRecOn with
  | nil => exact hP
  | append_singleton acts act ih =>
      have hbefore : P (run step v acts) :=
        ih (fun u act hact => hstep u act (List.mem_append_left _ hact)) hacts.left
      rw [run_snoc]
      exact hstep _ act (by simp) hbefore hacts.last

end Driven

/-- When each event drives the view with what it puts out, so does a run. -/
theorem run_driven {next : σ → ε → σ} {out : σ → ε → List α} {view : σ → Option ν}
    {step : ν → α → ν} {admits : ν → α → Prop} {I : σ → Prop} (hI : ∀ s e, I s → I (next s e))
    (hstep : ∀ s e v, I s → view s = some v →
      ∃ v', view (next s e) = some v' ∧ Driven step admits v (out s e) v')
    {s : σ} {v : ν} (hs : I s) (hview : view s = some v) (es : List ε) :
    ∃ v', view (run next s es) = some v' ∧ Driven step admits v (trace next out s es) v' := by
  induction es generalizing s v with
  | nil => exact ⟨v, hview, .nil rfl⟩
  | cons e es ih =>
      obtain ⟨v₁, hview₁, hdriven₁⟩ := hstep s e v hs hview
      obtain ⟨v', hview', hdriven'⟩ := ih (hI s e hs) hview₁
      exact ⟨v', hview', hdriven₁.append hdriven'⟩

end NilStore.Lib
