import NilStore.Lib.KVStore
import NilStore.Lib.Runs

/-!
# `NilStore.Lib.SharedLedger`: actions on own cells and a shared ledger

A `LedgerMachine` has a store of cells, one for each key, and a ledger that all share. An
action names a key. It replaces the cell at that key and posts entries to the ledger; where
there is no cell it does nothing. What it does may depend on the cell and on the ledger.

Actions on different cells meet in the ledger only. So the order of a list of actions does not
matter (`LedgerMachine.run_perm`) when the machine is `Commutative`: the entries commute, no
entry changes what an action does, and two actions on *one* cell commute as functions of it.
The last condition is about one cell, so it is a finite case analysis where the cell is a
small state machine.
-/

set_option autoImplicit false

namespace NilStore.Lib

/-- Actions `α` on cells `σ` at keys `κ`, and on a ledger `Λ` that takes entries `ε`. -/
structure LedgerMachine (κ σ Λ ε α : Type) where
  key : α → κ
  post : Λ → ε → Λ
  act : α → Λ → σ → σ × List ε

namespace LedgerMachine

variable {κ σ Λ ε α : Type} [LinearOrder κ] (M : LedgerMachine κ σ Λ ε α)

/-- The cells and the ledger. -/
@[ext] structure State (κ σ Λ : Type) [LinearOrder κ] where
  cells : KVStore κ σ
  ledger : Λ

/-- Post entries, first to last. -/
def postAll (l : Λ) (es : List ε) : Λ := es.foldl M.post l

/-- One action. An action on a cell that does not exist changes nothing. -/
def step (s : State κ σ Λ) (a : α) : State κ σ Λ :=
  match s.cells.get (M.key a) with
  | none => s
  | some x =>
      ⟨s.cells.set (M.key a) (M.act a s.ledger x).1, M.postAll s.ledger (M.act a s.ledger x).2⟩

/-- An action whose cell is absent does nothing. -/
theorem step_none {s : State κ σ Λ} {a : α} (h : s.cells.get (M.key a) = none) :
    M.step s a = s := by
  rw [step, h]

/-- An action on a present cell rewrites that cell and posts to the ledger. -/
theorem step_some {s : State κ σ Λ} {a : α} {x : σ} (h : s.cells.get (M.key a) = some x) :
    M.step s a =
      ⟨s.cells.set (M.key a) (M.act a s.ledger x).1,
        M.postAll s.ledger (M.act a s.ledger x).2⟩ := by
  rw [step, h]

/-- Entries commute, no entry changes what an action does, and two actions on one cell do the
same in both orders. -/
structure Commutative : Prop where
  post_comm : ∀ l e e', M.post (M.post l e) e' = M.post (M.post l e') e
  act_post : ∀ a l e x, M.act a (M.post l e) x = M.act a l x
  act_comm : ∀ a b l x, M.key a = M.key b →
    (M.act b l (M.act a l x).1).1 = (M.act a l (M.act b l x).1).1 ∧
      ((M.act a l x).2 ++ (M.act b l (M.act a l x).1).2).Perm
        ((M.act b l x).2 ++ (M.act a l (M.act b l x).1).2)

namespace Commutative

variable {M} (hM : M.Commutative)

include hM

omit [LinearOrder κ] in
/-- The postings of one action may be made in any order. -/
theorem postAll_perm {es es' : List ε} (h : es.Perm es') (l : Λ) :
    M.postAll l es = M.postAll l es' :=
  h.foldl_eq' (fun e _ e' _ l => hM.post_comm l e e') l

omit [LinearOrder κ] in
/-- The postings of two actions may be made in either order. -/
theorem postAll_postAll_comm (l : Λ) (es es' : List ε) :
    M.postAll (M.postAll l es) es' = M.postAll (M.postAll l es') es := by
  have hperm : (es ++ es').Perm (es' ++ es) := List.perm_append_comm
  have h := hM.postAll_perm hperm l
  rw [postAll, postAll, List.foldl_append, List.foldl_append] at h
  exact h

omit [LinearOrder κ] in
/-- What an action does to its cell does not depend on what others posted. -/
theorem act_postAll (a : α) (l : Λ) (es : List ε) (x : σ) :
    M.act a (M.postAll l es) x = M.act a l x := by
  induction es generalizing l with
  | nil => rfl
  | cons e es ih =>
      show M.act a (M.postAll (M.post l e) es) x = M.act a l x
      rw [ih, hM.act_post]

/-- Two actions commute. On different cells each reads and writes its own, and their posts to the
ledger commute; on one cell the two have to commute there, and must post the same together. -/
theorem step_comm (s : State κ σ Λ) (a b : α) :
    M.step (M.step s a) b = M.step (M.step s b) a := by
  cases ha : s.cells.get (M.key a) with
  -- an action on a cell that is not there does nothing, before and after the other one
  | none =>
      rw [M.step_none ha]
      refine (M.step_none ?_).symm
      cases hb : s.cells.get (M.key b) with
      | none => rwa [M.step_none hb]
      | some y =>
          have hne : M.key a ≠ M.key b := by
            intro heq
            rw [heq, hb] at ha
            cases ha
          rw [M.step_some hb]
          show (s.cells.set (M.key b) _).get (M.key a) = none
          rwa [KVStore.get_set_ne _ hne]
  | some x =>
      cases hb : s.cells.get (M.key b) with
      | none =>
          have hne : M.key b ≠ M.key a := by
            intro heq
            rw [heq, ha] at hb
            cases hb
          rw [M.step_none hb, M.step_some ha]
          refine M.step_none ?_
          show (s.cells.set (M.key a) _).get (M.key b) = none
          rwa [KVStore.get_set_ne _ hne]
      | some y =>
          by_cases hkey : M.key a = M.key b
          · -- One cell: what the two actions do to it and post is the same in both orders.
            have hxy : x = y := by
              rw [hkey, hb] at ha
              exact (Option.some.inj ha).symm
            subst hxy
            rw [M.step_some ha, M.step_some hb,
              M.step_some (x := (M.act a s.ledger x).1)
                (by rw [hkey]; exact KVStore.get_set_self ..),
              M.step_some (x := (M.act b s.ledger x).1)
                (by rw [hkey]; exact KVStore.get_set_self ..)]
            obtain ⟨hcell, hposts⟩ := hM.act_comm a b s.ledger x hkey
            have hledger := hM.postAll_perm hposts s.ledger
            -- what an action does to its cell does not depend on the posts of the other
            simp only [hM.act_postAll]
            rw [postAll, postAll, List.foldl_append, List.foldl_append] at hledger
            ext1
            · show (s.cells.set (M.key a) _).set (M.key b) _ =
                (s.cells.set (M.key b) _).set (M.key a) _
              rw [hkey, KVStore.set_set, KVStore.set_set, hcell]
            · exact hledger
          -- two cells: the writes are to different keys
          · have hkey' : M.key b ≠ M.key a := fun heq => hkey heq.symm
            rw [M.step_some ha, M.step_some hb,
              M.step_some (x := y) (by
                show (s.cells.set (M.key a) _).get (M.key b) = some y
                rwa [KVStore.get_set_ne _ hkey']),
              M.step_some (x := x) (by
                show (s.cells.set (M.key b) _).get (M.key a) = some x
                rwa [KVStore.get_set_ne _ hkey])]
            simp only [hM.act_postAll]
            ext1
            · exact KVStore.set_comm _ hkey _ _
            · exact hM.postAll_postAll_comm _ _ _

/-- The order of the actions does not matter. -/
theorem run_perm {as bs : List α} (h : as.Perm bs) (s : State κ σ Λ) :
    run M.step s as = run M.step s bs :=
  h.foldl_eq' (fun a _ b _ s => hM.step_comm s a b) s

end Commutative

end LedgerMachine

end NilStore.Lib
