import NilStore.Lib.KVStore
import NilStore.Lib.Runs

/-!
# `NilStore.Lib.Nonces`: stores of last-used nonces

A store keeps the last nonce that was used under each key, and `lastUsed z` reads a key that was
never used as `z`. A use is a key and a nonce; it is accepted when the nonce is above the last one
of its key, and is stored then. `Consumes z m uses m'` says that the uses are accepted one after
the other from `m`, and leave `m'`.

`Consumes.increasing` is what a store of nonces is for: under each key, the accepted nonces
strictly increase. `run_consumes` gathers the uses of a whole run from those of its steps.
-/

set_option autoImplicit false

namespace NilStore.Lib

variable {κ ν : Type} [LinearOrder κ]

/-- The last nonce of the key, `z` when there was none. The next use has to be above it. -/
def lastUsed (z : ν) (m : KVStore κ ν) (k : κ) : ν := (m.get k).getD z

/-- Recording a nonce makes it the last one used under its key. -/
@[simp] theorem lastUsed_set_self (z : ν) (m : KVStore κ ν) (k : κ) (n : ν) :
    lastUsed z (m.set k n) k = n := by
  rw [lastUsed, KVStore.get_set_self, Option.getD_some]

/-- Recording a nonce leaves every other key alone. -/
theorem lastUsed_set_ne (z : ν) (m : KVStore κ ν) {k k' : κ} (n : ν) (h : k' ≠ k) :
    lastUsed z (m.set k n) k' = lastUsed z m k' := by
  rw [lastUsed, KVStore.get_set_ne _ h, lastUsed]

variable [LT ν]

/-- The uses are accepted in order, and leave the second store. -/
inductive Consumes (z : ν) : KVStore κ ν → List (κ × ν) → KVStore κ ν → Prop where
  | done (m : KVStore κ ν) : Consumes z m [] m
  | use {m m' : KVStore κ ν} {k : κ} {n : ν} {uses : List (κ × ν)} (hlt : lastUsed z m k < n)
      (hrest : Consumes z (m.set k n) uses m') : Consumes z m ((k, n) :: uses) m'

section Consumes

variable {z : ν} {m m' m'' : KVStore κ ν} {uses uses' : List (κ × ν)}

/-- A store that has not changed has accepted nothing. -/
theorem Consumes.of_eq (h : m' = m) : Consumes z m [] m' := by
  subst h
  exact .done m'

/-- One use of a nonce above the last one. -/
theorem Consumes.one {k : κ} {n : ν} (h : lastUsed z m k < n) :
    Consumes z m [(k, n)] (m.set k n) := .use h (.done _)

/-- Uses one after another make one list of uses. -/
theorem Consumes.append (h : Consumes z m uses m') (h' : Consumes z m' uses' m'') :
    Consumes z m (uses ++ uses') m'' := by
  induction h with
  | done m => exact h'
  | use hlt hrest ih => exact .use hlt (ih h')

/-- The last nonce of a key is that of its last use. -/
theorem Consumes.lastUsed_eq (h : Consumes z m uses m') (k : κ) :
    lastUsed z m' k =
      ((uses.filter fun u => u.1 = k).getLast?.map (·.2)).getD (lastUsed z m k) := by
  induction h with
  | done m => rfl
  | @use m m' k' n uses hlt hrest ih =>
      rw [ih]
      by_cases hk : k' = k
      · subst hk
        rw [List.filter_cons_of_pos (by simp), List.getLast?_cons, lastUsed_set_self]
        cases (uses.filter fun u => u.1 = k').getLast? <;> rfl
      · rw [List.filter_cons_of_neg (by simpa using hk), lastUsed_set_ne z m n (Ne.symm hk)]

section Order

variable [IsTrans ν (· < ·)]

/-- An accepted nonce is above the last one that its key had at the start. -/
theorem Consumes.above (h : Consumes z m uses m') : ∀ u ∈ uses, lastUsed z m u.1 < u.2 := by
  induction h with
  | done m => nofun
  | @use m m' k n uses hlt hrest ih =>
      intro u hu
      rcases List.mem_cons.mp hu with rfl | hu
      · exact hlt
      · have hlater := ih u hu
        by_cases hk : u.1 = k
        · -- The key was used in between, with a nonce that is above the last one already.
          rw [hk, lastUsed_set_self] at hlater
          rw [hk]
          exact IsTrans.trans _ _ _ hlt hlater
        · rwa [lastUsed_set_ne z m n hk] at hlater

/-- Under each key, the accepted nonces strictly increase. -/
theorem Consumes.increasing (h : Consumes z m uses m') :
    uses.Pairwise fun u v => u.1 = v.1 → u.2 < v.2 := by
  induction h with
  | done m => exact .nil
  | @use m m' k n uses hlt hrest ih =>
      refine List.pairwise_cons.mpr ⟨fun v hv hk => ?_, ih⟩
      have hlater := hrest.above v hv
      rwa [← hk, lastUsed_set_self] at hlater

end Order

end Consumes

/-- The uses of a run are those of its steps. -/
theorem run_consumes {σ ε : Type} {step : σ → ε → σ} {s₀ : σ} {z : ν} (ok : List ε → ε → Prop)
    (store : σ → KVStore κ ν) (out : σ → ε → List (κ × ν))
    (hstep : ∀ past e, ok past e → Consumes z (store (run step s₀ past)) (out (run step s₀ past) e)
      (store (step (run step s₀ past) e)))
    {es : List ε} (hes : Along ok es) :
    Consumes z (store s₀) (trace step out s₀ es) (store (run step s₀ es)) := by
  induction es using List.reverseRecOn with
  | nil => exact .done _
  | append_singleton past e ih =>
      rw [trace_snoc, run_snoc]
      exact (ih hes.left).append (hstep past e hes.last)

end NilStore.Lib
