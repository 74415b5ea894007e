import NilStore.Lib.KVStore
import NilStore.Lib.Runs

/-!
# `NilStore.Lib.TtlCache`: caches whose entries expire

A cache keeps a value under a key until a time. An entry that has expired stays where it is, but is
not answered. `LastPut` says after which events of a run the last value of a key was put in. When
every value is put in for the same time to live, `run_load` says what the cache of a machine
answers: the value that was put in last, as long as it is not too old.
-/

set_option autoImplicit false

namespace NilStore.Lib

variable {κ ν : Type}

/-! ### What is put in last -/

section Last

variable {σ ε : Type} {step : σ → ε → σ} {s₀ : σ} {puts : σ → ε → Option (κ × ν)}

/-- The value was put in by the event after `past`, and no later event of the run has put in another
one under its key. -/
def LastPut (step : σ → ε → σ) (s₀ : σ) (puts : σ → ε → Option (κ × ν)) (es past : List ε)
    (k : κ) (v : ν) : Prop :=
  ∃ e rest, es = past ++ e :: rest ∧ puts (run step s₀ past) e = some (k, v) ∧
    ∀ mid f tail, rest = mid ++ f :: tail →
      ∀ v', puts (run step s₀ (past ++ e :: mid)) f ≠ some (k, v')

/-- Before the first event nothing has been put. -/
theorem not_lastPut_nil {past : List ε} {k : κ} {v : ν} : ¬LastPut step s₀ puts [] past k v := by
  rintro ⟨e, rest, heq, -⟩
  exact absurd heq.symm (by simp)

/-- The last value is the one of the last event, or was the last one before it. -/
theorem lastPut_snoc {es past : List ε} {e : ε} {k : κ} {v : ν} :
    LastPut step s₀ puts (es ++ [e]) past k v ↔
      (past = es ∧ puts (run step s₀ es) e = some (k, v)) ∨
        LastPut step s₀ puts es past k v ∧ ∀ v', puts (run step s₀ es) e ≠ some (k, v') := by
  constructor
  · rintro ⟨f, rest, heq, hput, hlast⟩
    -- the last value comes from the last event, or it comes from one before it
    rcases List.eq_nil_or_concat rest with rfl | ⟨rest, g, rfl⟩
    · obtain ⟨rfl, hf⟩ := List.append_inj' heq rfl
      cases hf
      exact .inl ⟨rfl, hput⟩
    · rw [List.concat_eq_append, ← List.cons_append, ← List.append_assoc] at heq
      obtain ⟨rfl, hg⟩ := List.append_inj' heq rfl
      cases hg
      refine .inr ⟨⟨f, rest, rfl, hput, fun mid g' tail hrest => ?_⟩, hlast rest e [] (by simp)⟩
      exact hlast mid g' (tail ++ [e]) (by simp [hrest])
  · rintro (⟨rfl, hput⟩ | ⟨⟨f, rest, rfl, hput, hlast⟩, hnone⟩)
    · refine ⟨e, [], rfl, hput, fun mid f tail hrest => ?_⟩
      exact absurd hrest.symm (by simp)
    · refine ⟨f, rest ++ [e], by simp, hput, fun mid g tail hrest => ?_⟩
      rcases List.eq_nil_or_concat tail with rfl | ⟨tail, h, rfl⟩
      · obtain ⟨rfl, hg⟩ := List.append_inj' hrest rfl
        cases hg
        exact hnone
      · rw [List.concat_eq_append, ← List.cons_append, ← List.append_assoc] at hrest
        obtain ⟨rfl, -⟩ := List.append_inj' hrest rfl
        exact hlast mid g tail rfl

end Last

/-! ### Caches -/

/-- A value, and the time from which on it is not answered. -/
structure Timed (ν : Type) where
  value : ν
  expires : Nat
deriving DecidableEq

/-- A cache whose entries carry the time they expire at. -/
abbrev TtlCache (κ ν : Type) [LinearOrder κ] := KVStore κ (Timed ν)

variable [LinearOrder κ]

namespace TtlCache

/-- The value of the key, unless it has expired. An expired entry stays in the cache until it is
replaced. -/
def load (c : TtlCache κ ν) (now : Nat) (k : κ) : Option ν :=
  (c.get k).bind fun entry => if now < entry.expires then some entry.value else none

/-- Put in a value, or nothing. An older entry of the key is replaced. -/
def put (c : TtlCache κ ν) (expires : Nat) : Option (κ × ν) → TtlCache κ ν
  | some (k, v) => c.set k ⟨v, expires⟩
  | none => c

/-- A load gives what is stored under the key as long as its time has not come. -/
theorem load_eq_some {c : TtlCache κ ν} {now : Nat} {k : κ} {v : ν} :
    c.load now k = some v ↔ ∃ expires, c.get k = some ⟨v, expires⟩ ∧ now < expires := by
  unfold load
  cases hget : c.get k with
  | none => simp
  | some entry =>
      simp only [Option.bind_some, Option.some.injEq]
      constructor
      · intro h
        split at h
        · rename_i hlt
          cases h
          exact ⟨entry.expires, rfl, hlt⟩
        · cases h
      · rintro ⟨expires, rfl, hlt⟩
        exact if_pos hlt

end TtlCache

section Run

variable {σ ε : Type} {step : σ → ε → σ} {s₀ : σ} {puts : σ → ε → Option (κ × ν)}
variable (now : σ → Nat) (cache : σ → TtlCache κ ν) {ttl : Nat}

/-- What a cache holds after a run is what was put in last. -/
theorem run_get (hempty : cache s₀ = .empty)
    (hstep : ∀ s e, cache (step s e) = (cache s).put (now s + ttl) (puts s e)) (es : List ε)
    (k : κ) (v : ν) (expires : Nat) :
    (cache (run step s₀ es)).get k = some ⟨v, expires⟩ ↔
      ∃ past, LastPut step s₀ puts es past k v ∧ expires = now (run step s₀ past) + ttl := by
  -- the induction is on the run, from its end
  induction es using List.reverseRecOn with
  | nil =>
      rw [run_nil, hempty]
      constructor
      · intro h
        cases h
      · rintro ⟨past, hlast, -⟩
        exact absurd hlast not_lastPut_nil
  | append_singleton es e ih =>
      simp only [run_snoc, hstep, lastPut_snoc]
      -- the last event puts a value, or it does not
      cases hput : puts (run step s₀ es) e with
      | none =>
          rw [TtlCache.put, ih]
          simp
      | some kv =>
          obtain ⟨k', v'⟩ := kv
          rw [TtlCache.put]
          by_cases hk : k = k'
          · subst hk
            rw [KVStore.get_set_self]
            constructor
            · intro h
              cases h
              exact ⟨es, .inl ⟨rfl, rfl⟩, rfl⟩
            · rintro ⟨past, ⟨rfl, h⟩ | ⟨-, h⟩, rfl⟩
              · cases h
                rfl
              · exact absurd rfl (h v')
          · rw [KVStore.get_set_ne _ hk, ih]
            constructor
            · rintro ⟨past, hlast, hexpires⟩
              refine ⟨past, .inr ⟨hlast, fun v'' h => ?_⟩, hexpires⟩
              cases h
              exact hk rfl
            · rintro ⟨past, ⟨-, h⟩ | ⟨hlast, -⟩, hexpires⟩
              · cases h
                exact absurd rfl hk
              · exact ⟨past, hlast, hexpires⟩

/-- A cache answers the value that was put in last, unless its time is over. -/
theorem run_load (hempty : cache s₀ = .empty)
    (hstep : ∀ s e, cache (step s e) = (cache s).put (now s + ttl) (puts s e)) (es : List ε)
    (t : Nat) (k : κ) (v : ν) :
    (cache (run step s₀ es)).load t k = some v ↔
      ∃ past, LastPut step s₀ puts es past k v ∧ t < now (run step s₀ past) + ttl := by
  rw [TtlCache.load_eq_some]
  constructor
  · rintro ⟨expires, hget, hlt⟩
    obtain ⟨past, hlast, rfl⟩ := (run_get now cache hempty hstep es k v expires).mp hget
    exact ⟨past, hlast, hlt⟩
  · rintro ⟨past, hlast, hlt⟩
    exact ⟨_, (run_get now cache hempty hstep es k v _).mpr ⟨past, hlast, rfl⟩, hlt⟩

end Run

end NilStore.Lib
