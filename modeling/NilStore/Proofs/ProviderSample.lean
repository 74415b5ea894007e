import NilStore.Proofs.SlotMap

/-!
# `NilStore.Proofs.ProviderSample`: whom `AssignProviders` picks

The loop of `AssignProviders` draws a candidate by a hash, and draws again when it has that one, or
one with the same address, already. `Selection.Sound` is its invariant, and says nothing of the
hash. The candidates are the providers in the store that the filter lets through, in the order of
the store; `candidates_eq` says that they depend on nothing else in it.
-/

set_option autoImplicit false

namespace NilStore.Chain

open NilStore.Lib

variable {β : Type}

/-- The provider that is stored at a key, if the filter lets it through. -/
def eligibleAt (hintBase : Str) (providers : KVStore Str Provider) (key : Str) : Option Provider :=
  (providers.get key).filter (isCandidate hintBase)

/-- The part of a store that the filter lets through. -/
def eligibleStore (hintBase : Str) (providers : KVStore Str Provider) : KVStore Str Provider :=
  ⟨providers.entries.filter fun e => isCandidate hintBase e.2, providers.sorted.filter _⟩

/-- The store of the eligible providers has those providers that the check passes. -/
theorem get_eligibleStore (hintBase : Str) (providers : KVStore Str Provider) (key : Str) :
    (eligibleStore hintBase providers).get key = eligibleAt hintBase providers key := by
  refine Option.ext fun provider => ?_
  rw [← KVStore.mem_entries, eligibleStore, List.mem_filter, KVStore.mem_entries, eligibleAt,
    Option.filter_eq_some_iff]

/-- The candidates are the eligible providers in the order of their keys. -/
theorem candidates_eq_entries (hintBase : Str) (providers : KVStore Str Provider) :
    candidates hintBase providers = (eligibleStore hintBase providers).entries.map (·.2) := by
  rw [candidates, eligibleStore, List.filter_map]
  rfl

/-- The candidates are those that the filter lets through, and depend on nothing else. -/
theorem candidates_eq {hintBase : Str} {providers others : KVStore Str Provider}
    (h : ∀ key, eligibleAt hintBase providers key = eligibleAt hintBase others key) :
    candidates hintBase providers = candidates hintBase others := by
  have hstore : eligibleStore hintBase providers = eligibleStore hintBase others := by
    refine KVStore.ext_get fun key => ?_
    rw [get_eligibleStore, get_eligibleStore, h]
  rw [candidates_eq_entries, candidates_eq_entries, hstore]

/-- A candidate is stored, and the filter lets it through. -/
theorem mem_candidates {hintBase : Str} {providers : KVStore Str Provider} {q : Provider} :
    q ∈ candidates hintBase providers ↔ ∃ key, eligibleAt hintBase providers key = some q := by
  rw [candidates_eq_entries, List.mem_map]
  constructor
  · rintro ⟨⟨key, q'⟩, hmem, rfl⟩
    exact ⟨key, by rw [← get_eligibleStore, ← KVStore.mem_entries]; exact hmem⟩
  · rintro ⟨key, hkey⟩
    rw [← get_eligibleStore, ← KVStore.mem_entries] at hkey
    exact ⟨_, hkey, rfl⟩

/-- What the filter lets through is active, and has a capability that the hint asks for. A hint that
is empty or `General` asks for none. -/
theorem isCandidate_iff {hintBase : Str} {q : Provider} :
    isCandidate hintBase q ↔ q.status = "Active".toList ∧
      (hintBase = "Hot".toList ∧
          (q.capabilities = "General".toList ∨ q.capabilities = "Edge".toList) ∨
        hintBase = "Cold".toList ∧
          (q.capabilities = "Archive".toList ∨ q.capabilities = "General".toList) ∨
        hintBase = [] ∨ hintBase = "General".toList) := by
  -- the three texts are different, which is all that matters
  have hcold : "Cold".toList ≠ "Hot".toList := by decide
  have hgeneral : "General".toList ≠ "Hot".toList ∧ "General".toList ≠ "Cold".toList := by decide
  have hempty : ([] : Str) ≠ "Hot".toList ∧ ([] : Str) ≠ "Cold".toList := by decide
  rw [isCandidate, Bool.and_eq_true, beq_iff_eq]
  generalize "Hot".toList = hot at *
  generalize "Cold".toList = cold at *
  generalize "General".toList = general at *
  refine and_congr_right fun _ => ?_
  by_cases hint : hintBase = hot
  · subst hint
    simp [hcold.symm, hgeneral.1.symm, hempty.1.symm]
  · by_cases hint' : hintBase = cold
    · subst hint'
      simp [hcold, hgeneral.2.symm, hempty.2.symm]
    · simp [hint, hint']

/-- The sample is one of the eligible providers: as many as were asked for, or as there are, all
distinct. -/
structure DistinctSample (hintBase : Str) (providers : KVStore Str Provider) (count : UInt64)
    (assigned : List Str) : Prop where
  length : assigned.length = min count.toNat (candidates hintBase providers).length
  nodup : assigned.Nodup
  eligible : ∀ addr ∈ assigned, ∃ key q, providers.get key = some q ∧ q.address = addr ∧
    q.status = "Active".toList ∧ isCandidate hintBase q

/-- The assignment depends on the eligible providers only: the others are filtered out before
anything is hashed or counted. -/
theorem assignProviders_congr {env : Env β} {dealId : UInt64} {blockHash : Bytes} {hintBase : Str}
    {count : UInt64} {providers others : KVStore Str Provider} {assigned : List Str}
    (hsame : ∀ key, eligibleAt hintBase providers key = eligibleAt hintBase others key)
    (h : assignProviders env dealId blockHash hintBase count providers = .ok assigned) :
    assignProviders env dealId blockHash hintBase count others = .ok assigned := by
  have hcandidates : (others.entries.map (·.2)).filter (isCandidate hintBase) =
      (providers.entries.map (·.2)).filter (isCandidate hintBase) := (candidates_eq hsame).symm
  rw [assignProviders] at h ⊢
  simp only at h ⊢
  rw [hcandidates]
  -- with candidates, both stores have providers
  by_cases hnone : (providers.entries.map (·.2)).filter (isCandidate hintBase) = []
  · -- Without candidates there was no assignment.
    rw [if_pos hnone] at h
    split at h <;> cases h
  · have hall : others.entries.map (·.2) ≠ [] := by
      intro hnil
      rw [hnil, List.filter_nil] at hcandidates
      exact hnone hcandidates.symm
    rw [if_neg hall, if_neg hnone]
    split at h
    · cases h
    · exact h

/-- **An assignment is a distinct sample of the eligible providers**, whatever the hash does, and
the providers that are not eligible have no part in it. -/
theorem assignment_distinct_sample (env : Env β) (dealId : UInt64) (blockHash : Bytes)
    (hintBase : Str) (count : UInt64) (providers : KVStore Str Provider) (assigned : List Str)
    (h : assignProviders env dealId blockHash hintBase count providers = .ok assigned) :
    DistinctSample hintBase providers count assigned ∧
      ∀ others : KVStore Str Provider,
        (∀ key, eligibleAt hintBase providers key = eligibleAt hintBase others key) →
          assignProviders env dealId blockHash hintBase count others = .ok assigned := by
  refine ⟨⟨(assignProviders_ok h).2.2, (assignProviders_ok h).1, fun addr haddr => ?_⟩,
    fun others hsame => assignProviders_congr hsame h⟩
  -- every assigned address is that of a candidate
  have hcandidate : ∃ q ∈ candidates hintBase providers, q.address = addr := by
    rw [assignProviders] at h
    simp only at h
    split at h
    · cases h
    · split at h
      · cases h
      · split at h
        · cases h
        · rename_i hselected
          cases h
          exact (selectProviders_ok ⟨fun _ => Iff.rfl, List.nodup_nil, by simp, Nat.zero_le _⟩
            hselected).2.1 addr haddr
  obtain ⟨q, hq, rfl⟩ := hcandidate
  obtain ⟨key, hkey⟩ := mem_candidates.mp hq
  obtain ⟨hget, helig⟩ := Option.filter_eq_some_iff.mp hkey
  exact ⟨key, q, hget, rfl, (isCandidate_iff.mp helig).1, helig⟩

/-! ### On a small chain -/

/-- Two registered providers. -/
def twoProviders : KVStore Str Provider :=
  (run (apply (sampleEnv noKeccak [])) (genesis defaultParams sampleBank)
    [.deliver (ctxAt 1) (registerMsg providerText),
      .deliver (ctxAt 1) (registerMsg otherText)]).providers

/-- Twelve are asked for, and both are assigned. -/
theorem assignment_twoProviders :
    ∃ assigned, assignProviders (sampleEnv noKeccak []) 0 [] "General".toList 12 twoProviders =
        .ok assigned ∧ assigned.length = 2 ∧
      DistinctSample "General".toList twoProviders 12 assigned := by
  have hout : (assignProviders (sampleEnv noKeccak []) 0 [] "General".toList 12
      twoProviders).toOption.isSome := by decide +kernel
  have hcount : (candidates "General".toList twoProviders).length = 2 := by decide +kernel
  cases hassign : assignProviders (sampleEnv noKeccak []) 0 [] "General".toList 12 twoProviders with
  | error fault =>
      rw [hassign] at hout
      cases hout
  | ok assigned =>
      have hsample := (assignment_distinct_sample (sampleEnv noKeccak []) 0 [] "General".toList 12
        twoProviders assigned hassign).1
      refine ⟨assigned, rfl, ?_, hsample⟩
      rw [hsample.length, hcount]
      decide

end NilStore.Chain
