import NilStore.Chain.Ledger
import NilStore.Proofs.PrecompileSteps

/-!
# `NilStore.Proofs.SlotMap`: the slot map of a Mode 2 deal

A Mode 2 deal keeps its providers twice: in the slot map, and at the front of its list of
providers. `SlotMap` says that the two agree, that slot `i` carries the number `i`, and that
there are at most `K + M` slots. Creation sets the map up with as many slots as it assigned
providers, saturation appends to the list behind them, and a repair replaces one entry of both.

No step compares a replacement with the providers of the other slots. In runs in which it is a
new one (`FreshRepair`) the slots have distinct providers, and `providerSlotIndex` finds each of
them at its own slot (`SlotMap.providerSlotIndex_eq`).
-/

set_option autoImplicit false

namespace NilStore.Chain

open NilStore.Lib

variable {β : Type}

/-! ### The two representations agree -/

/-- The providers of the slots, in slot order. -/
def Deal.slotProviders (deal : Deal) : List Str := deal.mode2Slots.map (·.provider)

/-- The slot map and the list of providers of a Mode 2 deal agree. -/
structure SlotMap (deal : Deal) : Prop where
  profile : ∃ profile, deal.mode2Profile = some profile ∧
    deal.mode2Slots.length ≤ profile.k.toNat + profile.m.toNat
  slot_eq : ∀ {i : Nat} {slot : DealSlot}, deal.mode2Slots[i]? = some slot → slot.slot.toNat = i
  providers : deal.providers.take deal.mode2Slots.length = deal.slotProviders

/-- The candidates among whom the providers of a deal with this hint are chosen. -/
def candidates (hintBase : Str) (providers : KVStore Str Provider) : List Provider :=
  (providers.entries.map (·.2)).filter (isCandidate hintBase)

section NewDeal

variable {env : Env β} {ctx : Ctx} {providers : KVStore Str Provider} {deal : Deal}

/-- New slots name the providers assigned, in their order. -/
theorem slotProviders_newSlots (ctx : Ctx) (assigned : List Str) :
    (newSlots ctx assigned).map (·.provider) = assigned := by
  refine List.ext_getElem? fun i => ?_
  rw [newSlots, List.getElem?_map, List.getElem?_mapIdx, Option.map_map]
  cases assigned[i]? <;> rfl

/-- A new Mode 2 deal: its hint has an `rs`, its profile is from there, and it has a slot for each
assigned provider. The assignment may find fewer providers than the hint asks for. -/
theorem NewDeal.mode2 (h : NewDeal env ctx providers deal) (hmode : deal.redundancyMode = 2) :
    ∃ raw hint, parseServiceHint raw = .ok hint ∧ hint.hasRS ∧
      deal.mode2Profile = some ⟨hint.rsk.toUInt32, hint.rsm.toUInt32⟩ ∧
      deal.mode2Slots = newSlots ctx deal.providers ∧ deal.providers.Nodup ∧
      deal.providers.length =
        min (hint.rsk + hint.rsm).toNat (candidates hint.base providers).length := by
  obtain ⟨owner, spend, duration, raw, hint, stripe, hparse, hstripe, hassign, -, hshape⟩ := h
  obtain ⟨hnodup, -, hlength⟩ := assignProviders_ok hassign
  have hstripe2 : stripe.2 = 2 := by
    rw [hshape] at hmode
    exact hmode
  -- Mode 2 comes from an `rs` in the hint.
  have hrs : hint.hasRS ∧ stripe.1 = hint.rsk + hint.rsm := by
    rw [requestedStripe] at hstripe
    split at hstripe
    · rename_i hrs
      split at hstripe
      · cases hstripe
      · cases hstripe
        exact ⟨hrs, rfl⟩
    · split at hstripe <;> cases hstripe <;> cases hstripe2
  -- hint, profile, slots, and the number of providers
  refine ⟨raw, hint, hparse, hrs.1, ?_, ?_, hnodup, ?_⟩
  · rw [hshape]
    exact if_pos hstripe2
  · have hslots := congrArg Deal.mode2Slots hshape
    exact hslots.trans (if_pos hstripe2)
  · rw [hlength, hrs.2]
    rfl

/-- A new deal in Mode 2 has a slot map. -/
theorem NewDeal.slotMap (h : NewDeal env ctx providers deal) (hmode : deal.redundancyMode = 2) :
    SlotMap deal := by
  obtain ⟨raw, hint, hparse, hrs, hprofile, hslots, -, hlength⟩ := h.mode2 hmode
  obtain ⟨hsum, htwelve⟩ := (parseServiceHint_checked hparse).sum_le hrs
  have hcount : deal.mode2Slots.length = deal.providers.length := by
    rw [hslots, newSlots, List.length_mapIdx]
  refine ⟨⟨_, hprofile, ?_⟩, fun {i slot} hslot => ?_, ?_⟩
  · rw [hcount, hlength]
    exact (min_le_left _ _).trans hsum
  · have hi : i < deal.mode2Slots.length := (List.getElem?_eq_some_iff.mp hslot).1
    rw [hslots, newSlots, List.getElem?_mapIdx, Option.map_eq_some_iff] at hslot
    obtain ⟨provider, -, rfl⟩ := hslot
    rw [UInt32.toNat_ofNat', Nat.mod_eq_of_lt (by omega)]
  · rw [hcount, List.take_length, Deal.slotProviders, hslots, slotProviders_newSlots]

end NewDeal

/-- Writing back the provider of a slot changes nothing. -/
theorem slotProviders_set_self {deal : Deal} {i : Nat} {slot : DealSlot}
    (hslot : deal.mode2Slots[i]? = some slot) :
    deal.slotProviders.set i slot.provider = deal.slotProviders := by
  obtain ⟨hi, rfl⟩ := List.getElem?_eq_some_iff.mp hslot
  refine List.ext_getElem? fun j => ?_
  rw [List.getElem?_set]
  split
  · rename_i hij
    subst hij
    simp [Deal.slotProviders, hi]
  · rfl

section DealStep

variable {env : Env β} {e : Event} {s : KeeperState β} {deal deal' : Deal}

/-- A slot map depends on the profile, the slots and the providers only. -/
theorem SlotMap.of_eq (h : SlotMap deal) (hprofile : deal'.mode2Profile = deal.mode2Profile)
    (hslots : deal'.mode2Slots = deal.mode2Slots) (hproviders : deal'.providers = deal.providers) :
    SlotMap deal' := by
  refine ⟨?_, ?_, ?_⟩
  · rw [hprofile, hslots]
    exact h.profile
  · rw [hslots]
    exact h.slot_eq
  · rw [hproviders, Deal.slotProviders, hslots]
    exact h.providers

/-- One slot is replaced by one of the same number, in both representations. -/
theorem SlotMap.of_set {i : Nat} {slot slot' : DealSlot} (h : SlotMap deal)
    (hslot : deal.mode2Slots[i]? = some slot) (hprofile : deal'.mode2Profile = deal.mode2Profile)
    (hslots : deal'.mode2Slots = deal.mode2Slots.set i slot') (hnumber : slot'.slot = slot.slot)
    (hproviders : deal'.providers.take deal.mode2Slots.length =
      deal.slotProviders.set i slot'.provider) : SlotMap deal' := by
  refine ⟨?_, fun {j slot''} hget => ?_, ?_⟩
  · rw [hprofile, hslots, List.length_set]
    exact h.profile
  · rw [hslots, List.getElem?_set] at hget
    split at hget
    · rename_i hij
      subst hij
      split at hget
      · cases hget
        rw [hnumber]
        exact h.slot_eq hslot
      · cases hget
    · exact h.slot_eq hget
  · rw [Deal.slotProviders, hslots, List.length_set, List.map_set]
    exact hproviders

/-- Each step keeps the two representations in agreement. -/
theorem DealStep.slotMap (hstep : DealStep env e s deal deal') (h : SlotMap deal) :
    SlotMap deal' := by
  cases hstep with
  | escrow amount => exact h.of_eq rfl rfl rfl
  | content size deposit hroot => exact h.of_eq rfl rfl rfl
  | saturated he hget hadmitted hassign =>
      refine ⟨h.profile, h.slot_eq, ?_⟩
      -- The slots reach no further than the old list.
      have hlength : deal.mode2Slots.length ≤ deal.providers.length := by
        have := congrArg List.length h.providers
        rw [List.length_take, Deal.slotProviders, List.length_map] at this
        omega
      exact (List.take_append_of_le_length hlength).trans h.providers
  | repairStarted hmode hslot hreg =>
      refine h.of_set hslot rfl rfl rfl ?_
      -- The slot keeps its provider.
      exact h.providers.trans (slotProviders_set_self hslot).symm
  | repaired he hpending =>
      refine h.of_set hpending.found rfl rfl rfl ?_
      rw [completeSlot, List.take_set, h.providers]
      rfl

/-- What one step does to the providers of the slots: nothing, or a repair replaces one. -/
theorem DealStep.slotProviders (hstep : DealStep env e s deal deal') :
    deal'.slotProviders = deal.slotProviders ∨
      ∃ ctx msg slot, e = .deliver ctx (.completeSlotRepair msg) ∧
        RepairPending msg s.deals deal slot ∧
        deal'.slotProviders = deal.slotProviders.set msg.slot.toNat slot.pendingProvider := by
  cases hstep with
  | escrow amount => exact Or.inl rfl
  | content size deposit hroot => exact Or.inl rfl
  | saturated he hget hadmitted hassign => exact Or.inl rfl
  | repairStarted hmode hslot hreg =>
      have hself := slotProviders_set_self hslot
      rw [Deal.slotProviders, List.map_set]
      exact Or.inl hself
  | repaired he hpending =>
      refine Or.inr ⟨_, _, _, he, hpending, ?_⟩
      rw [Deal.slotProviders, completeSlot, List.map_set]
      rfl

/-- No step of a deal changes the number of its slots. -/
theorem DealStep.length_slots (hstep : DealStep env e s deal deal') :
    deal'.mode2Slots.length = deal.mode2Slots.length := by
  have hlength : deal'.slotProviders.length = deal.slotProviders.length := by
    rcases hstep.slotProviders with heq | ⟨_, _, _, -, -, heq⟩
    · rw [heq]
    · rw [heq, List.length_set]
  simpa [Deal.slotProviders] using hlength

end DealStep

/-! ### Who proves a leaf -/

section Index

variable {deal : Deal}

/-- A slot map with a slot is one that the callers see. -/
theorem SlotMap.hasSlotMap (h : SlotMap deal) (hmode : deal.redundancyMode = 2)
    (hne : deal.mode2Slots ≠ []) : deal.hasSlotMap = true := by
  obtain ⟨profile, hprofile, -⟩ := h.profile
  simp [Deal.hasSlotMap, hmode, hprofile, hne]

/-- The provider of slot `i` stands at place `i` of the list. -/
theorem SlotMap.getElem?_providers (h : SlotMap deal) {i : Nat} {slot : DealSlot}
    (hslot : deal.mode2Slots[i]? = some slot) : deal.providers[i]? = some slot.provider := by
  have hi := (List.getElem?_eq_some_iff.mp hslot).1
  have hplace : deal.slotProviders[i]? = some slot.provider := by
    rw [Deal.slotProviders, List.getElem?_map, hslot]
    rfl
  rw [← h.providers, List.getElem?_take, if_pos hi] at hplace
  exact hplace

/-- Two slots with the same provider are the same, when the providers are distinct. -/
theorem slot_eq_of_provider_eq (hnodup : deal.slotProviders.Nodup) {i j : Nat}
    {slot slot' : DealSlot} (hslot : deal.mode2Slots[i]? = some slot)
    (hslot' : deal.mode2Slots[j]? = some slot') (heq : slot'.provider = slot.provider) :
    slot' = slot := by
  have hi : deal.slotProviders[i]? = some slot.provider := by
    rw [Deal.slotProviders, List.getElem?_map, hslot]
    rfl
  have hj : deal.slotProviders[j]? = some slot.provider := by
    rw [Deal.slotProviders, List.getElem?_map, hslot', ← heq]
    rfl
  have hij : i = j :=
    (List.getElem?_inj (List.getElem?_eq_some_iff.mp hi).1 hnodup).mp (hi.trans hj.symm)
  subst hij
  rw [hslot] at hslot'
  exact (Option.some.inj hslot').symm

/-- `providerSlotIndex` on a trimmed text: the slots first, then the list. -/
theorem providerSlotIndex_eq_match (hmap : deal.hasSlotMap = true) {p : Str}
    (htrim : trimSpace p = p) (hne : p ≠ []) :
    providerSlotIndex deal p =
      match deal.mode2Slots.find? fun slot => trimSpace slot.provider = p with
      | some slot => some slot.slot.toUInt64
      | none => (deal.providers.findIdx? fun p' => trimSpace p' = p).map UInt64.ofNat := by
  rw [providerSlotIndex]
  simp only [htrim, if_neg hne, if_pos hmap]
  cases deal.mode2Slots.find? fun slot => trimSpace slot.provider = p <;> rfl

/-- The slots of the map have distinct providers: each is found at its own slot, and nobody else is.
The list of providers is a Go slice, so its places are `uint64`s. -/
theorem SlotMap.providerSlotIndex_eq (h : SlotMap deal) (hmode : deal.redundancyMode = 2)
    (hnodup : deal.slotProviders.Nodup) (htrim : ∀ p ∈ deal.providers, trimSpace p = p ∧ p ≠ [])
    {i : Nat} {slot : DealSlot} (hslot : deal.mode2Slots[i]? = some slot) :
    providerSlotIndex deal slot.provider = some (UInt64.ofNat i) ∧
      (deal.providers.length < 2 ^ 64 → ∀ p ∈ deal.providers,
        providerSlotIndex deal p = some (UInt64.ofNat i) → p = slot.provider) := by
  have hne : deal.mode2Slots ≠ [] := fun hnil => by
    rw [hnil] at hslot
    cases hslot
  have hmap := h.hasSlotMap hmode hne
  -- the texts of the slots are trimmed, and the slots are numbered
  have hlisted : ∀ {j : Nat} {slot : DealSlot}, deal.mode2Slots[j]? = some slot →
      trimSpace slot.provider = slot.provider ∧ slot.provider ≠ [] := fun hj =>
    htrim _ (List.mem_of_getElem? (h.getElem?_providers hj))
  have hnumber : ∀ {j : Nat} {slot : DealSlot}, deal.mode2Slots[j]? = some slot →
      slot.slot.toUInt64 = UInt64.ofNat j := by
    intro j slot hj
    have hlt := slot.slot.toNat_lt
    rw [h.slot_eq hj] at hlt
    refine UInt64.toNat_inj.mp ?_
    rw [UInt32.toNat_toUInt64, h.slot_eq hj, UInt64.toNat_ofNat', Nat.mod_eq_of_lt (by omega)]
  -- The slot that the search finds for a listed provider has this provider.
  have hfound : ∀ {p : Str} {slot' : DealSlot},
      (deal.mode2Slots.find? fun slot => trimSpace slot.provider = p) = some slot' →
      ∃ j : Nat, deal.mode2Slots[j]? = some slot' ∧ slot'.provider = p := by
    intro p slot' hfind
    obtain ⟨j, hj⟩ := List.getElem?_of_mem (List.mem_of_find?_eq_some hfind)
    have heq := List.find?_some hfind
    rw [decide_eq_true_eq, (hlisted hj).1] at heq
    exact ⟨j, hj, heq⟩
  constructor
  · obtain ⟨htrim', hne'⟩ := hlisted hslot
    have hsome : (deal.mode2Slots.find?
        fun slot' => trimSpace slot'.provider = slot.provider).isSome := by
      rw [List.find?_isSome]
      exact ⟨slot, List.mem_of_getElem? hslot, by simp [htrim']⟩
    obtain ⟨slot', hfind⟩ := Option.isSome_iff_exists.mp hsome
    obtain ⟨j, hj, heq⟩ := hfound hfind
    have hsame := slot_eq_of_provider_eq hnodup hslot hj heq
    subst hsame
    rw [providerSlotIndex_eq_match hmap htrim' hne', hfind]
    exact congrArg some (hnumber hslot)
  · intro hlength p hp hindex
    obtain ⟨htrim', hne'⟩ := htrim p hp
    rw [providerSlotIndex_eq_match hmap htrim' hne'] at hindex
    cases hfind : deal.mode2Slots.find? fun slot => trimSpace slot.provider = p with
    | some slot' =>
        rw [hfind] at hindex
        obtain ⟨j, hj, heq⟩ := hfound hfind
        -- Slots of one number are one slot.
        have hij : j = i := by
          have hnum := congrArg UInt64.toNat (Option.some.inj hindex)
          rw [← hnumber hslot, UInt32.toNat_toUInt64, UInt32.toNat_toUInt64, h.slot_eq hj,
            h.slot_eq hslot] at hnum
          exact hnum
        subst hij
        rw [hslot] at hj
        cases hj
        exact heq.symm
    | none =>
        rw [hfind] at hindex
        obtain ⟨j, hj, heq⟩ := Option.map_eq_some_iff.mp hindex
        obtain ⟨hjlt, hjp, -⟩ := List.findIdx?_eq_some_iff_getElem.mp hj
        -- The place in the list is that of the slot.
        have hilt := (List.getElem?_eq_some_iff.mp (h.getElem?_providers hslot)).1
        have hij : j = i := by
          have hnum := congrArg UInt64.toNat heq
          rwa [UInt64.toNat_ofNat', UInt64.toNat_ofNat', Nat.mod_eq_of_lt (by omega),
            Nat.mod_eq_of_lt (by omega)] at hnum
        subst hij
        have hplace := (List.getElem?_eq_some_iff.mp (h.getElem?_providers hslot)).2
        rw [decide_eq_true_eq, hplace, (hlisted hslot).1] at hjp
        exact hjp.symm

end Index

/-! ### Over whole runs -/

/-- A repair that the event completes puts in a provider that no slot of the deal has. -/
def FreshRepair (s : KeeperState β) (e : Event) : Prop :=
  ∀ ctx msg deal slot, e = .deliver ctx (.completeSlotRepair msg) →
    RepairPending msg s.deals deal slot → slot.pendingProvider ∉ deal.slotProviders

section Run

variable (env : Env β) (params : Params) (b : β)

/-- The run lemma: in every state reached a deal in Mode 2 has a slot map. -/
theorem run_slotMap (es : List Event) {d : Nat} {deal : Deal}
    (hget : (run (apply env) (genesis params b) es).deals.get d = some deal)
    (hmode : deal.redundancyMode = 2) : SlotMap deal := by
  refine run_deals env params b (fun _ _ => True)
    (fun _ _ deal => deal.redundancyMode = 2 → SlotMap deal) ?_ ?_ (fun _ _ _ _ => trivial) d deal
    hget hmode
  · exact fun past e d deal _ _ hnew => hnew.slotMap
  · intro past e d deal deal' _ _ hstep ih hmode'
    exact hstep.slotMap (ih (hstep.frame.2.2.2.2.1 ▸ hmode'))

/-- The slots of a deal, as many as at its creation: the stripe of a hint with an `rs`, or as
many as there were candidates. -/
def Provisioned (d : Nat) (deal : Deal) : List Event → Prop :=
  Occurs fun past e =>
    (run (apply env) (genesis params b) past).deals.get d = none ∧
      ∃ raw hint, parseServiceHint raw = .ok hint ∧ hint.hasRS ∧
        deal.mode2Profile = some ⟨hint.rsk.toUInt32, hint.rsm.toUInt32⟩ ∧
        deal.mode2Slots.length = min (hint.rsk + hint.rsm).toNat
          (candidates hint.base (run (apply env) (genesis params b) past).providers).length ∧
        deal.startBlock = e.ctx.height64

/-- Every deal reached was provisioned when it was created. -/
theorem run_provisioned (es : List Event) {d : Nat} {deal : Deal}
    (hget : (run (apply env) (genesis params b) es).deals.get d = some deal)
    (hmode : deal.redundancyMode = 2) : Provisioned env params b d deal es := by
  refine run_deals env params b (fun _ _ => True)
    (fun past d deal => deal.redundancyMode = 2 → Provisioned env params b d deal past) ?_ ?_
    (fun _ _ _ _ => trivial) d deal hget hmode
  · intro past e d deal _ hnone hnew hmode
    obtain ⟨raw, hint, hparse, hrs, hprofile, hslots, -, hlength⟩ := hnew.mode2 hmode
    refine occurs_snoc.mpr (Or.inr ⟨hnone, raw, hint, hparse, hrs, hprofile, ?_, ?_⟩)
    · rw [hslots, newSlots, List.length_mapIdx, hlength]
    · obtain ⟨owner, spend, duration, raw, hint, stripe, -, -, -, -, hshape⟩ := hnew
      rw [hshape]
      rfl
  · intro past e d deal deal' _ _ hstep ih hmode'
    obtain ⟨-, -, hstart, -, hmode, hprofile, -⟩ := hstep.frame
    rw [Provisioned, hprofile, hstep.length_slots, hstart]
    exact (ih (hmode ▸ hmode')).append [e]

/-- If replacements are new to their deal, no provider serves two slots of it. -/
theorem run_slotProviders_nodup {es : List Event}
    (hes : Along (fun past e => FreshRepair (run (apply env) (genesis params b) past) e) es)
    {d : Nat} {deal : Deal}
    (hget : (run (apply env) (genesis params b) es).deals.get d = some deal)
    (hmode : deal.redundancyMode = 2) : deal.slotProviders.Nodup := by
  refine run_deals env params b _
    (fun _ _ deal => deal.redundancyMode = 2 → deal.slotProviders.Nodup) ?_ ?_ hes d deal hget hmode
  · intro past e d deal _ _ hnew hmode
    obtain ⟨raw, hint, -, -, -, hslots, hnodup, -⟩ := hnew.mode2 hmode
    rw [Deal.slotProviders, hslots, slotProviders_newSlots]
    exact hnodup
  · intro past e d deal deal' hok _ hstep ih hmode'
    have ih := ih (hstep.frame.2.2.2.2.1 ▸ hmode')
    rcases hstep.slotProviders with heq | ⟨ctx, msg, slot, he, hpending, heq⟩
    · rw [heq]
      exact ih
    · rw [heq]
      exact ih.set (hok ctx msg deal slot he hpending)

/-- Whoever a stored deal lists has a trimmed, non-empty text. -/
theorem run_listed_trimmed (es : List Event) {d : Nat} {deal : Deal}
    (hget : (run (apply env) (genesis params b) es).deals.get d = some deal) :
    ∀ p ∈ deal.providers, trimSpace p = p ∧ p ≠ [] := fun p hp =>
  have hs := run_wellFormed env params b es
  (hs.canonical (hs.listed hget p hp)).trimSpace

end Run

/-- A listed provider may prove a leaf of slot `i` exactly when it is the provider of the
slot. -/
theorem SlotMap.livenessGuard_iff {deal : Deal} (h : SlotMap deal)
    (hmode : deal.redundancyMode = 2) (hnodup : deal.slotProviders.Nodup)
    (htrim : ∀ p ∈ deal.providers, trimSpace p = p ∧ p ≠ [])
    (hlength : deal.providers.length < 2 ^ 64) {i : Nat} {slot : DealSlot}
    (hslot : deal.mode2Slots[i]? = some slot) {stripe : StripeParams} {proof : ChainedProof}
    (hstripe : stripe.mode = 2) (hleaf : proof.blobIndex.toUInt64 < stripe.leafCount)
    (hrow : leafSlotIndex proof.blobIndex.toUInt64 stripe.rows = .ok (UInt64.ofNat i))
    {p : Str} (hp : p ∈ deal.providers) :
    livenessGuard deal stripe p proof = true ↔ p = slot.provider := by
  obtain ⟨hown, hother⟩ := h.providerSlotIndex_eq hmode hnodup htrim hslot
  simp only [livenessGuard, hleaf, decide_true, Bool.true_and, if_pos hstripe, hrow, beq_iff_eq]
  constructor
  · exact hother hlength p hp
  · rintro rfl
    exact hown

/-- The slot map of a Mode 2 deal, in every reachable state. It agrees with the list of providers;
its size is the stripe that the deal's hint asked for, or the number of candidates at its creation,
and never above `K + M`. In runs whose repairs put in new providers, the providers of the slots are
distinct, each is found at its own slot, and each leaf of a slot has one listed provider that may
prove it. -/
theorem mode2_slot_map (env : Env β) (params : Params) (b : β) (es : List Event) :
    (∀ d deal, (run (apply env) (genesis params b) es).deals.get d = some deal →
      deal.redundancyMode = 2 → SlotMap deal ∧ Provisioned env params b d deal es) ∧
    (Along (fun past e => FreshRepair (run (apply env) (genesis params b) past) e) es →
      ∀ d deal, (run (apply env) (genesis params b) es).deals.get d = some deal →
        deal.redundancyMode = 2 →
        deal.slotProviders.Nodup ∧
          ∀ (i : Nat) slot, deal.mode2Slots[i]? = some slot →
            providerSlotIndex deal slot.provider = some (UInt64.ofNat i) ∧
              (deal.providers.length < 2 ^ 64 →
                ∀ stripe proof, stripe.mode = 2 →
                  proof.blobIndex.toUInt64 < stripe.leafCount →
                  leafSlotIndex proof.blobIndex.toUInt64 stripe.rows = .ok (UInt64.ofNat i) →
                  ∀ p ∈ deal.providers,
                    livenessGuard deal stripe p proof = true ↔ p = slot.provider)) := by
  refine ⟨fun d deal hget hmode => ⟨run_slotMap env params b es hget hmode,
    run_provisioned env params b es hget hmode⟩, fun hes d deal hget hmode => ?_⟩
  have hmap := run_slotMap env params b es hget hmode
  have hnodup := run_slotProviders_nodup env params b hes hget hmode
  have htrim := run_listed_trimmed env params b es hget
  refine ⟨hnodup, fun i slot hslot => ⟨?_, ?_⟩⟩
  · exact (hmap.providerSlotIndex_eq hmode hnodup htrim hslot).1
  · intro hlength stripe proof hstripe hleaf hrow p hp
    exact hmap.livenessGuard_iff hmode hnodup htrim hlength hslot hstripe hleaf hrow hp

/-- A chain with one provider, and a deal that asks for twelve slots. -/
def shortStripe : List Event :=
  [.deliver (ctxAt 1) (registerMsg providerText),
    .deliver (ctxAt 1) (createMsg 100 "General:rs=8+4")]

/-- A Mode 2 deal may have fewer slots than `K + M`. -/
theorem slots_fewer_than_profile :
    ¬∀ d deal profile,
      (run (apply (sampleEnv noKeccak [])) (genesis defaultParams sampleBank) shortStripe).deals.get
        d =
        some deal →
      deal.redundancyMode = 2 → deal.mode2Profile = some profile →
      deal.mode2Slots.length = profile.k.toNat + profile.m.toNat := by
  have hrun : ((run (apply (sampleEnv noKeccak [])) (genesis defaultParams sampleBank)
      shortStripe).deals.get 0).map
        (fun deal => (deal.redundancyMode, deal.mode2Slots.length, deal.mode2Profile)) =
      some (2, 1, some ⟨8, 4⟩) := by decide +kernel
  intro hall
  obtain ⟨deal, hget, heq⟩ := Option.map_eq_some_iff.mp hrun
  obtain ⟨hmode, hlength, hprofile⟩ : deal.redundancyMode = 2 ∧ deal.mode2Slots.length = 1 ∧
      deal.mode2Profile = some ⟨8, 4⟩ := by simpa using heq
  have hfull := hall 0 deal _ hget hmode hprofile
  rw [hlength] at hfull
  exact absurd hfull (by decide)

end NilStore.Chain
