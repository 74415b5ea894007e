import NilStore.Gateway.DealProviders
import NilStore.Lib.Grouping
import NilStore.Proofs.BatchRule
import NilStore.Proofs.PlanCoverage
import NilStore.Proofs.SlotMap

/-!
# `NilStore.Proofs.SlotProviders`: the list of providers as a table of slots

`fetchDealProvidersFromLCD` lists the providers of the active slots, and then those of the slots
under repair. Its callers take entry `s` for the provider of slot `s`. That is right exactly when no
slot under repair stands before an active one (`fetchDealProviders_slots`).
-/

set_option autoImplicit false

namespace NilStore.Gateway

open NilStore.Lib NilStore.Chain

/-! ### `appendUnique` -/

/-- What was there stays in front. -/
theorem exists_appendUnique (ordered values : List Str) :
    ∃ rest, appendUnique ordered values = ordered ++ rest := by
  induction values generalizing ordered with
  | nil => exact ⟨[], (List.append_nil _).symm⟩
  | cons v values ih =>
      rw [appendUnique, List.foldl_cons, ← appendUnique]
      split
      · exact ih ordered
      · obtain ⟨rest, hrest⟩ := ih (ordered ++ [v])
        exact ⟨v :: rest, by rw [hrest, List.append_assoc, List.singleton_append]⟩

/-- Appending nothing. -/
@[simp] theorem appendUnique_nil (ordered : List Str) : appendUnique ordered [] = ordered := rfl

/-- Distinct texts that are not empty are all taken. -/
theorem appendUnique_eq_append {ordered values : List Str} (hnodup : (ordered ++ values).Nodup)
    (hne : ∀ v ∈ values, v ≠ []) : appendUnique ordered values = ordered ++ values := by
  induction values generalizing ordered with
  | nil => exact (List.append_nil _).symm
  | cons v values ih =>
      have hv : v ≠ [] := hne v List.mem_cons_self
      have hnew : v ∉ ordered := by
        intro hmem
        exact (List.disjoint_of_nodup_append hnodup) hmem List.mem_cons_self
      have hassoc : ordered ++ v :: values = (ordered ++ [v]) ++ values := by simp
      rw [appendUnique, List.foldl_cons, if_neg (by simp [hv, hnew]), ← appendUnique, hassoc]
      exact ih (hassoc ▸ hnodup) fun w hw => hne w (List.mem_cons_of_mem _ hw)

/-! ### The list for a deal of the chain -/

/-- Every slot is active or under repair. -/
def SlotsSettled (deal : Deal) : Prop :=
  ∀ slot ∈ deal.mode2Slots, slot.status = .active ∨ slot.status = .repairing

instance (deal : Deal) : Decidable (SlotsSettled deal) :=
  inferInstanceAs (Decidable (∀ slot ∈ deal.mode2Slots, _))

/-- No slot under repair stands before an active one. -/
def ActiveFirst (deal : Deal) : Prop :=
  deal.mode2Slots.Pairwise fun a b => (b.status == .active) = true → (a.status == .active) = true

instance (deal : Deal) : Decidable (ActiveFirst deal) :=
  inferInstanceAs (Decidable (List.Pairwise _ _))

section

variable {deal : Deal}

/-- The name of a status is read as its number. -/
@[simp] theorem parseStatus_name (status : SlotStatus) :
    parseStatus (.text (SlotStatus.name status).toList) =
      match status with
      | .unspecified => 0
      | .active => 1
      | .repairing => 2 := by
  cases status <;> decide +kernel

/-- The providers of a part of the slots, where the texts are trimmed. The LCD writes the status as
a text, and the gateway reads it back. -/
theorem slotProvidersWith_lcdDeal (p : Int → Bool) (q : DealSlot → Bool)
    (htrim : ∀ slot ∈ deal.mode2Slots, trimSpace slot.provider = slot.provider ∧ slot.provider ≠ [])
    (hpq : ∀ slot ∈ deal.mode2Slots,
      p (parseStatus (.text (SlotStatus.name slot.status).toList)) = q slot) :
    slotProvidersWith p (lcdDeal deal).mode2Slots =
      (deal.mode2Slots.filter q).map (·.provider) := by
  show slotProvidersWith p (deal.mode2Slots.map _) = _
  generalize deal.mode2Slots = slots at htrim hpq ⊢
  -- by the list of the slots; the first one is in the part or not
  induction slots with
  | nil => rfl
  | cons slot slots ih =>
      obtain ⟨htrimmed, hne⟩ := htrim slot List.mem_cons_self
      have hslot := hpq slot List.mem_cons_self
      specialize ih (fun b hb => htrim b (List.mem_cons_of_mem _ hb))
        fun b hb => hpq b (List.mem_cons_of_mem _ hb)
      rw [slotProvidersWith, List.map_cons, List.filter_cons, List.filter_cons, hslot]
      cases hq : q slot with
      | false => simpa [slotProvidersWith] using ih
      | true =>
          simp only [if_true, List.map_cons, htrimmed]
          rw [List.filter_cons_of_pos (by simpa using hne)]
          exact congrArg (slot.provider :: ·) ih

/-- The list begins with the providers of the active slots, and those of the slots under repair
follow. The old list of the deal adds nobody in between. -/
theorem exists_fetchDealProviders (hsettled : SlotsSettled deal) (hne : deal.mode2Slots ≠ [])
    (hnodup : deal.slotProviders.Nodup)
    (htrim : ∀ slot ∈ deal.mode2Slots, trimSpace slot.provider = slot.provider ∧
      slot.provider ≠ []) :
    ∃ legacy, fetchDealProvidersFromLCD (lcdDeal deal) =
      (deal.mode2Slots.filter (·.status == .active)).map (·.provider) ++
        (deal.mode2Slots.filter fun slot => !(slot.status == .active)).map
          (·.provider) ++ legacy := by
  -- active slots, slots under repair, and no others
  have hactive := slotProvidersWith_lcdDeal (fun n => decide (n = 1))
    (·.status == .active) htrim fun slot _ => by
      rw [parseStatus_name]
      cases slot.status <;> rfl
  have hrepairing := slotProvidersWith_lcdDeal (fun n => decide (n = 2))
    (fun slot => !(slot.status == .active)) htrim fun slot hslot => by
      rw [parseStatus_name]
      rcases hsettled slot hslot with h | h <;> rw [h] <;> rfl
  have hunknown := slotProvidersWith_lcdDeal (fun n => decide (n ≠ 1 ∧ n ≠ 2))
    (fun _ => false) htrim fun slot hslot => by
      rw [parseStatus_name]
      rcases hsettled slot hslot with h | h <;> rw [h] <;> rfl
  -- the two parts together are the providers of all slots in another order
  have hperm : ((deal.mode2Slots.filter (·.status == .active)).map (·.provider) ++
      (deal.mode2Slots.filter fun slot => !(slot.status == .active)).map (·.provider)).Perm
        deal.slotProviders := by
    rw [← List.map_append]
    exact (List.filter_append_perm _ _).map _
  have hboth := hperm.nodup_iff.mpr hnodup
  -- none of the texts is empty, so none is left out
  have htexts : ∀ (q : DealSlot → Bool), ∀ v ∈
      (deal.mode2Slots.filter q).map (·.provider), v ≠ [] := by
    intro q v hv
    obtain ⟨slot, hslot, rfl⟩ := List.mem_map.mp hv
    exact (htrim slot (List.mem_of_mem_filter hslot)).2
  have hslots : (lcdDeal deal).mode2Slots ≠ [] := by simpa [lcdDeal] using hne
  rw [fetchDealProvidersFromLCD, if_neg hslots, hactive, hrepairing, hunknown]
  have htextsActive := htexts (·.status == .active)
  have htextsRepairing := htexts fun slot => !(slot.status == .active)
  generalize (deal.mode2Slots.filter (·.status == .active)).map (·.provider) = active at *
  generalize (deal.mode2Slots.filter fun slot => !(slot.status == .active)).map (·.provider) =
    repairing at *
  have hfirst : appendUnique [] active = active :=
    appendUnique_eq_append (List.nodup_append.mp hboth).1 htextsActive
  simp only [List.filter_false, List.map_nil, hfirst, appendUnique_nil,
    appendUnique_eq_append hboth htextsRepairing]
  obtain ⟨legacy, hlegacy⟩ := exists_appendUnique (active ++ repairing)
    (((lcdDeal deal).providers.map trimSpace).filter (· ≠ []))
  refine ⟨legacy, ?_⟩
  rw [hlegacy, if_neg]
  intro hnil
  have hlength := hperm.length_eq
  rw [(List.append_eq_nil_iff.mp hnil).1, Deal.slotProviders, List.length_map] at hlength
  exact hne (List.length_eq_zero_iff.mp hlength.symm)

/-- Entry by entry the list is the slot map, when no slot under repair stands before an active one.
Then sorting by the status changes nothing. -/
theorem entries_iff_activeFirst (hsettled : SlotsSettled deal) (hne : deal.mode2Slots ≠ [])
    (hnodup : deal.slotProviders.Nodup)
    (htrim : ∀ slot ∈ deal.mode2Slots, trimSpace slot.provider = slot.provider ∧
      slot.provider ≠ []) :
    (∀ (i : Nat) slot, deal.mode2Slots[i]? = some slot →
      (fetchDealProvidersFromLCD (lcdDeal deal))[i]? = some slot.provider) ↔ ActiveFirst deal := by
  obtain ⟨legacy, hlist⟩ := exists_fetchDealProviders hsettled hne hnodup htrim
  have hinj : ∀ a ∈ deal.mode2Slots, ∀ b ∈ deal.mode2Slots, a.provider = b.provider → a = b :=
    List.inj_on_of_nodup_map hnodup
  -- the two parts make up the slots in their order
  have hfront :=
    map_filter_append_eq_iff (·.provider) (fun slot : DealSlot => slot.status == .active) hinj
  rw [ActiveFirst, ← hfront]
  have hperm : ((deal.mode2Slots.filter (·.status == .active)).map (·.provider) ++
      (deal.mode2Slots.filter fun slot => !(slot.status == .active)).map (·.provider)).Perm
        deal.slotProviders := by
    rw [← List.map_append]
    exact (List.filter_append_perm _ _).map _
  have hlength := hperm.length_eq
  rw [Deal.slotProviders, List.length_map] at hlength
  rw [hlist]
  generalize (deal.mode2Slots.filter (·.status == .active)).map (·.provider) ++
    (deal.mode2Slots.filter fun slot => !(slot.status == .active)).map (·.provider) = front at *
  -- the front of the list is as long as the slots
  constructor
  · intro h
    refine List.ext_getElem? fun i => ?_
    rw [List.getElem?_map]
    cases hslot : deal.mode2Slots[i]? with
    | none =>
        rw [List.getElem?_eq_none_iff] at hslot
        exact List.getElem?_eq_none_iff.mpr (hlength ▸ hslot)
    | some slot =>
        have hi := (List.getElem?_eq_some_iff.mp hslot).1
        rw [← List.getElem?_append_left (hlength ▸ hi)]
        exact h i slot hslot
  · intro h i slot hslot
    have hi := (List.getElem?_eq_some_iff.mp hslot).1
    rw [List.getElem?_append_left (hlength ▸ hi), h, List.getElem?_map, hslot]
    rfl

end

/-! ### The callers -/

/-- Everyone who takes entry `i` of the list works with the provider of slot `i`, for whom the chain
answers `i`. -/
structure SlotAddressed (stripe : StripeParams) (deal : Deal) (providers : List Str) (i : Nat)
    (slot : DealSlot) : Prop where
  entry : providers[i]? = some slot.provider
  onChain : providerSlotIndex deal slot.provider = some (UInt64.ofNat i)
  /-- `GatewayFetch` serves the leaves of the slot at this provider, and nowhere else. -/
  fetch : ∀ leafIndex addr, slotForLeafIndex leafIndex stripe = .ok (UInt64.ofNat i) →
    (checkFetchSlot stripe leafIndex addr (.ok providers) = .ok () ↔ trimSpace addr = slot.provider)
  plan : ∀ addr, planProvider stripe (UInt64.ofNat i) addr (.ok providers) = .ok slot.provider
  shard : ∃ asked, shardProviders stripe (.ok providers) = .ok asked ∧
    asked[i]? = some slot.provider
  /-- The upload goes to this provider, or is skipped as it is the local one. -/
  upload : ∀ witnessCount addr, witnessCount ≠ 0 →
    ∃ targets, uploadProviders stripe witnessCount addr (.ok providers) = .ok targets ∧
      targets[i]? = some (if trimSpace addr ≠ [] ∧ slot.provider = trimSpace addr then none
        else some slot.provider)

/-- What follows for the callers when every entry is the provider of its slot. There are four of
them, and each takes the entry at the index of the slot. -/
theorem slotAddressed {deal : Deal} {stripe : StripeParams} {serviceHint : Str}
    {providers : List Str} (hstripe : stripeParamsFromHint serviceHint = .ok stripe)
    (hcount : stripe.slotCount.toNat = deal.mode2Slots.length)
    (hentries : ∀ (i : Nat) slot, deal.mode2Slots[i]? = some slot →
      providers[i]? = some slot.provider)
    {i : Nat} {slot : DealSlot} (hslot : deal.mode2Slots[i]? = some slot)
    (htrim : trimSpace slot.provider = slot.provider ∧ slot.provider ≠ [])
    (honChain : providerSlotIndex deal slot.provider = some (UInt64.ofNat i)) :
    SlotAddressed stripe deal providers i slot := by
  have hi := (List.getElem?_eq_some_iff.mp hslot).1
  have hentry := hentries i slot hslot
  -- the stripe of the hint is one with slots
  obtain ⟨k, m, hk, hm, hrows, hle, rfl⟩ :=
    (stripeParamsFromHint_cases hstripe).resolve_left fun h => by
      rw [h] at hcount
      exact absurd hcount (by show 0 ≠ _; omega)
  have hsum : (k + m).toNat = deal.mode2Slots.length := hcount
  have htoNat : (UInt64.ofNat i).toNat = i :=
    UInt64.toNat_ofNat_of_lt' (Nat.lt_of_lt_of_le hi (hsum ▸ (k + m).toNat_lt.le))
  -- there is an entry for the last slot, so the list is long enough
  have hlong : ¬providers.length < (k + m).toNat := by
    have hlast : deal.mode2Slots.length - 1 < deal.mode2Slots.length := by omega
    have hget := hentries _ _ (List.getElem?_eq_getElem hlast)
    have := (List.getElem?_eq_some_iff.mp hget).1
    omega
  -- the rows are not zero
  have hrows0 : (64 / k : UInt64) ≠ 0 := by
    intro h0
    have hlt : (k + m).toNat < 2 ^ 33 :=
      Nat.lt_of_le_of_lt (UInt64.le_iff_toNat_le.mp hle) (by decide)
    have hsize : k.toNat * (64 / k).toNat = 64 := (SlotStripe.of_k (m := m) hrows hk hlt).size
    rw [h0] at hsize
    exact absurd hsize (by simp)
  have htake : (providers.take (k + m).toNat)[i]? = some slot.provider := by
    rw [List.getElem?_take, if_pos (hsum ▸ hi)]
    exact hentry
  have hsum0 : k + m ≠ 0 := by
    intro h0
    rw [h0] at hsum
    have : (0 : UInt64).toNat = 0 := rfl
    omega
  -- the check of a fetch, the plan, the shards, and the uploads
  refine ⟨hentry, honChain, ?_, ?_, ?_, ?_⟩
  · intro leafIndex addr hleaf
    have hget : providers[(UInt64.ofNat i).toNat]? = some slot.provider := by rw [htoNat, hentry]
    have hcheck : checkFetchSlot ⟨2, k, m, 64 / k, (k + m) * (64 / k), k + m⟩ leafIndex addr
        (.ok providers) =
          rejectIf (trimSpace slot.provider = [] ∨ trimSpace addr ≠ trimSpace slot.provider)
            ⟨400, "provider slot mismatch",
              "expected " ++ String.ofList (trimSpace slot.provider)⟩ := by
      rw [checkFetchSlot, if_pos rfl, hleaf]
      show (orFail providers[(UInt64.ofNat i).toNat]? _ >>= _) = _
      rw [hget]
      rfl
    rw [hcheck, rejectIf_eq_ok, htrim.1]
    simp [htrim.2]
  · intro addr
    have hget : providers[(UInt64.ofNat i).toNat]? = some slot.provider := by rw [htoNat, hentry]
    rw [planProvider, if_pos rfl]
    show (orFail providers[(UInt64.ofNat i).toNat]? _ >>= _) = _
    rw [hget]
    show Except.ok (trimSpace slot.provider) = _
    rw [htrim.1]
  · refine ⟨providers.take (k + m).toNat, ?_, htake⟩
    simp only [shardProviders, except_bind_ok, rejectIf_eq_ok]
    exact ⟨(), by simp, (), by simp [hk, hrows0], providers, rfl, (), hsum0, (), hlong, rfl⟩
  · intro witnessCount addr hwitness
    refine ⟨(providers.take (k + m).toNat).map fun provider =>
      if trimSpace addr ≠ [] ∧ provider = trimSpace addr then none else some provider, ?_, ?_⟩
    · simp only [uploadProviders, except_bind_ok, rejectIf_eq_ok]
      exact ⟨(), by simp [hk, hm, hrows0], (), by simp [hwitness, hsum0],
        providers, rfl, (), hlong, rfl⟩
    · rw [List.getElem?_map, htake]
      rfl

/-! ### Deals that the chain reaches -/

/-- **The gateway addresses the slots as the chain does** exactly when no slot under repair stands
before an active one. For a deal of a reachable state with as many slots as its stripe has, whose
providers are distinct and whose slots are active or under repair. -/
theorem slots_addressed_iff {β : Type} (env : Env β) (params : Params) (b : β)
    (es : List Event) {d : Nat}
    {deal : Deal} (hget : (run (apply env) (genesis params b) es).deals.get d = some deal)
    (hmode : deal.redundancyMode = 2) (hnodup : deal.slotProviders.Nodup)
    (hsettled : SlotsSettled deal)
    {serviceHint : Str} {stripe : StripeParams}
    (hstripe : stripeParamsFromHint serviceHint = .ok stripe)
    (hcount : stripe.slotCount.toNat = deal.mode2Slots.length) (hne : deal.mode2Slots ≠ []) :
    (∀ (i : Nat) slot, deal.mode2Slots[i]? = some slot →
      SlotAddressed stripe deal (fetchDealProvidersFromLCD (lcdDeal deal)) i slot) ↔
    ActiveFirst deal := by
  have hmap := run_slotMap env params b es hget hmode
  have htrim := run_listed_trimmed env params b es hget
  have hslots : ∀ slot ∈ deal.mode2Slots,
      trimSpace slot.provider = slot.provider ∧ slot.provider ≠ [] := by
    intro slot hslot
    obtain ⟨i, hi⟩ := List.mem_iff_getElem?.mp hslot
    exact htrim _ (List.mem_of_getElem? (hmap.getElem?_providers hi))
  rw [← entries_iff_activeFirst hsettled hne hnodup hslots]
  constructor
  · intro h i slot hslot
    exact (h i slot hslot).entry
  · intro hentries i slot hslot
    exact slotAddressed hstripe hcount hentries hslot (hslots slot (List.mem_of_getElem? hslot))
      (hmap.providerSlotIndex_eq hmode hnodup htrim hslot).1

/-! ### On a small chain with two slots -/

/-- A third provider is registered, and the owner names it as the replacement in a slot. -/
def repairingRun (slot : UInt32) : List Event :=
  [.deliver (ctxAt 1) (registerMsg providerText), .deliver (ctxAt 1) (registerMsg otherText),
    .deliver (ctxAt 1) (createMsg 100 "General:rs=1+1"), .deliver (ctxAt 2) (registerMsg ownerText),
    .deliver (ctxAt 2) (.startSlotRepair ⟨ownerText, 0, slot, ownerText⟩)]

/-- The deal, when one of its slots is under repair. -/
def repairingDeal (slot : UInt32) : Option Deal :=
  (run (apply slotEnv) (genesis defaultParams sampleBank) (repairingRun slot)).deals.get 0

/-- With the second slot under repair the gateway still finds both. -/
theorem slots_addressed_iff_repairingRun :
    ∃ deal, repairingDeal 1 = some deal ∧ ∀ (i : Nat) slot, deal.mode2Slots[i]? = some slot →
      SlotAddressed slotStripe deal (fetchDealProvidersFromLCD (lcdDeal deal)) i slot := by
  have hshape : (repairingDeal 1).map (fun deal => (deal.redundancyMode, deal.mode2Slots.length,
      decide deal.slotProviders.Nodup, decide (SlotsSettled deal), decide (ActiveFirst deal))) =
        some (2, 2, true, true, true) := by decide +kernel
  obtain ⟨deal, hget, heq⟩ := Option.map_eq_some_iff.mp hshape
  obtain ⟨hmode, hlength, hnodup, hsettled, hfirst⟩ : deal.redundancyMode = 2 ∧
      deal.mode2Slots.length = 2 ∧ deal.slotProviders.Nodup ∧ SlotsSettled deal ∧
      ActiveFirst deal := by simpa using heq
  refine ⟨deal, hget, ?_⟩
  have hstripe : stripeParamsFromHint "General:rs=1+1".toList = .ok slotStripe := by decide +kernel
  refine (slots_addressed_iff slotEnv defaultParams sampleBank
    (repairingRun 1) hget hmode hnodup hsettled
    hstripe ?_ ?_).mpr hfirst
  · rw [hlength]
    rfl
  · intro hnil
    rw [hnil] at hlength
    cases hlength

/-- **With the first slot under repair** the gateway takes each provider for the one of the other
slot. The deal has two slots, and the second one is active. -/
theorem slots_swapped_repairingRun :
    ∃ deal, repairingDeal 0 = some deal ∧ deal.redundancyMode = 2 ∧ deal.mode2Slots.length = 2 ∧
      deal.slotProviders.Nodup ∧ SlotsSettled deal ∧
      ¬∀ (i : Nat) slot, deal.mode2Slots[i]? = some slot →
        (fetchDealProvidersFromLCD (lcdDeal deal))[i]? = some slot.provider := by
  -- the deal after the run, and the two lists
  have hshape : (repairingDeal 0).map (fun deal => (deal.redundancyMode, deal.mode2Slots.length,
      decide deal.slotProviders.Nodup, decide (SlotsSettled deal))) = some (2, 2, true, true) := by
    decide +kernel
  have hlists : (repairingDeal 0).map (fun deal => (deal.mode2Slots[0]?.map (·.provider),
      fetchDealProvidersFromLCD (lcdDeal deal))) =
        some (some otherText, [providerText, otherText]) := by decide +kernel
  obtain ⟨deal, hget, heq⟩ := Option.map_eq_some_iff.mp hshape
  obtain ⟨hmode, hlength, hnodup, hsettled⟩ : deal.redundancyMode = 2 ∧
      deal.mode2Slots.length = 2 ∧ deal.slotProviders.Nodup ∧
        SlotsSettled deal := by simpa using heq
  rw [hget] at hlists
  obtain ⟨hslot, hlist⟩ := Prod.mk.inj (Option.some.inj hlists)
  refine ⟨deal, hget, hmode, hlength, hnodup, hsettled, fun hall => ?_⟩
  obtain ⟨slot, hfirst, hprovider⟩ := Option.map_eq_some_iff.mp hslot
  have hentry := hall 0 slot hfirst
  rw [hlist, hprovider] at hentry
  exact absurd (Option.some.inj hentry) (by decide)

end NilStore.Gateway
