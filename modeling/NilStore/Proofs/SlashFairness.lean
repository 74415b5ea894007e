import NilStore.Proofs.BatchRule
import NilStore.Proofs.ServiceHints
import NilStore.Proofs.SlashSchedule
import NilStore.Proofs.SlotMap

/-!
# `NilStore.Proofs.SlashFairness`: whether a charged provider could have proved

`CheckMissedProofs` looks at proof statuses and at the start of the deal only. The right to prove
depends on more: the deal needs content, the provider must be listed, and in Mode 2 it needs a slot
that is not being repaired (`CouldProve`). That is all that `ProveLiveness` asks of the sender: what
is left is about the proof (`succeeds_iff_couldProve`). So a provider can be charged for blocks in
which it could not prove.

`SettledIn` is the condition under which a charge is fair: at the end of the block the provider
has all that, and nothing of it is younger than `ProofWindow`. It is about that one state and
about the messages of the window. `charged_could_prove` shows that it is enough: the provider
could have proved at every height of the window.
-/

set_option autoImplicit false

namespace NilStore.Chain

open NilStore.Lib

variable {β : Type}

/-! ### The right to prove -/

/-- What `ProveLiveness` asks of the deal before it looks at the proof: the provider is listed,
the deal has a committed root, no slot of the provider is being repaired, and in Mode 2 the
provider maps to one of the `K + M` slots. -/
structure CouldProve (deal : Deal) (p : Str) : Prop where
  listed : p ∈ deal.providers
  rooted : deal.manifestRoot.length = 48
  not_repairing : ∀ slot ∈ deal.mode2Slots, slot.provider = p → slot.status ≠ .repairing
  accepted : ∀ stripe, stripeParamsForDeal deal = .ok stripe → slotRepairing deal stripe p = false
  slot : deal.redundancyMode = 2 → ∃ profile i, deal.mode2Profile = some profile ∧
    providerSlotIndex deal p = some i ∧ i.toNat < profile.k.toNat + profile.m.toNat

/-- The deal lists the provider. -/
def Listed (d : Nat) (p : Str) (s : KeeperState β) : Prop :=
  ∃ deal, s.deals.get d = some deal ∧ p ∈ deal.providers

/-- The deal has a committed root. -/
def Rooted (d : Nat) (s : KeeperState β) : Prop :=
  ∃ deal, s.deals.get d = some deal ∧ deal.manifestRoot.length = 48

/-- The slot is in the map of the deal. -/
def HasSlot (d i : Nat) (slot : DealSlot) (s : KeeperState β) : Prop :=
  ∃ deal, s.deals.get d = some deal ∧ deal.mode2Slots[i]? = some slot

/-- The provider is overdue at the end of the block. -/
def Overdue (ctx : Ctx) (s : KeeperState β) (d : Nat) (p : Str) (deal : Deal) : Prop :=
  s.deals.get d = some deal ∧ deal.activeAt ctx.height64 ∧ p ∈ deal.providers ∧
    lastProof deal d p s.dealProviderStatus + proofWindow < ctx.height64

/-- The event comes less than `ProofWindow` blocks before the end of the block. -/
def InWindow (ctx : Ctx) (e : Event) : Prop :=
  ctx.blockHeight < e.ctx.blockHeight + proofWindow.toNat

/-- The provider has the right to prove at the end of the block, and no event of the window
gave it a part of this right. -/
structure SettledIn (env : Env β) (s₀ : KeeperState β) (past : List Event) (ctx : Ctx) (d : Nat)
    (p : Str) (deal : Deal) : Prop where
  rooted : deal.manifestRoot.length = 48
  slot : deal.redundancyMode = 2 → ∃ (i : Nat) (slot : DealSlot), deal.mode2Slots[i]? = some slot ∧
    slot.provider = p ∧ slot.status ≠ .repairing ∧
    slot.statusSinceHeight + proofWindow.toNat ≤ ctx.blockHeight
  no_first_commit : ¬Occurs (fun before e => InWindow ctx e ∧
    ¬Rooted d (run (apply env) s₀ before) ∧ Rooted d (run (apply env) s₀ (before ++ [e]))) past
  no_assignment : ¬Occurs (fun before e => InWindow ctx e ∧
    ¬Listed d p (run (apply env) s₀ before) ∧ Listed d p (run (apply env) s₀ (before ++ [e]))) past

/-- Each end of a block meets the condition for every overdue provider. -/
def FairCheck (env : Env β) (s₀ : KeeperState β) (past : List Event) (e : Event) : Prop :=
  ∀ ctx d p deal, e = .endBlock ctx → Overdue ctx (run (apply env) s₀ past) d p deal →
    SettledIn env s₀ past ctx d p deal

/-! ### The window -/

section Window

variable {env : Env β}

/-- An event that leaves a slot in a deal with an older date found it there. Whatever changes a slot
gives it the date of the event. -/
theorem hasSlot_before {s : KeeperState β} (hs : WellFormed env s) {e : Event} {d i : Nat}
    {slot : DealSlot} (h : HasSlot d i slot (apply env s e))
    (hdate : slot.statusSinceHeight < e.ctx.blockHeight) : HasSlot d i slot s := by
  obtain ⟨deal', hget', hslot⟩ := h
  have hmoved := apply_moved hs e
  -- the deal is new, or it has taken a step
  cases hget : s.deals.get d with
  | none =>
      -- The slots of a new deal have the date of the event.
      obtain ⟨-, -, -, owner, spend, duration, raw, hint, stripe, -, -, -, -, hshape⟩ :=
        hmoved.deals.created hget hget'
      rw [hshape] at hslot
      simp only [newDeal] at hslot
      split at hslot
      · rw [newSlots, List.getElem?_mapIdx, Option.map_eq_some_iff] at hslot
        obtain ⟨provider, -, rfl⟩ := hslot
        exact absurd hdate (lt_irrefl _)
      · cases hslot
  | some deal =>
      obtain ⟨deal₁, hget₁, hstep⟩ := hmoved.deals.kept hget
      rw [hget'] at hget₁
      cases hget₁
      refine ⟨deal, hget, ?_⟩
      cases hstep with
      | escrow amount => exact hslot
      | content size deposit hroot => exact hslot
      | saturated he hget hadmitted hassign => exact hslot
      | repairStarted hmode hold hreg =>
          rw [List.getElem?_set] at hslot
          split at hslot
          · split at hslot
            · cases hslot
              exact absurd hdate (lt_irrefl _)
            · cases hslot
          · exact hslot
      | repaired he hpending =>
          rw [completeSlot, List.getElem?_set] at hslot
          split at hslot
          · split at hslot
            · cases hslot
              exact absurd hdate (lt_irrefl _)
            · cases hslot
          · exact hslot

/-- No event changes the mode of a deal. -/
theorem redundancyMode_eq {s : KeeperState β} (hs : WellFormed env s) {e : Event} {d : Nat}
    {deal deal' : Deal} (hget : s.deals.get d = some deal)
    (hget' : (apply env s e).deals.get d = some deal') :
    deal'.redundancyMode = deal.redundancyMode := by
  obtain ⟨deal₁, hget₁, hstep⟩ := (apply_moved hs e).deals.kept hget
  rw [hget'] at hget₁
  cases hget₁
  exact hstep.frame.2.2.2.2.1

/-- The end of a block leaves the deals alone. -/
theorem deals_endBlock (env : Env β) (s : KeeperState β) (ctx : Ctx) :
    (apply env s (.endBlock ctx)).deals = s.deals := by
  rw [apply, (checkMissedProofs_spec env ctx s).frame]

/-- In a run in blocks there is an end of a block at each height below that of the open one, and
what follows it has a greater height. -/
theorem exists_endBlock {h₀ g : Nat} {past : List Event} (hpast : Blocks h₀ past) (hg₀ : h₀ ≤ g)
    (hg : g < openHeight h₀ past) :
    ∃ past₁ ctx₁ rest₁, past = past₁ ++ .endBlock ctx₁ :: rest₁ ∧ ctx₁.blockHeight = g ∧
      ∀ mid e rest, rest₁ = mid ++ e :: rest → g < e.ctx.blockHeight := by
  rw [openHeight] at hg
  have hmany : g - h₀ < past.countP Event.isEndBlock := by omega
  obtain ⟨past₁, e₁, rest₁, rfl, hend, hcount⟩ := exists_split_of_countP hmany
  have hheight : e₁.ctx.blockHeight = g := by
    rw [hpast past₁ e₁ rest₁ rfl, openHeight, hcount]
    omega
  cases e₁ with
  | endBlock ctx₁ =>
      refine ⟨past₁, ctx₁, rest₁, rfl, hheight, fun mid e rest heq => ?_⟩
      have hlater := hpast (past₁ ++ .endBlock ctx₁ :: mid) e rest (by rw [heq]; simp)
      rw [hlater, openHeight, List.countP_append, List.countP_cons_of_pos hend, hcount]
      omega
  | deliver ctx msg => cases hend
  | call ctx input => cases hend

end Window

section Run

variable {env : Env β} {params : Params} {b : β}

/-- A deal starts at the height of the block in which it is created. -/
theorem run_le_startBlock {h₀ : Nat} {es : List Event} (hes : Blocks h₀ es) {d : Nat} {deal : Deal}
    (hget : (run (apply env) (genesis params b) es).deals.get d = some deal) :
    h₀ ≤ deal.startBlock.toNat := by
  refine run_deals env params b _ (fun _ _ deal => h₀ ≤ deal.startBlock.toNat) ?_ ?_ hes d deal hget
  · intro past e d deal hheight _ hnew
    obtain ⟨owner, spend, duration, raw, hint, stripe, -, -, -, -, hshape⟩ := hnew
    rw [hshape]
    show h₀ ≤ e.ctx.height64.toNat
    rw [e.ctx.toNat_height64, hheight, openHeight]
    omega
  · intro past e d deal deal' _ _ hstep ih
    rw [hstep.frame.2.2.1]
    exact ih

/-- Only Mode 2 deals have slots. -/
theorem run_slots_nil (es : List Event) {d : Nat} {deal : Deal}
    (hget : (run (apply env) (genesis params b) es).deals.get d = some deal)
    (hmode : deal.redundancyMode ≠ 2) : deal.mode2Slots = [] := by
  refine run_deals env params b (fun _ _ => True)
    (fun _ _ deal => deal.redundancyMode ≠ 2 → deal.mode2Slots = []) ?_ ?_ (fun _ _ _ _ => trivial)
    d deal hget hmode
  · intro past e d deal _ _ hnew hmode
    obtain ⟨owner, spend, duration, raw, hint, stripe, -, -, -, -, hshape⟩ := hnew
    have hslots := congrArg Deal.mode2Slots hshape
    exact hslots.trans (if_neg fun h => hmode (by rw [hshape]; exact h))
  · intro past e d deal deal' _ _ hstep ih hmode'
    have hnil := ih (hstep.frame.2.2.2.2.1 ▸ hmode')
    exact List.eq_nil_of_length_eq_zero (by rw [hstep.length_slots, hnil]; rfl)

/-- The last proof of a provider is no older than the run. -/
theorem run_le_lastProof {h₀ : Nat} {es : List Event} (hes : Blocks h₀ es) {d : Nat} {p : Str}
    {deal : Deal} (hget : (run (apply env) (genesis params b) es).deals.get d = some deal) :
    h₀ ≤ (lastProof deal d p (run (apply env) (genesis params b) es).dealProviderStatus).toNat ∧
      (lastProof deal d p
        (run (apply env) (genesis params b) es).dealProviderStatus).toNat < 2 ^ 63 := by
  rw [lastProof]
  cases hstatus : (run (apply env) (genesis params b) es).dealProviderStatus.get (join d p) with
  | none =>
      exact ⟨run_le_startBlock hes hget, (run_wellFormed env params b es).start_lt hget⟩
  | some x =>
      obtain ⟨hlt, past, e, rest, rfl, -, hheight⟩ :=
        (run_statusIsLast env params b d p hes).attained x hstatus
      have hle : e.ctx.blockHeight = openHeight h₀ past := hes past e rest rfl
      rw [openHeight] at hle
      exact ⟨by rw [Option.getD_some]; omega, hlt⟩

/-- A provider of a slot that is not being repaired could prove, when it is listed and the deal has
a root. No two slots have the same provider, so the slot it is looked up in is this one. -/
theorem couldProve_of_slot {es : List Event}
    (hes : Along (fun past e => FreshRepair (run (apply env) (genesis params b) past) e) es)
    {d : Nat} {p : Str} {deal : Deal}
    (hget : (run (apply env) (genesis params b) es).deals.get d = some deal)
    (hlisted : p ∈ deal.providers) (hrooted : deal.manifestRoot.length = 48)
    (hslot : deal.redundancyMode = 2 → ∃ (i : Nat) (slot : DealSlot),
      deal.mode2Slots[i]? = some slot ∧ slot.provider = p ∧ slot.status ≠ .repairing) :
    CouldProve deal p := by
  by_cases hmode : deal.redundancyMode = 2
  · obtain ⟨i, slot, hi, rfl, hstatus⟩ := hslot hmode
    have hmap := run_slotMap env params b es hget hmode
    have hnodup := run_slotProviders_nodup env params b hes hget hmode
    have htrim := run_listed_trimmed env params b es hget
    have hindex := (hmap.providerSlotIndex_eq hmode hnodup htrim hi).1
    obtain ⟨profile, hprofile, hlength⟩ := hmap.profile
    have hlt := (List.getElem?_eq_some_iff.mp hi).1
    -- the index is that of a slot, so it does not wrap
    have hnat : (UInt64.ofNat i).toNat = i := by
      have hk := profile.k.toNat_lt
      have hm := profile.m.toNat_lt
      rw [UInt64.toNat_ofNat', Nat.mod_eq_of_lt (by omega)]
    refine ⟨hlisted, hrooted, fun slot' hslot' heq => ?_, fun stripe _ => ?_, fun _ => ?_⟩
    -- another slot of the provider would be the same one
    · obtain ⟨j, hj⟩ := List.getElem?_of_mem hslot'
      rw [slot_eq_of_provider_eq hnodup hi hj heq]
      exact hstatus
    · simp only [slotRepairing, hindex, hnat, hi, Option.any_some]
      rw [beq_false_of_ne hstatus, Bool.and_false]
    · exact ⟨profile, UInt64.ofNat i, hprofile, hindex, by rw [hnat]; omega⟩
  · have hnil := run_slots_nil es hget hmode
    refine ⟨hlisted, hrooted, fun slot hs => ?_, fun stripe _ => ?_, fun h => absurd h hmode⟩
    · rw [hnil] at hs
      exact absurd hs List.not_mem_nil
    · simp [slotRepairing, hnil]

/-- A verifier that accepts a proof was given a root. -/
theorem rooted_of_verifies {kzgCtx : Option Core.KzgContext} {manifestRoot : Bytes}
    {leafCount : UInt64}
    {proof : ChainedProof}
    (h : verifyBatchProof kzgCtx manifestRoot leafCount proof = .verdict true) :
    manifestRoot.length = 48 := by
  rw [verifyBatchProof, guardedVerify] at h
  split at h
  · cases h
  · split at h
    · cases h
    · rename_i hlength
      exact not_not.mp hlength

/-- The stripe of a Mode 2 deal is that of its profile: none of its numbers is zero, and the blobs
of `K + M` slots make up an MDU. The bounds come from the hint that the deal was created with. -/
theorem run_profile_stripe (es : List Event) {d : Nat} {deal : Deal} {stripe : StripeParams}
    (hget : (run (apply env) (genesis params b) es).deals.get d = some deal)
    (hmode : deal.redundancyMode = 2) (hstripe : stripeParamsForDeal deal = .ok stripe) :
    stripe.mode = 2 ∧ ∃ profile, deal.mode2Profile = some profile ∧ 0 < stripe.rows.toNat ∧
      stripe.leafCount.toNat = (profile.k.toNat + profile.m.toNat) * stripe.rows.toNat := by
  -- the hint of the deal, and what was checked of it
  obtain ⟨past, e, rest, -, -, raw, hint, hparse, hrs, hprofile, -, -⟩ :=
    run_provisioned env params b es hget hmode
  obtain ⟨hk0, hdvd, hle⟩ := parseServiceHint_checked hparse hrs
  obtain ⟨hm0, -⟩ := lastRS_of_parse hparse hrs
  have hk : 0 < hint.rsk.toNat := Nat.pos_of_ne_zero fun h => hk0 (UInt64.toNat_inj.mp h)
  have hm : 0 < hint.rsm.toNat := Nat.pos_of_ne_zero fun h => hm0 (UInt64.toNat_inj.mp h)
  have hk64 : hint.rsk.toNat ∣ 64 := by
    refine Nat.dvd_of_mod_eq_zero ?_
    have := congrArg UInt64.toNat hdvd
    rwa [UInt64.toNat_mod] at this
  have hkle : hint.rsk.toNat ≤ 64 := Nat.le_of_dvd (by decide) hk64
  -- the check is on the sum as a `uint64`
  have hsum : (hint.rsk.toNat + hint.rsm.toNat) % 2 ^ 64 ≤ 12 := by
    have := UInt64.le_iff_toNat_le.mp hle
    rwa [UInt64.toNat_add] at this
  have hm64 := hint.rsm.toNat_lt
  have hkProfile : hint.rsk.toUInt32.toNat = hint.rsk.toNat := by
    rw [UInt64.toNat_toUInt32]
    omega
  -- a sum that wraps leaves the lower half of `M` large
  have hmProfile : 0 < hint.rsm.toUInt32.toNat := by
    rw [UInt64.toNat_toUInt32]
    omega
  have hfound : deal.stripeProfile = some ⟨hint.rsk.toUInt32, hint.rsm.toUInt32⟩ := by
    rw [Deal.stripeProfile, if_pos hmode, hprofile, Option.filter_some, if_pos]
    refine decide_eq_true ⟨UInt32.lt_iff_toNat_lt.mpr ?_, UInt32.lt_iff_toNat_lt.mpr hmProfile⟩
    show 0 < hint.rsk.toUInt32.toNat
    omega
  have hkk : hint.rsk.toUInt32.toUInt64.toNat = hint.rsk.toNat := by
    rw [UInt32.toNat_toUInt64, hkProfile]
  have hmm : hint.rsm.toUInt32.toUInt64.toNat = hint.rsm.toUInt32.toNat := UInt32.toNat_toUInt64 _
  have hm32 := hint.rsm.toUInt32.toNat_lt
  rw [stripeParamsForDeal, hfound] at hstripe
  simp only at hstripe
  split at hstripe
  · cases hstripe
  · split at hstripe
    · cases hstripe
    · cases hstripe
      have hrows : (64 / hint.rsk.toUInt32.toUInt64).toNat = 64 / hint.rsk.toNat := by
        rw [UInt64.toNat_div, hkk]
        rfl
      refine ⟨rfl, _, hprofile, ?_, ?_⟩
      · rw [hrows]
        exact Nat.div_pos hkle hk
      · have hrowsLe : 64 / hint.rsk.toNat ≤ 64 := Nat.div_le_self _ _
        have hcount : (hint.rsk.toNat + hint.rsm.toUInt32.toNat) * (64 / hint.rsk.toNat) ≤
            (64 + 2 ^ 32) * 64 := Nat.mul_le_mul (by omega) hrowsLe
        rw [UInt64.toNat_mul, UInt64.toNat_add, hkk, hmm, hrows, hkProfile]
        rw [Nat.mod_eq_of_lt (a := hint.rsk.toNat + _) (by omega), Nat.mod_eq_of_lt (by omega)]

/-- Whoever may send a proof that the verifier accepts could prove. The conditions of `CouldProve`
are read off the checks of the handler one by one. -/
theorem couldProve_of_inOwnSlot {es : List Event}
    (hes : Along (fun past e => FreshRepair (run (apply env) (genesis params b) past) e) es)
    {d : Nat} {p : Str} {deal : Deal} {stripe : StripeParams} {proof : ChainedProof}
    (hget : (run (apply env) (genesis params b) es).deals.get d = some deal)
    (hlisted : p ∈ deal.providers) (hstripe : stripeParamsForDeal deal = .ok stripe)
    (hown : InOwnSlot deal stripe p proof)
    (hverify : verifyBatchProof env.kzgCtx deal.manifestRoot stripe.leafCount proof =
      .verdict true) :
    CouldProve deal p := by
  refine ⟨hlisted, rooted_of_verifies hverify, ?_, ?_, ?_⟩
  -- its slot is not being repaired
  · intro slot hslot heq
    by_cases hmode : deal.redundancyMode = 2
    · subst heq
      obtain ⟨i, hi⟩ := List.getElem?_of_mem hslot
      have hmap := run_slotMap env params b es hget hmode
      have hindex :=
        (hmap.providerSlotIndex_eq hmode (run_slotProviders_nodup env params b hes hget hmode)
        (run_listed_trimmed env params b es hget) hi).1
      obtain ⟨profile, hprofile, hlength⟩ := hmap.profile
      have hlt := (List.getElem?_eq_some_iff.mp hi).1
      have hnat : (UInt64.ofNat i).toNat = i := by
        have hk := profile.k.toNat_lt
        have hm := profile.m.toNat_lt
        rw [UInt64.toNat_ofNat', Nat.mod_eq_of_lt (by omega)]
      intro hrepairing
      have hactive := hown.active
      simp only [slotRepairing, hindex, hnat, hi, Option.any_some, hrepairing, hprofile,
        (run_profile_stripe es hget hmode hstripe).1] at hactive
      exact absurd hactive (by simp [List.ne_nil_of_mem hslot])
    · rw [run_slots_nil es hget hmode] at hslot
      exact absurd hslot List.not_mem_nil
  -- the handler has looked it up
  · intro stripe' hstripe'
    rw [hstripe] at hstripe'
    cases hstripe'
    exact hown.active
  -- and the slot is among those of the profile
  · intro hmode
    obtain ⟨hmode2, profile, hprofile, hrows, hcount⟩ :=
      run_profile_stripe es hget hmode hstripe
    refine ⟨profile, _, hprofile, hown.ownSlot hmode2, ?_⟩
    have hrange := UInt64.lt_iff_toNat_lt.mp hown.inRange
    rw [hcount] at hrange
    rw [UInt64.toNat_div]
    exact Nat.div_lt_of_lt_mul (by rwa [Nat.mul_comm])

/-- `CouldProve` is what `ProveLiveness` asks of the sender. In a state that is reached by repairs
that put in new providers, a system proof is answered with success exactly when the sender could
prove, and the proof is for a blob of the sender's and verifies. -/
theorem succeeds_iff_couldProve {es : List Event}
    (hes : Along (fun past e => FreshRepair (run (apply env) (genesis params b) past) e) es)
    {ctx : Ctx} {msg : MsgProveLiveness} {proof : ChainedProof} {deal : Deal}
    (hproof : msg.proofType = .systemProof (some proof))
    (hget : (run (apply env) (genesis params b) es).deals.get msg.dealId.toNat = some deal)
    (hhalving : (run (apply env) (genesis params b) es).getParams.halvingInterval ≠ 0) :
    Succeeds env ctx msg (run (apply env) (genesis params b) es) ↔
      CouldProve deal msg.creator ∧ ∃ stripe, stripeParamsForDeal deal = .ok stripe ∧
        proof.blobIndex.toUInt64 < stripe.leafCount ∧
        (stripe.mode = 2 →
          providerSlotIndex deal msg.creator = some (proof.blobIndex.toUInt64 / stripe.rows)) ∧
        verifyBatchProof env.kzgCtx deal.manifestRoot stripe.leafCount proof = .verdict true := by
  by_cases hlisted : msg.creator ∈ deal.providers
  · rw [succeeds_iff hproof hget hlisted hhalving, passesLiveness_iff]
    constructor
    · rintro ⟨stripe, hstripe, hown, hverify⟩
      exact ⟨couldProve_of_inOwnSlot hes hget hlisted hstripe hown hverify, stripe, hstripe,
        hown.inRange, hown.ownSlot, hverify⟩
    · rintro ⟨hcould, stripe, hstripe, hrange, hown, hverify⟩
      exact ⟨stripe, hstripe, ⟨hrange, hown, hcould.accepted stripe hstripe⟩, hverify⟩
  · -- nobody else gets past the first check
    refine iff_of_false ?_ fun h => hlisted h.1.listed
    rintro ⟨r, s', hexec, -⟩
    obtain ⟨deal', -, hget', hmem, -⟩ := proveLiveness_ok hexec
    rw [hget] at hget'
    cases hget'
    exact hlisted hmem

end Run

/-- Only a provider that could have proved is charged, in runs in blocks whose repairs put in new
providers and whose checks meet `FairCheck`. At the end of each of the `ProofWindow` blocks
before the charge the provider could have proved, and in none of them did it prove. -/
theorem charged_could_prove (env : Env β) (params : Params) (b : β) (h₀ : Nat) (es : List Event)
    (hes : Blocks h₀ es)
    (hrepairs : Along (fun past e => FreshRepair (run (apply env) (genesis params b) past) e) es)
    (hfair : Along (FairCheck env (genesis params b)) es)
    (past : List Event) (ctx : Ctx) (rest : List Event)
    (hsplit : es = past ++ .endBlock ctx :: rest) (d : Nat) (p : Str)
    (hcharged : Charges env (run (apply env) (genesis params b) past) d p (.endBlock ctx))
    (g : Nat) (hwindow : ctx.blockHeight ≤ g + proofWindow.toNat) (hg : g < ctx.blockHeight) :
    (∃ past₁ ctx₁ rest₁ deal, past = past₁ ++ .endBlock ctx₁ :: rest₁ ∧ ctx₁.blockHeight = g ∧
      (run (apply env) (genesis params b) past₁).deals.get d = some deal ∧ CouldProve deal p) ∧
    ¬ProvedAt env (genesis params b) d p g past := by
  subst hsplit
  have hpast : Blocks h₀ past := hes.left
  have hheight : ctx.blockHeight = openHeight h₀ past := hes past (.endBlock ctx) rest rfl
  have hmem :=
    (checkMissedProofs_spec env ctx (run (apply env) (genesis params b) past)).mem_charges
    ⟨d, p⟩
  obtain ⟨deal, hget, hactive, hlisted, hdue, -⟩ := hmem.mp hcharged
  have hsettled :=
    hfair past (.endBlock ctx) rest rfl ctx d p deal rfl ⟨hget, hactive, hlisted, hdue⟩
  constructor
  · -- The run was in progress at the start of the window, so a block ended at `g`.
    have hstart := run_le_lastProof (p := p) hpast hget
    have hover := (window_over_iff hstart.2).mp hdue
    obtain ⟨past₁, ctx₁, rest₁, rfl, hctx₁, hlater⟩ :=
      exists_endBlock hpast (by omega) (hheight ▸ hg)
    have hwindow' : ∀ mid e rest', rest₁ = mid ++ e :: rest' → InWindow ctx e := by
      intro mid e rest' heq
      have := hlater mid e rest' heq
      rw [InWindow]
      omega
    have hrun : run (apply env) (genesis params b) (past₁ ++ .endBlock ctx₁ :: rest₁) =
        run (apply env) (genesis params b) ((past₁ ++ [.endBlock ctx₁]) ++ rest₁) := by
      rw [List.append_assoc, List.singleton_append]
    have hdeals : (run (apply env) (genesis params b) (past₁ ++ [.endBlock ctx₁])).deals =
        (run (apply env) (genesis params b) past₁).deals := by
      -- the end of a block leaves the deals alone
      rw [run_snoc, deals_endBlock]
    -- What the provider has at the end, no event of the window gave it.
    have hback : ∀ P : KeeperState β → Prop,
        P (run (apply env) (genesis params b) (past₁ ++ .endBlock ctx₁ :: rest₁)) →
        (∀ before e, InWindow ctx e → P (run (apply env) (genesis params b) (before ++ [e])) →
          (∃ rest', past₁ ++ .endBlock ctx₁ :: rest₁ = before ++ e :: rest') →
          P (run (apply env) (genesis params b) before)) →
        P (run (apply env) (genesis params b) (past₁ ++ [.endBlock ctx₁])) := by
      intro P hP hno
      rw [hrun] at hP
      refine run_holds_before hP fun mid e rest' heq hafter => ?_
      refine hno _ e (hwindow' mid e rest' heq) (by rw [run_snoc]; exact hafter) ⟨rest', ?_⟩
      rw [heq]
      simp
    -- it was listed at the start of the window
    have hlisted₁ : ∃ deal', (run (apply env) (genesis params b)
        (past₁ ++ [.endBlock ctx₁])).deals.get d = some deal' ∧ p ∈ deal'.providers ∧
          deal'.redundancyMode = deal.redundancyMode := by
      refine hback (fun s => ∃ deal', s.deals.get d = some deal' ∧ p ∈ deal'.providers ∧
        deal'.redundancyMode = deal.redundancyMode) ⟨deal, hget, hlisted, rfl⟩ ?_
      rintro before e he ⟨deal', hget', hlisted', hmode'⟩ ⟨rest', heq⟩
      obtain ⟨deal₀, hget₀, hlisted₀⟩ : Listed d p (run (apply env) (genesis params b) before) :=
        Classical.byContradiction fun hnot =>
          hsettled.no_assignment ⟨before, e, rest', heq, he, hnot, deal', hget', hlisted'⟩
      rw [run_snoc] at hget'
      have hsame := redundancyMode_eq (run_wellFormed env params b before) hget₀ hget'
      exact ⟨deal₀, hget₀, hlisted₀, hsame.symm.trans hmode'⟩
    -- the deal had its root
    have hrooted₁ : Rooted d (run (apply env) (genesis params b) (past₁ ++ [.endBlock ctx₁])) := by
      refine hback (Rooted d) ⟨deal, hget, hsettled.rooted⟩ ?_
      rintro before e he hafter ⟨rest', heq⟩
      exact Classical.byContradiction fun hnot =>
        hsettled.no_first_commit ⟨before, e, rest', heq, he, hnot, hafter⟩
    obtain ⟨deal₁, hget₁, hlisted₁, hmode₁⟩ := hlisted₁
    obtain ⟨deal₂, hget₂, hrooted₁⟩ := hrooted₁
    rw [hget₁] at hget₂
    cases hget₂
    have hget₁' := hdeals ▸ hget₁
    refine ⟨past₁, ctx₁, rest₁, deal₁, rfl, hctx₁, hget₁', ?_⟩
    refine couldProve_of_slot hrepairs.left.left hget₁' hlisted₁ hrooted₁ fun hmode => ?_
    obtain ⟨i, slot, hi, hprovider, hstatus, hdate⟩ := hsettled.slot (hmode₁ ▸ hmode)
    -- and its slot was the same
    have hslot₁ : HasSlot d i slot
        (run (apply env) (genesis params b) (past₁ ++ [.endBlock ctx₁])) := by
      refine hback (HasSlot d i slot) ⟨deal, hget, hi⟩ ?_
      rintro before e he hafter -
      rw [run_snoc] at hafter
      refine hasSlot_before (run_wellFormed env params b before) hafter ?_
      rw [InWindow] at he
      omega
    obtain ⟨deal₂, hget₂, hi₁⟩ := hslot₁
    rw [hget₁] at hget₂
    cases hget₂
    exact ⟨i, slot, hi₁, hprovider, hstatus⟩
  -- a proof in the window would have put off the charge
  · intro hproved
    have hafter := ((charges_iff (run_wellFormed env params b past)
      (run_statusIsLast env params b d p hpast)).mp hcharged)
    obtain ⟨-, -, -, -, hafter, -⟩ := hafter
    have := hafter g hproved.activeAt
    omega

/-! ### On a small chain -/

/-- The providers that an event finds overdue. -/
def overdueAt (s : KeeperState β) : Event → List (Nat × Str)
  | .endBlock ctx =>
      s.deals.entries.flatMap fun entry =>
        (entry.2.providers.filter fun p => entry.2.activeAt ctx.height64 ∧
          lastProof entry.2 entry.1 p s.dealProviderStatus + proofWindow < ctx.height64).map
            (entry.1, ·)
  | _ => []

/-- An overdue provider is charged at the end of the block. -/
theorem Overdue.mem_overdueAt {ctx : Ctx} {s : KeeperState β} {d : Nat} {p : Str} {deal : Deal}
    (h : Overdue ctx s d p deal) : (d, p) ∈ overdueAt s (.endBlock ctx) := by
  obtain ⟨hget, hactive, hlisted, hdue⟩ := h
  rw [overdueAt, List.mem_flatMap]
  refine ⟨(d, deal), KVStore.mem_entries.mpr hget, List.mem_map.mpr ⟨p, ?_, rfl⟩⟩
  simpa using ⟨hlisted, hactive, hdue⟩

/-- The run of `missedRun` with content committed in the first block. -/
def committedRun (n : Nat) (h : n + 1 < 2 ^ 63 := by decide) : List Event :=
  .deliver (ctxAt 1) (registerMsg providerText) ::
    .deliver (ctxAt 1) (createMsg 100 "General:rs=8+4") ::
    .deliver (ctxAt 1) commitMsg ::
    (List.finRange n).map fun (i : Fin n) =>
      .endBlock (ctxAt (i.val + 1) (decide_height_fin h i))

/-- An event of the run is one of its three messages or the end of a block. -/
theorem mem_committedRun {n : Nat} {h : n + 1 < 2 ^ 63} {e : Event} (he : e ∈ committedRun n h) :
    e.ctx.blockHeight = 1 ∧ (∀ ctx msg, e ≠ .deliver ctx (.completeSlotRepair msg)) ∨
      ∃ ctx, e = .endBlock ctx := by
  simp only [committedRun, List.mem_cons, List.mem_map] at he
  rcases he with rfl | rfl | rfl | ⟨i, -, rfl⟩
  · exact Or.inl ⟨rfl, fun _ _ hne => by cases hne⟩
  · exact Or.inl ⟨rfl, fun _ _ hne => by cases hne⟩
  · exact Or.inl ⟨rfl, fun _ _ hne => by cases hne⟩
  · exact Or.inr ⟨_, rfl⟩

/-- The sample run has no repair. -/
theorem committedRun_fresh (env : Env β) (s₀ : KeeperState β) (n : Nat) (h : n + 1 < 2 ^ 63) :
    Along (fun past e => FreshRepair (run (apply env) s₀ past) e) (committedRun n h) := by
  intro past e rest heq ctx msg deal slot he
  have hmem : e ∈ committedRun n h := by rw [heq]; simp
  rcases mem_committedRun hmem with ⟨-, hne⟩ | ⟨ctx', rfl⟩
  · exact absurd he (hne ctx msg)
  · cases he

/-- The sample run is fair. Its deal has content before the window begins, and one provider whose
slot is active. -/
theorem committedRun_fair :
    Along (FairCheck (sampleEnv noKeccak []) (genesis defaultParams sampleBank))
      (committedRun 12) := by
  rw [along_iff_take]
  intro i ctx d p deal he hoverdue
  have hmem := hoverdue.mem_overdueAt
  rw [← he] at hmem
  -- Only the last event finds somebody overdue.
  have hquiet : ∀ j : Fin 15, j.val < 14 → overdueAt
      (run (apply (sampleEnv noKeccak [])) (genesis defaultParams sampleBank)
        ((committedRun 12).take j)) ((committedRun 12).get j) = [] := by decide +kernel
  have hlast : i = (⟨14, by decide⟩ : Fin 15) := by
    by_contra hne
    have hlt : i.val < 14 := by
      have hi : i.val < 15 := i.isLt
      have hval : i.val ≠ 14 := fun heq => hne (Fin.ext heq)
      omega
    rw [hquiet i hlt] at hmem
    exact absurd hmem List.not_mem_nil
  subst hlast
  cases he
  have hdue : overdueAt (run (apply (sampleEnv noKeccak [])) (genesis defaultParams sampleBank)
      ((committedRun 12).take 14)) (.endBlock (ctxAt 12)) = [(0, providerText)] := by decide +kernel
  have hpair : (d, p) ∈ [(0, providerText)] := hdue ▸ hmem
  obtain ⟨rfl, rfl⟩ : d = 0 ∧ p = providerText := by simpa using hpair
  have hrun : ((run (apply (sampleEnv noKeccak [])) (genesis defaultParams sampleBank)
      ((committedRun 12).take 14)).deals.get 0).map (fun deal => (deal.manifestRoot.length,
        deal.mode2Slots.map fun slot => (slot.provider, slot.status, slot.statusSinceHeight))) =
      some (48, [(providerText, .active, 1)]) := by decide +kernel
  have hget : (run (apply (sampleEnv noKeccak [])) (genesis defaultParams sampleBank)
      ((committedRun 12).take 14)).deals.get 0 = some deal := hoverdue.1
  rw [hget, Option.map_some, Option.some.injEq, Prod.mk.injEq] at hrun
  obtain ⟨hroot, hslots⟩ := hrun
  -- In the window there are only ends of blocks, and these leave the deals alone.
  have hwindow : ∀ before e rest, (committedRun 12).take 14 = before ++ e :: rest →
      InWindow (ctxAt 12) e →
      (run (apply (sampleEnv noKeccak [])) (genesis defaultParams sampleBank)
        (before ++ [e])).deals =
        (run (apply (sampleEnv noKeccak [])) (genesis defaultParams sampleBank) before).deals := by
    intro before e rest heq he
    have hmem : e ∈ committedRun 12 := by
      refine List.mem_of_mem_take (i := 14) ?_
      rw [heq]
      simp
    rcases mem_committedRun hmem with ⟨hheight, -⟩ | ⟨ctx', rfl⟩
    · rw [InWindow, hheight] at he
      exact absurd he (by decide)
    · rw [run_snoc, deals_endBlock]
  -- the root, the slot, no first commit and no assignment
  refine ⟨hroot, fun _ => ?_, ?_, ?_⟩
  · obtain ⟨slot, hslot, heq⟩ := List.map_eq_singleton_iff.mp hslots
    obtain ⟨hprovider, hstatus, hdate⟩ := by simpa using heq
    refine ⟨0, slot, by rw [hslot]; rfl, hprovider, by rw [hstatus]; decide, ?_⟩
    rw [hdate]
    decide
  · rintro ⟨before, e, rest, heq, he, hnot, deal', hget', hroot'⟩
    rw [hwindow before e rest heq he] at hget'
    exact hnot ⟨deal', hget', hroot'⟩
  · rintro ⟨before, e, rest, heq, he, hnot, deal', hget', hlisted'⟩
    rw [hwindow before e rest heq he] at hget'
    exact hnot ⟨deal', hget', hlisted'⟩

/-- With content committed in time, the provider could have proved ten blocks before it is
charged, and it did not. -/
theorem charged_committedRun :
    (∃ past₁ ctx₁ rest₁ deal, (committedRun 12).take 14 = past₁ ++ .endBlock ctx₁ :: rest₁ ∧
      ctx₁.blockHeight = 2 ∧
      (run (apply (sampleEnv noKeccak [])) (genesis defaultParams sampleBank) past₁).deals.get 0 =
        some deal ∧ CouldProve deal providerText) ∧
    ¬ProvedAt (sampleEnv noKeccak []) (genesis defaultParams sampleBank) 0 providerText 2
      ((committedRun 12).take 14) :=
  charged_could_prove (sampleEnv noKeccak []) defaultParams sampleBank 1 (committedRun 12)
    (by decide +kernel) (committedRun_fresh _ _ 12 (by decide)) committedRun_fair
    ((committedRun 12).take 14) (ctxAt 12) [] rfl 0 providerText
    (by rw [Charges]; decide +kernel) 2 (by decide) (by decide)

/-- A provider is charged in a run in which its deal never had content. There is nothing it could
have proved. -/
theorem charged_without_content :
    ¬∀ past ctx rest, missedRun 12 = past ++ .endBlock ctx :: rest → ∀ d p,
      Charges (sampleEnv noKeccak [])
        (run (apply (sampleEnv noKeccak [])) (genesis defaultParams sampleBank) past) d p
        (.endBlock ctx) →
      ∀ g, ctx.blockHeight ≤ g + proofWindow.toNat → g < ctx.blockHeight →
        ∃ past₁ ctx₁ rest₁ deal, past = past₁ ++ .endBlock ctx₁ :: rest₁ ∧
          ctx₁.blockHeight = g ∧
          (run (apply (sampleEnv noKeccak [])) (genesis defaultParams sampleBank)
            past₁).deals.get d = some deal ∧
          CouldProve deal p := by
  -- No beginning of the run leaves the deal with a root.
  have hroot : ∀ i : Fin 14,
      ((run (apply (sampleEnv noKeccak [])) (genesis defaultParams sampleBank)
      ((missedRun 12).take i)).deals.get 0).all (·.manifestRoot.length ≠ 48) = true := by
    decide +kernel
  have hcharged : Charges (sampleEnv noKeccak [])
      (run (apply (sampleEnv noKeccak [])) (genesis defaultParams sampleBank)
        ((missedRun 12).take 13))
      0 providerText (.endBlock (ctxAt 12)) := by
    rw [Charges]
    decide +kernel
  intro hall
  obtain ⟨past₁, ctx₁, rest₁, deal, hsplit, -, hget, hcould⟩ :=
    hall ((missedRun 12).take 13) (ctxAt 12) [] rfl 0 providerText hcharged 11 (by decide)
      (by decide)
  -- the block before the charge lies in the run
  have hlength : past₁.length < 14 := by
    have := congrArg List.length hsplit
    simp only [List.length_append, List.length_cons, List.length_take] at this
    omega
  have hpast : past₁ = (missedRun 12).take past₁.length := by
    have hprefix : past₁ <+: missedRun 12 :=
      (List.prefix_append past₁ _).trans (hsplit ▸ List.take_prefix 13 _)
    exact List.prefix_iff_eq_take.mp hprefix
  have hall := hroot ⟨past₁.length, hlength⟩
  rw [← hpast, hget] at hall
  simp [hcould.rooted] at hall

end NilStore.Chain
