import NilStore.Chain.Run

/-!
# `NilStore.Proofs.DealSteps`: what one event does to deals and providers

`WellFormed` is the invariant that every other one builds on: deals and providers are stored
under their own names, provider texts are canonical, and whoever a deal lists is registered.

`DealStep` names the five ways in which one event may change one stored deal, and `NewDeal` the
one way in which a deal appears. `Moved` says it of all deals and providers at once:
`apply_moved` shows it of every event, failed calls of the precompile included, and
`apply_wellFormed` is the invariant that follows.
-/

set_option autoImplicit false

namespace NilStore.Chain

open NilStore.Lib

variable {β : Type}

/-! ### The invariant -/

/-- The provider has an entry in the store of providers. -/
def KeeperState.registered (s : KeeperState β) (provider : Str) : Prop :=
  (s.providers.get provider).isSome

/-- The text is the one that an address prints. -/
def AddressCodec.Canonical (codec : AddressCodec) (text : Str) : Prop :=
  ∃ addr, codec.accAddressFromBech32 text = some addr ∧ codec.accAddressString addr = text

/-- Two canonical texts of one address are equal. -/
theorem AddressCodec.Canonical.eq {codec : AddressCodec} {t u : Str} (ht : codec.Canonical t)
    (hu : codec.Canonical u) (h : codec.accAddressFromBech32 t = codec.accAddressFromBech32 u) :
    t = u := by
  obtain ⟨a, hta, rfl⟩ := ht
  obtain ⟨b, hub, rfl⟩ := hu
  rw [hta, hub] at h
  rw [Option.some.inj h]

/-- A canonical address text has no white space around it and is not empty. -/
theorem AddressCodec.Canonical.trimSpace {codec : AddressCodec} {t : Str}
    (ht : codec.Canonical t) : NilStore.Lib.trimSpace t = t ∧ t ≠ [] := by
  obtain ⟨a, hta, rfl⟩ := ht
  exact ⟨codec.trimSpace_string hta, codec.string_ne_nil hta⟩

/-- Deals and providers are stored under their own names, and whoever a deal lists, or is about
to list, is registered. -/
structure WellFormed (env : Env β) (s : KeeperState β) : Prop where
  deal_id : ∀ {d deal}, s.deals.get d = some deal → deal.id = d
  deal_lt : ∀ {d deal}, s.deals.get d = some deal → d < s.dealCount
  start_lt : ∀ {d deal}, s.deals.get d = some deal → deal.startBlock.toNat < 2 ^ 63
  address : ∀ {k p}, s.providers.get k = some p → p.address = k
  canonical : ∀ {k}, s.registered k → env.codec.Canonical k
  listed : ∀ {d deal}, s.deals.get d = some deal → ∀ p ∈ deal.providers, s.registered p
  pending : ∀ {d deal}, s.deals.get d = some deal → ∀ slot ∈ deal.mode2Slots,
    slot.status = .repairing → s.registered slot.pendingProvider

/-- The next deal id is free. -/
theorem WellFormed.fresh {env : Env β} {s : KeeperState β} (h : WellFormed env s) :
    s.deals.get s.dealCount = none := by
  rw [Option.eq_none_iff_forall_ne_some]
  intro deal hget
  exact lt_irrefl _ (h.deal_lt hget)

/-- Assigned providers are registered. -/
theorem WellFormed.registered_of_assign {env : Env β} {s : KeeperState β} (h : WellFormed env s)
    {dealId : UInt64} {blockHash : Bytes} {hint : Str} {count : UInt64} {assigned : List Str}
    (hassign : assignProviders env dealId blockHash hint count s.providers = .ok assigned) :
    ∀ p ∈ assigned, s.registered p := by
  intro p hp
  obtain ⟨k, q, hget, rfl⟩ := (assignProviders_ok hassign).2.1 p hp
  rw [h.address hget, KeeperState.registered, hget]
  rfl

/-! ### The steps of a deal -/

/-- How one event may change a stored deal. There are five ways; all other messages leave the deals
as they are. -/
inductive DealStep (env : Env β) (e : Event) (s : KeeperState β) : Deal → Deal → Prop where
  /-- Money moved: only the escrow differs. -/
  | escrow {deal : Deal} (amount : Int) :
      DealStep env e s deal { deal with escrowBalance := amount }
  /-- The owner committed content. -/
  | content {deal : Deal} {root : Bytes} (size : UInt64) (deposit : Int)
      (hroot : root.length = 48) : DealStep env e s deal (commitContent deal root size deposit)
  /-- A provider signalled saturation, and a stripe of providers joined. -/
  | saturated {ctx : Ctx} {msg : MsgSignalSaturation} {deal : Deal} {newProviders : List Str}
      (he : e = .deliver ctx (.signalSaturation msg))
      (hget : s.deals.get msg.dealId.toNat = some deal)
      (hadmitted : SaturationAdmitted ctx msg deal s.getParams)
      (hassign : newStripe env ctx deal s.providers = .ok newProviders) :
      DealStep env e s deal (saturatedDeal ctx s.getParams deal newProviders)
  /-- The owner named a replacement for a slot. -/
  | repairStarted {deal : Deal} {slot : DealSlot} {pending : Str} {i : Nat}
      (hmode : deal.redundancyMode = 2) (hslot : deal.mode2Slots[i]? = some slot)
      (hpending : s.registered pending) :
      DealStep env e s deal
        { deal with mode2Slots := deal.mode2Slots.set i (startRepair e.ctx deal slot pending) }
  /-- The replacement took over a slot. -/
  | repaired {ctx : Ctx} {msg : MsgCompleteSlotRepair} {deal : Deal} {slot : DealSlot}
      (he : e = .deliver ctx (.completeSlotRepair msg))
      (hpending : RepairPending msg s.deals deal slot) :
      DealStep env e s deal (completeSlot e.ctx deal msg.slot.toNat slot)

/-- A deal that stays as it is has taken an (empty) step. -/
theorem DealStep.refl (env : Env β) (e : Event) (s : KeeperState β) (deal : Deal) :
    DealStep env e s deal deal := .escrow deal.escrowBalance

section DealStep

variable {env : Env β} {e : Event} {s : KeeperState β} {deal deal' : Deal}

/-- What no step changes. -/
theorem DealStep.frame (h : DealStep env e s deal deal') :
    deal'.id = deal.id ∧ deal'.owner = deal.owner ∧ deal'.startBlock = deal.startBlock ∧
      deal'.endBlock = deal.endBlock ∧ deal'.redundancyMode = deal.redundancyMode ∧
      deal'.mode2Profile = deal.mode2Profile ∧ deal'.serviceHint = deal.serviceHint := by
  cases h <;> exact ⟨rfl, rfl, rfl, rfl, rfl, rfl, rfl⟩

/-- Whoever a deal lists after a step was listed before or is registered, when those about to be
listed are. A replacement is registered when it is named, and nobody is ever unregistered. -/
theorem DealStep.listed (h : DealStep env e s deal deal') (hs : WellFormed env s)
    (hlisted : ∀ p ∈ deal.providers, s.registered p)
    (hpending : ∀ slot ∈ deal.mode2Slots, slot.status = .repairing →
      s.registered slot.pendingProvider) :
    (∀ p ∈ deal'.providers, s.registered p) ∧
      ∀ slot ∈ deal'.mode2Slots, slot.status = .repairing → s.registered slot.pendingProvider := by
  cases h with
  | escrow amount => exact ⟨hlisted, hpending⟩
  | content size deposit hroot => exact ⟨hlisted, hpending⟩
  -- the new providers come from the assignment, which takes registered ones
  | saturated he hget hadmitted hassign =>
      refine ⟨fun p hp => ?_, hpending⟩
      rcases List.mem_append.mp hp with hp | hp
      · exact hlisted p hp
      · exact hs.registered_of_assign hassign p hp
  | repairStarted hmode hslot hreg =>
      refine ⟨hlisted, fun slot' hslot' hstatus => ?_⟩
      rcases List.mem_or_eq_of_mem_set hslot' with hold | rfl
      · exact hpending slot' hold hstatus
      · exact hreg
  -- the replacement takes over, and was registered when it was named
  | repaired he hrepair =>
      refine ⟨fun p hp => ?_, fun slot' hslot' hstatus' => ?_⟩
      · rcases List.mem_or_eq_of_mem_set hp with hold | rfl
        · exact hlisted p hold
        · exact hpending _ (List.mem_of_getElem? hrepair.found) hrepair.status
      · rcases List.mem_or_eq_of_mem_set hslot' with hold | rfl
        · exact hpending slot' hold hstatus'
        · cases hstatus'

end DealStep

/-! ### All deals and all providers -/

/-- Deals are never dropped: each one takes a step, and at most one appears, with the next
id. -/
structure DealsMoved (env : Env β) (e : Event) (s s' : KeeperState β) : Prop where
  kept : ∀ {d deal}, s.deals.get d = some deal →
    ∃ deal', s'.deals.get d = some deal' ∧ DealStep env e s deal deal'
  created : ∀ {d deal'}, s.deals.get d = none → s'.deals.get d = some deal' →
    d = s.dealCount ∧ deal'.id = d ∧ s.dealCount < s'.dealCount ∧
      NewDeal env e.ctx s.providers deal'
  dealCount : s.dealCount ≤ s'.dealCount

/-- A provider that the event has registered. -/
def Registration (env : Env β) (e : Event) (k : Str) : Prop :=
  ∃ ctx msg addr, e = .deliver ctx (.registerProvider msg) ∧
    env.codec.accAddressFromBech32 msg.creator = some addr ∧ k = env.codec.accAddressString addr

/-- Providers are never dropped, and keep their addresses; a new one registered itself. -/
structure ProvidersMoved (env : Env β) (e : Event) (s s' : KeeperState β) : Prop where
  kept : ∀ {k}, s.registered k → s'.registered k
  found : ∀ {k p'}, s'.providers.get k = some p' →
    (∃ p, s.providers.get k = some p ∧ p'.address = p.address) ∨
      p'.address = k ∧ Registration env e k

/-- What one event does to deals and providers. -/
structure Moved (env : Env β) (e : Event) (s s' : KeeperState β) : Prop where
  deals : DealsMoved env e s s'
  providers : ProvidersMoved env e s s'

section Moved

variable {env : Env β} {e : Event} {s s' : KeeperState β}

/-- Deals that did not change have moved by admissible steps. -/
theorem DealsMoved.of_eq (hdeals : s'.deals = s.deals) (hcount : s.dealCount ≤ s'.dealCount) :
    DealsMoved env e s s' := by
  refine ⟨fun {d deal} hget => ⟨deal, by rw [hdeals, hget], .refl _ _ _ _⟩, ?_, hcount⟩
  intro d deal' hnone hsome
  rw [hdeals, hnone] at hsome
  cases hsome

/-- One deal takes a step. -/
theorem DealsMoved.of_set {d : Nat} {deal deal' : Deal} (hget : s.deals.get d = some deal)
    (hstep : DealStep env e s deal deal') (hdeals : s'.deals = s.deals.set d deal')
    (hcount : s'.dealCount = s.dealCount) : DealsMoved env e s s' := by
  refine ⟨fun {d' deal₀} hget' => ?_, fun {d' deal₀} hnone hsome => ?_, hcount.ge⟩
  · rw [hdeals, KVStore.get_set]
    by_cases hd : d' = d
    · subst hd
      rw [hget] at hget'
      cases hget'
      exact ⟨deal', if_pos rfl, hstep⟩
    · exact ⟨deal₀, (if_neg hd).trans hget', .refl _ _ _ _⟩
  · rw [hdeals] at hsome
    rcases KVStore.get_set_some hsome with ⟨rfl, -⟩ | ⟨-, hold⟩
    · rw [hget] at hnone
      cases hnone
    · rw [hnone] at hold
      cases hold

/-- One deal takes a step and is stored under its own id. -/
theorem DealsMoved.of_set_id {d : Nat} {deal deal' : Deal} (hs : WellFormed env s)
    (hget : s.deals.get d = some deal) (hstep : DealStep env e s deal deal')
    (hdeals : s'.deals = s.deals.set deal.id deal') (hcount : s'.dealCount = s.dealCount) :
    DealsMoved env e s s' :=
  .of_set hget hstep (by rw [hdeals, hs.deal_id hget]) hcount

/-- One deal appears. -/
theorem DealsMoved.of_created {payer : Bytes} {deal : Deal} (hs : WellFormed env s)
    (h : DealCreated env e.ctx s s' payer deal) : DealsMoved env e s s' := by
  have hlt : s.dealCount < s'.dealCount := by
    rw [h.dealCount]
    exact Nat.lt_succ_self _
  refine ⟨fun {d deal₀} hget => ⟨deal₀, ?_, .refl _ _ _ _⟩, fun {d deal'} hnone hsome => ?_, hlt.le⟩
  · rw [h.deals, KVStore.get_set_ne _ (hs.deal_lt hget).ne, hget]
  · rw [h.deals] at hsome
    rcases KVStore.get_set_some hsome with ⟨rfl, rfl⟩ | ⟨-, hold⟩
    · exact ⟨rfl, h.id, hlt, h.shape⟩
    · rw [hnone] at hold
      cases hold

/-- The content of a deal is committed. -/
theorem DealsMoved.of_content {payer : Bytes} {d : Nat} {owner : Str} {size : UInt64} {deal : Deal}
    {root : Bytes} (h : ContentUpdated env e.ctx s s' payer d owner size deal root)
    (hcount : s'.dealCount = s.dealCount) : DealsMoved env e s s' :=
  .of_set h.get (.content size _ h.length) h.deals hcount

/-- Providers that did not change have moved by admissible steps. -/
theorem ProvidersMoved.of_eq (h : s'.providers = s.providers) : ProvidersMoved env e s s' := by
  refine ⟨fun {k} hk => ?_, fun {k p'} hget => Or.inl ⟨p', by rw [← h, hget], rfl⟩⟩
  rw [KeeperState.registered, h]
  exact hk

/-- A change of scores is an admissible step of the providers. -/
theorem ProvidersMoved.of_reputation (h : ReputationOnly s s') : ProvidersMoved env e s s' := by
  rcases h with h | ⟨key, p, score, hget, h⟩
  · exact .of_eq h
  · refine ⟨fun {k} hk => ?_, fun {k p'} hsome => ?_⟩
    · rw [KeeperState.registered, h, KVStore.get_set]
      split
      · rfl
      · exact hk
    · rw [h] at hsome
      rcases KVStore.get_set_some hsome with ⟨rfl, rfl⟩ | ⟨-, hold⟩
      · exact Or.inl ⟨p, hget, rfl⟩
      · exact Or.inl ⟨p', hold, rfl⟩

/-- The invariant goes through every event. It is proved field by field from what the event may do
to deals and to providers, and never looks at the messages. -/
theorem Moved.wellFormed (hs : WellFormed env s) (h : Moved env e s s') : WellFormed env s' := by
  -- A deal after the event has taken a step, or is new.
  have hdeal : ∀ {d deal'}, s'.deals.get d = some deal' →
      (∃ deal, s.deals.get d = some deal ∧ DealStep env e s deal deal') ∨
        d = s.dealCount ∧ deal'.id = d ∧ s.dealCount < s'.dealCount ∧
          NewDeal env e.ctx s.providers deal' := by
    intro d deal' hsome
    cases hget : s.deals.get d with
    | none => exact Or.inr (h.deals.created hget hsome)
    | some deal =>
        obtain ⟨deal₁, hget₁, hstep⟩ := h.deals.kept hget
        rw [hsome] at hget₁
        cases hget₁
        exact Or.inl ⟨deal, rfl, hstep⟩
  have hlisted : ∀ {d deal'}, s'.deals.get d = some deal' →
      (∀ p ∈ deal'.providers, s.registered p) ∧
        ∀ slot ∈ deal'.mode2Slots, slot.status = .repairing →
          s.registered slot.pendingProvider := by
    intro d deal' hsome
    rcases hdeal hsome with ⟨deal, hget, hstep⟩ | ⟨-, -, -, hnew⟩
    · exact hstep.listed hs (hs.listed hget) (hs.pending hget)
    · obtain ⟨owner, spend, duration, raw, hint, stripe, -, -, hassign, -, hshape⟩ := hnew
      refine ⟨hs.registered_of_assign hassign, fun slot hslot hstatus => ?_⟩
      -- The slots of a new deal are active.
      rw [hshape] at hslot
      simp only [newDeal] at hslot
      split at hslot
      · obtain ⟨i, hi, rfl⟩ := List.mem_mapIdx.mp hslot
        cases hstatus
      · cases hslot
  refine ⟨?_, ?_, ?_, ?_, ?_, ?_, ?_⟩
  · intro d deal' hsome
    rcases hdeal hsome with ⟨deal, hget, hstep⟩ | ⟨-, hid, -⟩
    · rw [hstep.frame.1, hs.deal_id hget]
    · exact hid
  · intro d deal' hsome
    rcases hdeal hsome with ⟨deal, hget, hstep⟩ | ⟨rfl, -, hlt, -⟩
    · exact (hs.deal_lt hget).trans_le h.deals.dealCount
    · exact hlt
  · intro d deal' hsome
    rcases hdeal hsome
      with ⟨deal, hget, hstep⟩ | ⟨-, -, -, owner, spend, duration, raw, hint, stripe,
      -, -, -, -, hshape⟩
    · rw [hstep.frame.2.2.1]
      exact hs.start_lt hget
    · rw [hshape]
      exact e.ctx.toNat_height64.trans_lt e.ctx.height_lt
  · intro k p' hget
    rcases h.providers.found hget with ⟨p, hold, haddr⟩ | ⟨haddr, -⟩
    · rw [haddr, hs.address hold]
    · exact haddr
  -- an address that is registered is written as the codec writes it
  · intro k hk
    obtain ⟨p', hget⟩ := Option.isSome_iff_exists.mp hk
    rcases h.providers.found hget with ⟨p, hold, -⟩ | ⟨-, ctx, msg, addr, -, haddr, rfl⟩
    · exact hs.canonical (by rw [KeeperState.registered, hold]; rfl)
    · exact ⟨addr, env.codec.roundTrip haddr, rfl⟩
  · intro d deal' hsome p hp
    exact h.providers.kept ((hlisted hsome).1 p hp)
  · intro d deal' hsome slot hslot hstatus
    exact h.providers.kept ((hlisted hsome).2 slot hslot hstatus)

end Moved

/-! ### Delivered messages -/

/-- What an event does to deals, providers and proof statuses, unless it proves something. -/
structure QuietlyMoved (env : Env β) (e : Event) (s s' : KeeperState β) : Prop where
  moved : Moved env e s s'
  status : s'.dealProviderStatus = s.dealProviderStatus

/-- A write elsewhere. -/
theorem QuietlyMoved.of_eq {env : Env β} {e : Event} {s s' : KeeperState β}
    (hdeals : s'.deals = s.deals) (hcount : s.dealCount ≤ s'.dealCount)
    (hproviders : s'.providers = s.providers)
    (hstatus : s'.dealProviderStatus = s.dealProviderStatus) : QuietlyMoved env e s s' :=
  ⟨⟨.of_eq hdeals hcount, .of_eq hproviders⟩, hstatus⟩

/-- A write to deals. -/
theorem QuietlyMoved.of_deals {env : Env β} {e : Event} {s s' : KeeperState β}
    (hdeals : DealsMoved env e s s') (hproviders : s'.providers = s.providers)
    (hstatus : s'.dealProviderStatus = s.dealProviderStatus) : QuietlyMoved env e s s' :=
  ⟨⟨hdeals, .of_eq hproviders⟩, hstatus⟩

section Sessions

variable {env : Env β} {ctx : Ctx} {s s' : KeeperState β}

/-- Finishing a session moves no deal and no provider. -/
theorem Finished.toQuiet {e : Event} {sessionId : Bytes} {session : RetrievalSession}
    (h : Finished env ctx sessionId session s s') : QuietlyMoved env e s s' := by
  cases h <;> exact .of_eq rfl le_rfl rfl rfl

/-- Advancing a session moves no deal but for its escrow. -/
theorem Advanced.toQuiet {e : Event} {sessionId : Bytes}
    {next : RetrievalSessionStatus → RetrievalSessionStatus} {session : RetrievalSession}
    (h : Advanced env ctx sessionId next session s s') : QuietlyMoved env e s s' := by
  cases h with
  | unchanged hstatus => exact .of_eq rfl le_rfl rfl rfl
  | moved hstatus hfinished => exact hfinished.toQuiet

/-- Opening a session moves money out of one escrow. -/
theorem SessionOpened.toQuiet {msg : MsgOpenRetrievalSession} {plan : OpenPlan} {sessionId : Bytes}
    {e : Event} (h : SessionOpened env ctx msg s s' plan sessionId) : QuietlyMoved env e s s' := by
  obtain ⟨hplan, -, -, s₁, hfees, rfl⟩ := h
  have hget := (checkOpen_ok hplan).1
  have hcount : s₁.dealCount = s.dealCount := by rw [hfees.frame]
  have hproviders : s₁.providers = s.providers := by rw [hfees.frame]
  have hstatus : s₁.dealProviderStatus = s.dealProviderStatus := by rw [hfees.frame]
  refine .of_deals ?_ hproviders hstatus
  have hdeals := hfees.deals
  split at hdeals
  · exact .of_set hget (.escrow _) hdeals hcount
  · exact .of_eq hdeals hcount.ge

/-- Cancelling a session moves its fee back into one escrow. -/
theorem Canceled.toQuiet {e : Event} {sessionId : Bytes} {session : RetrievalSession}
    (h : Canceled ctx sessionId session s s') : QuietlyMoved env e s s' := by
  cases h with
  | unchanged hstatus => exact .of_eq rfl le_rfl rfl rfl
  | refunded hstatus hexp hfee hget hevidence =>
      rw [EvidenceOnly] at hevidence
      rw [hevidence]
      exact .of_deals (.of_set hget (.escrow _) rfl rfl) rfl rfl
  | free hstatus hexp hfee hevidence =>
      rw [EvidenceOnly] at hevidence
      rw [hevidence]
      exact .of_eq rfl le_rfl rfl rfl

end Sessions

/-- Registering a provider moves no deal. -/
theorem registerProvider_quiet {env : Env β} {ctx : Ctx} {msg : MsgRegisterProvider}
    {s s' : KeeperState β} {u : Unit} (h : (registerProvider env msg).exec s = (.ok u, s')) :
    QuietlyMoved env (.deliver ctx (.registerProvider msg)) s s' := by
  obtain ⟨addr, endpoints, haddr, rfl⟩ := registerProvider_ok h
  refine ⟨⟨.of_eq rfl le_rfl, fun {k} hk => ?_, fun {k p'} hsome => ?_⟩, rfl⟩
  · rw [KeeperState.registered, KVStore.get_set]
    split
    · rfl
    · exact hk
  · rcases KVStore.get_set_some hsome with ⟨rfl, rfl⟩ | ⟨-, hold⟩
    · exact Or.inr ⟨rfl, ctx, msg, addr, rfl, haddr, rfl⟩
    · exact Or.inl ⟨p', hold, rfl⟩

/-- A delivered message that succeeds and is no liveness proof moves quietly: deals take their
steps, and the score and the proofs stay as they are. A liveness proof is the only message with the
other effects. -/
theorem handle_quiet {env : Env β} {ctx : Ctx} {msg : Msg} {s s' : KeeperState β} {u : Unit}
    (hs : WellFormed env s) (h : (handle env ctx msg).exec s = (.ok u, s'))
    (hmsg : ∀ m, msg ≠ .proveLiveness m) : QuietlyMoved env (.deliver ctx msg) s s' := by
  -- one case for each message, each by what its handler does
  cases msg with
  | updateParams msg =>
      obtain ⟨-, -, rfl⟩ := updateParams_ok h
      exact .of_eq rfl le_rfl rfl rfl
  | registerProvider msg => exact registerProvider_quiet h
  | createDeal msg =>
      obtain ⟨r, h⟩ := discard_ok.mp h
      obtain ⟨payer, deal, -, -, hcreated, hframe⟩ := createDeal_ok h
      exact .of_deals (.of_created hs hcreated) (by rw [hframe]) (by rw [hframe])
  | updateDealContent msg =>
      obtain ⟨payer, deal, root, -, hcontent, hframe⟩ := updateDealContent_ok h
      exact .of_deals (.of_content hcontent (by rw [hframe])) (by rw [hframe]) (by rw [hframe])
  | createDealFromEvm msg =>
      obtain ⟨r, h⟩ := discard_ok.mp h
      obtain ⟨intent, evmAddr, deal, -, -, -, hcreated, -, hframe⟩ := createDealFromEvm_ok h
      exact .of_deals (.of_created hs hcreated) (by rw [hframe]) (by rw [hframe])
  | updateDealContentFromEvm msg =>
      obtain ⟨intent, evmAddr, deal, root, -, -, -, hcontent, hframe⟩ :=
        updateDealContentFromEvm_ok h
      exact .of_deals (.of_content hcontent (by rw [hframe])) (by rw [hframe]) (by rw [hframe])
  | openRetrievalSession msg =>
      obtain ⟨r, h⟩ := discard_ok.mp h
      obtain ⟨plan, hopened⟩ := openRetrievalSession_ok h
      exact hopened.toQuiet
  | confirmRetrievalSession msg =>
      obtain ⟨session, -, -, -, hadvanced⟩ := confirmRetrievalSession_ok h
      exact hadvanced.toQuiet
  | cancelRetrievalSession msg =>
      obtain ⟨session, -, -, hcanceled⟩ := cancelRetrievalSession_ok h
      exact hcanceled.toQuiet
  | submitRetrievalSessionProof msg =>
      obtain ⟨session, -, -, -, -, hadvanced⟩ := submitRetrievalSessionProof_ok h
      exact hadvanced.toQuiet
  | proveLiveness msg => exact absurd rfl (hmsg msg)
  | signalSaturation msg =>
      obtain ⟨r, h⟩ := discard_ok.mp h
      obtain ⟨deal, hget, hadmitted, hassign, rfl⟩ := signalSaturation_ok h
      exact .of_deals (.of_set_id hs hget (.saturated rfl hget hadmitted hassign) rfl rfl) rfl rfl
  | startSlotRepair msg =>
      obtain ⟨deal, slot, pending, hget, -, hmode, hslot, -, hreg, -, -, rfl⟩ :=
        startSlotRepair_ok h
      exact .of_deals (.of_set_id hs hget (.repairStarted hmode hslot hreg) rfl rfl) rfl rfl
  | completeSlotRepair msg =>
      obtain ⟨deal, slot, hpending, rfl⟩ := completeSlotRepair_ok h
      exact .of_deals (.of_set_id hs hpending.get (.repaired rfl hpending) rfl rfl) rfl rfl
  | addCredit msg =>
      obtain ⟨r, h⟩ := discard_ok.mp h
      obtain ⟨payer, deal, amount, b, -, hget, -, -, -, -, rfl⟩ := addCredit_ok h
      exact .of_deals (.of_set hget (.escrow _) rfl rfl) rfl rfl
  | withdrawRewards msg =>
      obtain ⟨r, h⟩ := discard_ok.mp h
      obtain ⟨addr, b₁, b₂, -, -, -, -, -, rfl⟩ := withdrawRewards_ok h
      exact .of_eq rfl le_rfl rfl rfl

/-- A liveness proof that was answered: without success it leaves the proof statuses alone,
with success it sets the sender's to the height of the block. -/
theorem proveLiveness_moved {env : Env β} {ctx : Ctx} {msg : MsgProveLiveness} {e : Event}
    {s s' : KeeperState β} {r : MsgProveLivenessResponse}
    (h : (proveLiveness env ctx msg).exec s = (.ok r, s')) :
    Moved env e s s' ∧
      s'.dealProviderStatus =
        if r.success then
          s.dealProviderStatus.set (join msg.dealId.toNat msg.creator) ctx.height64
        else s.dealProviderStatus := by
  obtain ⟨deal, stripe, hget, -, -, -, ⟨hfalse, hrejected⟩ | ⟨htrue, hproved⟩⟩ := proveLiveness_ok h
  · have hdeals : s'.deals = s.deals := by rw [hrejected.frame]
    have hcount : s'.dealCount = s.dealCount := by rw [hrejected.frame]
    refine ⟨⟨.of_eq hdeals hcount.ge, .of_reputation hrejected.reputation⟩, ?_⟩
    rw [hfalse, hrejected.frame]
    rfl
  · have hcount : s'.dealCount = s.dealCount := by rw [hproved.frame]
    refine ⟨⟨.of_set hget (.escrow _) hproved.deals hcount, .of_reputation hproved.reputation⟩, ?_⟩
    rw [htrue, hproved.status]
    rfl

/-- A delivered message that succeeds moves deals and providers as `Moved` says. -/
theorem handle_moved {env : Env β} {ctx : Ctx} {msg : Msg} {s s' : KeeperState β} {u : Unit}
    (hs : WellFormed env s) (h : (handle env ctx msg).exec s = (.ok u, s')) :
    Moved env (.deliver ctx msg) s s' := by
  by_cases hmsg : ∀ m, msg ≠ .proveLiveness m
  · exact (handle_quiet hs h hmsg).moved
  · push Not at hmsg
    obtain ⟨m, rfl⟩ := hmsg
    obtain ⟨r, h⟩ := discard_ok.mp h
    exact (proveLiveness_moved h).1

end NilStore.Chain
