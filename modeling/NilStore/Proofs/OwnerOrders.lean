import NilStore.Lib.Driven
import NilStore.Proofs.PrecompileSteps
import NilStore.Chain.Ledger

/-!
# `NilStore.Proofs.OwnerOrders`: a deal follows its owner

What a provider serves for a deal is its content, and where a slot's data lies is its slot map. Both
are the owner's: the root, the size and the generation change by the content updates that were
accepted, the slot map by the repairs, and by nothing else.

`DealView` is that part of a deal and `DealOrder` what an owner can order. `Event.orders` reads the
orders off an event that was accepted: the two content messages, the two repair messages and the
content call of the precompile. Who signs is the sender, the account that the signature recovers
to, or the contract that calls. `deal_follows_owner` says that from any state of a run on, the view
of a deal is driven by its orders, each of them signed by its owner and let through by the view.
`repair_outcome` reads the repairs off the view: whoever stands behind a slot after a repair is the
provider that the repair was started for.
-/

set_option autoImplicit false

namespace NilStore.Chain

open NilStore.Lib

variable {β : Type}

/-! ### The view -/

/-- What the owner of a deal decides: the content, and who holds or is to hold each slot. -/
structure DealView where
  owner : Str
  root : Bytes
  size : UInt64
  gen : UInt64
  slots : List (Str × Option Str)
deriving DecidableEq

/-- What the owner of a deal can order. -/
inductive DealAct where
  /-- New content. -/
  | commit (root : Bytes) (size : UInt64)
  /-- A replacement for the provider of a slot. -/
  | startRepair (slot : Nat) (pending : Str)
  /-- The replacement takes over. -/
  | completeRepair (slot : Nat)
deriving DecidableEq

/-- An order for a deal, and who signed it. -/
structure DealOrder where
  deal : Nat
  signer : Str
  act : DealAct
deriving DecidableEq

/-- The provider of a slot, and its replacement while the slot is repairing. -/
def DealSlot.view (slot : DealSlot) : Str × Option Str :=
  (slot.provider, if slot.status = .repairing then some slot.pendingProvider else none)

/-- The view of a deal. -/
def Deal.view (deal : Deal) : DealView where
  owner := deal.owner
  root := deal.manifestRoot
  size := deal.size
  gen := deal.currentGen
  slots := deal.mode2Slots.map DealSlot.view

/-- The view after an order. A new root starts a generation. -/
def DealView.obey (v : DealView) (order : DealOrder) : DealView :=
  match order.act with
  | .commit root size =>
      { v with root := root, size := size, gen := if v.root ≠ root then v.gen + 1 else v.gen }
  | .startRepair i pending =>
      { v with slots := v.slots.modify i fun slot => (slot.1, some pending) }
  | .completeRepair i =>
      { v with slots := v.slots.modify i fun slot => (slot.2.getD slot.1, none) }

/-- The orders that a view lets through. The owner signs; content has a root of 48 bytes and is not
empty; a repair starts where none is under way and names another provider; it is completed where one
is under way. -/
def DealView.Admits (v : DealView) (order : DealOrder) : Prop :=
  order.signer = v.owner ∧
    match order.act with
    | .commit root size => root.length = 48 ∧ size ≠ 0
    | .startRepair i pending =>
        ∃ provider, v.slots[i]? = some (provider, none) ∧ trimSpace provider ≠ pending
    | .completeRepair i => ∃ provider pending, v.slots[i]? = some (provider, some pending)

/-! ### The orders of an event -/

/-- The order that a message carries. -/
def Msg.order (env : Env β) (params : Params) : Msg → Option DealOrder
  | .updateDealContent msg =>
      (decodeManifestRoot msg.cid).map fun root =>
        ⟨msg.dealId.toNat, msg.creator, .commit root msg.size⟩
  | .updateDealContentFromEvm msg => do
      let intent ← msg.intent
      let root ← decodeManifestRoot intent.cid
      -- The signer is whoever the signature over the intent recovers to.
      let evmAddr ← recoverEvmAddressFromDigest env
        (intentDigest env params (hashUpdateContent env.keccak256 intent)) msg.evmSignature
      return ⟨intent.dealId.toNat, env.codec.accAddressString evmAddr,
        .commit root intent.sizeBytes⟩
  | .startSlotRepair msg =>
      some ⟨msg.dealId.toNat, msg.creator,
        .startRepair msg.slot.toNat (trimSpace msg.pendingProvider)⟩
  | .completeSlotRepair msg =>
      some ⟨msg.dealId.toNat, msg.creator, .completeRepair msg.slot.toNat⟩
  | _ => none

/-- The orders of an event, when it was accepted. -/
def Event.orders (env : Env β) (s : KeeperState β) : Event → List DealOrder
  | .deliver ctx msg =>
      match (handle env ctx msg).exec s with
      | (.ok _, _) => (msg.order env s.getParams).toList
      | _ => []
  | .call ctx input =>
      match input.call, (Precompile.run env ctx input).exec s with
      | .ok (.updateDealContent dealId root size), (.ok _, _) =>
          [⟨dealId.toNat, env.codec.accAddressString input.caller, .commit root size⟩]
      | _, _ => []
  | .endBlock _ => []

/-- The orders of an event for one deal. -/
def Event.ordersFor (env : Env β) (d : Nat) (s : KeeperState β) (e : Event) : List DealOrder :=
  (e.orders env s).filter fun order => order.deal = d

/-- The view of a stored deal. -/
def KeeperState.dealView (d : Nat) (s : KeeperState β) : Option DealView :=
  (s.deals.get d).map Deal.view

/-- The view of a deal is that of the stored deal. -/
theorem dealView_eq_some {d : Nat} {s : KeeperState β} {v : DealView} :
    s.dealView d = some v ↔ ∃ deal, s.deals.get d = some deal ∧ deal.view = v :=
  Option.map_eq_some_iff

/-! ### What an order does to a deal -/

section Views

variable {ctx : Ctx} {deal : Deal} {slot : DealSlot}

/-- New content. -/
theorem view_commitContent (deal : Deal) (root : Bytes) (size : UInt64) (deposit : Int)
    (order : DealOrder) (h : order.act = .commit root size) :
    (commitContent deal root size deposit).view = deal.view.obey order := by
  rw [DealView.obey, h]
  rfl

/-- Writing a slot is a change of the slot map in one place. -/
theorem map_view_set {slots : List DealSlot} {i : Nat} {slot : DealSlot} (slot' : DealSlot)
    (f : Str × Option Str → Str × Option Str) (hslot : slots[i]? = some slot)
    (hview : slot'.view = f slot.view) :
    (slots.set i slot').map DealSlot.view = (slots.map DealSlot.view).modify i f := by
  apply List.ext_getElem?
  intro j
  rw [List.getElem?_map, List.getElem?_modify, List.getElem?_map, List.getElem?_set]
  by_cases hij : i = j
  · subst hij
    obtain ⟨hlt, rfl⟩ := List.getElem?_eq_some_iff.mp hslot
    simp [hview, hlt]
  · simp [hij]

/-- A repair starts. -/
theorem view_startRepair {i : Nat} {pending : Str} (hslot : deal.mode2Slots[i]? = some slot)
    (order : DealOrder) (h : order.act = .startRepair i pending) :
    Deal.view
      { deal with mode2Slots := deal.mode2Slots.set i (startRepair ctx deal slot pending) } =
      deal.view.obey order := by
  have hset := map_view_set (startRepair ctx deal slot pending)
    (fun slot => (slot.1, some pending)) hslot rfl
  rw [DealView.obey, h]
  simp only [Deal.view, hset]

/-- The replacement takes over. -/
theorem view_completeSlot {i : Nat} (hslot : deal.mode2Slots[i]? = some slot)
    (hstatus : slot.status = .repairing) (order : DealOrder) (h : order.act = .completeRepair i) :
    (completeSlot ctx deal i slot).view = deal.view.obey order := by
  have hset := map_view_set (completeRepair ctx slot) (fun slot => (slot.2.getD slot.1, none)) hslot
    (by simp [DealSlot.view, completeRepair, hstatus])
  rw [DealView.obey, h]
  simp only [Deal.view, completeSlot, hset]

/-- The slot map shows a stored slot. -/
theorem view_slot {i : Nat} (hslot : deal.mode2Slots[i]? = some slot) :
    deal.view.slots[i]? = some slot.view := by
  rw [Deal.view, List.getElem?_map, hslot, Option.map_some]

end Views

/-! ### Events without orders -/

/-- Every stored deal keeps its view. -/
def ViewsKept (s s' : KeeperState β) : Prop :=
  ∀ d v, s.dealView d = some v → s'.dealView d = some v

section ViewsKept

variable {env : Env β} {ctx : Ctx} {s s' : KeeperState β}

/-- Deals that did not change look the same. -/
theorem ViewsKept.of_eq (h : s'.deals = s.deals) : ViewsKept s s' := by
  intro d v hview
  rw [KeeperState.dealView, h]
  exact hview

/-- A deal is written again with its view. -/
theorem ViewsKept.of_set {d : Nat} {deal deal' : Deal} (hget : s.deals.get d = some deal)
    (h : s'.deals = s.deals.set d deal') (hview : deal'.view = deal.view) : ViewsKept s s' := by
  intro d' v hv
  rw [KeeperState.dealView, h, KVStore.get_set]
  by_cases hd : d' = d
  · subst hd
    rw [KeeperState.dealView, hget] at hv
    rw [if_pos rfl, ← hv, Option.map_some, Option.map_some, hview]
  · rw [if_neg hd]
    exact hv

/-- A deal appears. -/
theorem ViewsKept.of_created {payer : Bytes} {deal : Deal} (hs : WellFormed env s)
    (h : DealCreated env ctx s s' payer deal) : ViewsKept s s' := by
  intro d v hview
  obtain ⟨deal₀, hget, rfl⟩ := dealView_eq_some.mp hview
  rw [KeeperState.dealView, h.deals, KVStore.get_set_ne _ (hs.deal_lt hget).ne, hget]
  rfl

/-- A change of escrows does not change how a deal looks. -/
theorem EscrowOnly.viewsKept (h : EscrowOnly s s') : ViewsKept s s' := by
  intro d v hview
  obtain ⟨deal, hget, rfl⟩ := dealView_eq_some.mp hview
  have hd := h.deals d
  rw [hget, Option.map_some, Option.map_eq_some_iff] at hd
  obtain ⟨deal', hget', heq⟩ := hd
  refine dealView_eq_some.mpr ⟨deal', hget', ?_⟩
  -- The view does not show the escrow.
  have hview : deal'.withoutEscrow.view = deal.withoutEscrow.view := by rw [heq]
  exact hview

/-- A message that orders nothing keeps all views: what it writes into a deal is money, providers or
heat, which no view shows. -/
theorem handle_viewsKept {msg : Msg} {u : Unit} (hs : WellFormed env s)
    (h : (handle env ctx msg).exec s = (.ok u, s'))
    (hcontent : ∀ m, msg ≠ .updateDealContent m)
    (hcontentEvm : ∀ m, msg ≠ .updateDealContentFromEvm m)
    (hstart : ∀ m, msg ≠ .startSlotRepair m) (hcomplete : ∀ m, msg ≠ .completeSlotRepair m) :
    ViewsKept s s' := by
  -- one case for each message
  cases msg with
  | updateParams msg =>
      obtain ⟨-, -, rfl⟩ := updateParams_ok h
      exact .of_eq rfl
  | registerProvider msg =>
      obtain ⟨addr, endpoints, -, rfl⟩ := registerProvider_ok h
      exact .of_eq rfl
  | createDeal msg =>
      obtain ⟨r, h⟩ := discard_ok.mp h
      obtain ⟨payer, deal, -, -, hcreated, -⟩ := createDeal_ok h
      exact .of_created hs hcreated
  | createDealFromEvm msg =>
      obtain ⟨r, h⟩ := discard_ok.mp h
      obtain ⟨intent, evmAddr, deal, -, -, -, hcreated, -, -⟩ := createDealFromEvm_ok h
      exact .of_created hs hcreated
  | openRetrievalSession msg =>
      obtain ⟨r, h⟩ := discard_ok.mp h
      exact ((keeps_openRetrievalSession EscrowOnly.serves msg s).of_exec h).viewsKept
  | confirmRetrievalSession msg =>
      exact ((keeps_confirmRetrievalSession EscrowOnly.serves msg s).of_exec h).viewsKept
  | cancelRetrievalSession msg =>
      obtain ⟨session, -, -, hcanceled⟩ := cancelRetrievalSession_ok h
      cases hcanceled with
      | unchanged hstatus => exact .of_eq rfl
      | refunded hstatus hexp hfee hget hevidence =>
          rw [EvidenceOnly] at hevidence
          rw [hevidence]
          exact .of_set hget rfl rfl
      | free hstatus hexp hfee hevidence =>
          rw [EvidenceOnly] at hevidence
          rw [hevidence]
          exact .of_eq rfl
  | submitRetrievalSessionProof msg =>
      obtain ⟨session, -, -, -, -, hadvanced⟩ := submitRetrievalSessionProof_ok h
      cases hadvanced with
      | unchanged hstatus => exact .of_eq rfl
      | moved hstatus hfinished => cases hfinished <;> exact .of_eq rfl
  | proveLiveness msg =>
      obtain ⟨r, h⟩ := discard_ok.mp h
      obtain ⟨deal, stripe, hget, -, -, -, ⟨-, hrejected⟩ | ⟨-, hproved⟩⟩ := proveLiveness_ok h
      · exact .of_eq (by rw [hrejected.frame])
      · exact .of_set hget hproved.deals rfl
  | signalSaturation msg =>
      obtain ⟨r, h⟩ := discard_ok.mp h
      obtain ⟨deal, hget, -, -, rfl⟩ := signalSaturation_ok h
      rw [← hs.deal_id hget] at hget
      exact .of_set hget rfl rfl
  | addCredit msg =>
      obtain ⟨r, h⟩ := discard_ok.mp h
      obtain ⟨payer, deal, amount, b, -, hget, -, -, -, -, rfl⟩ := addCredit_ok h
      exact .of_set hget rfl rfl
  | withdrawRewards msg =>
      obtain ⟨r, h⟩ := discard_ok.mp h
      obtain ⟨addr, b₁, b₂, -, -, -, -, -, rfl⟩ := withdrawRewards_ok h
      exact .of_eq rfl
  -- the four that carry orders are excluded
  | updateDealContent msg => exact absurd rfl (hcontent msg)
  | updateDealContentFromEvm msg => exact absurd rfl (hcontentEvm msg)
  | startSlotRepair msg => exact absurd rfl (hstart msg)
  | completeSlotRepair msg => exact absurd rfl (hcomplete msg)

/-- A call that commits no content keeps all views, also when it fails midway. -/
theorem serve_viewsKept {caller : Bytes} {call : Precompile.Call}
    {res : Except Fault Precompile.Output} (hs : WellFormed env s)
    (h : (Precompile.serve env ctx caller call).exec s = (res, s'))
    (hcall : ∀ dealId root size, call ≠ .updateDealContent dealId root size) : ViewsKept s s' := by
  -- a call on sessions, on deals, or one of the others
  by_cases hsessions : call.servesSessions
  · exact (Precompile.serve_within (.of_serves EscrowOnly.serves) h hsessions).viewsKept
  by_cases hdeals : call.servesDeals
  · cases call with
    -- a creation adds a deal, or fails after its fee
    | createDeal duration hint escrow spend =>
        have h : (Precompile.runCreateDeal env ctx caller duration hint escrow spend).exec s =
          (res, s') := h
        cases res with
        | ok r =>
            rw [Precompile.runCreateDeal, Tx.exec_failIf_bind_ok, Tx.exec_bind_ok] at h
            obtain ⟨-, r, s₁, hcreate, hlast⟩ := h
            cases hlast
            obtain ⟨payer, deal, -, -, hcreated, -⟩ := createDeal_ok hcreate
            exact .of_created hs hcreated
        | error e =>
            rw [Precompile.runCreateDeal, Tx.exec_failIf_bind_error, Tx.exec_bind_error] at h
            rcases h with ⟨-, -, rfl⟩ | ⟨-, h | ⟨r, s₁, -, hlast⟩⟩
            · exact .of_eq rfl
            · obtain ⟨b, ⟨hframe, -⟩, -⟩ := createDeal_fails h
              exact .of_eq (by rw [hframe])
            · cases hlast
    | updateDealContent dealId root size => exact absurd rfl (hcall dealId root size)
    | _ => exact hdeals.elim
  · rcases Precompile.serve_other h hsessions hdeals with hheat | ⟨d, deal, amount, provider, hget,
      hframe⟩
    · exact .of_eq (by rw [hheat])
    · have hset : s'.deals = s.deals.set d { deal with escrowBalance := amount } := by rw [hframe]
      exact .of_set hget hset rfl

end ViewsKept

/-! ### Events with orders -/

/-- The event drives the view of every stored deal with its orders. -/
def OrdersObeyed (s s' : KeeperState β) (orders : List DealOrder) : Prop :=
  ∀ d v, s.dealView d = some v →
    ∃ v', s'.dealView d = some v' ∧
      Driven DealView.obey DealView.Admits v (orders.filter fun order => order.deal = d) v'

/-- Deals that look the same have obeyed no orders. -/
theorem ViewsKept.ordersObeyed {s s' : KeeperState β} (h : ViewsKept s s') :
    OrdersObeyed s s' [] := by
  intro d v hview
  exact ⟨v, h d v hview, .nil rfl⟩

/-- One deal is written, with the view after an order that its view lets through. -/
theorem OrdersObeyed.of_set {s s' : KeeperState β} {d : Nat} {deal deal' : Deal} {order : DealOrder}
    (hget : s.deals.get d = some deal) (hd : order.deal = d) (hadmits : deal.view.Admits order)
    (hview : deal'.view = deal.view.obey order) (h : s'.deals = s.deals.set d deal') :
    OrdersObeyed s s' [order] := by
  intro d' v hv
  rw [KeeperState.dealView, h, KVStore.get_set]
  by_cases hne : d' = d
  · subst hne
    rw [KeeperState.dealView, hget] at hv
    cases hv
    rw [if_pos rfl]
    exact ⟨deal'.view, rfl, by simpa [hd] using .one hadmits hview⟩
  · rw [if_neg hne]
    refine ⟨v, hv, ?_⟩
    have hnone : [order].filter (fun order => order.deal = d') = [] := by
      simp [hd, Ne.symm hne]
    rw [hnone]
    exact .nil rfl

section Orders

variable {env : Env β} {ctx : Ctx} {s s' : KeeperState β}

/-- Content that was committed. -/
theorem ContentUpdated.ordersObeyed {payer : Bytes} {d : Nat} {owner : Str} {size : UInt64}
    {deal : Deal} {root : Bytes} (h : ContentUpdated env ctx s s' payer d owner size deal root)
    (hsize : size ≠ 0) : OrdersObeyed s s' [⟨d, owner, .commit root size⟩] :=
  .of_set h.get rfl ⟨h.owner.symm, h.length, hsize⟩ (view_commitContent _ _ _ _ _ rfl) h.deals

/-- The content message: which root it names, and that its size is not zero. -/
theorem updateDealContent_root {msg : MsgUpdateDealContent} {u : Unit}
    (h : (updateDealContent env ctx msg).exec s = (.ok u, s')) :
    ∃ payer deal root, decodeManifestRoot msg.cid = some root ∧ msg.size ≠ 0 ∧
      ContentUpdated env ctx s s' payer msg.dealId.toNat msg.creator msg.size deal root := by
  simp only [updateDealContent, Tx.exec_ofExcept_bind_ok, Tx.exec_reads_bind_ok,
    Tx.exec_failIf_bind_ok, Tx.exec_gets_bind, payTermDeposit_bind_ok, Tx.exec_update,
    orFail_eq_ok, Prod.mk.injEq, not_not] at h
  obtain ⟨payer, -, deal, hget, howner, b, hpaid, -, hsize, root, hroot, -, hs'⟩ := h
  subst hs'
  exact ⟨payer, deal, root, hroot, hsize,
    ⟨hget, howner, decodeManifestRoot_length hroot, hpaid, rfl⟩⟩

/-- The bridged content message has a size. -/
theorem updateDealContentFromEvm_size {msg : MsgUpdateDealContentFromEvm}
    {intent : EvmUpdateContentIntent} {u : Unit}
    (h : (updateDealContentFromEvm env ctx msg).exec s = (.ok u, s'))
    (hintent : msg.intent = some intent) : intent.sizeBytes ≠ 0 := by
  simp only [updateDealContentFromEvm, Tx.exec_ofExcept_bind_ok, Tx.exec_failIf_bind_ok,
    orFail_eq_ok] at h
  obtain ⟨intent', hintent', -, hsize, -⟩ := h
  rw [hintent] at hintent'
  cases hintent'
  exact hsize

/-- An accepted message drives every deal with its order. There are four that carry one: content by
either way, and the start and the end of a repair. -/
theorem handle_ordersObeyed {msg : Msg} {u : Unit} (hs : WellFormed env s)
    (h : (handle env ctx msg).exec s = (.ok u, s')) :
    OrdersObeyed s s' (msg.order env s.getParams).toList := by
  -- the four, and then all others
  cases msg with
  | updateDealContent msg =>
      obtain ⟨payer, deal, root, hroot, hsize, hcontent⟩ := updateDealContent_root h
      rw [Msg.order, hroot]
      exact hcontent.ordersObeyed hsize
  | updateDealContentFromEvm msg =>
      obtain ⟨intent, evmAddr, deal, root, hintent, hauth, hroot, hcontent, -⟩ :=
        updateDealContentFromEvm_ok h
      have hsize := updateDealContentFromEvm_size h hintent
      -- The account that the handler recovers is the signer that the order names.
      simp only [Msg.order, hintent, hroot, hauth.recovers, Option.bind_eq_bind, Option.bind_some,
        Option.pure_def]
      exact hcontent.ordersObeyed hsize
  | startSlotRepair msg =>
      obtain ⟨deal, slot, pending, hget, howner, -, hslot, hstatus, -, rfl, hne, rfl⟩ :=
        startSlotRepair_ok h
      have hid := hs.deal_id hget
      refine .of_set hget rfl ⟨howner.symm, slot.provider, ?_, hne⟩
        (view_startRepair hslot _ rfl) (by rw [hid])
      rw [view_slot hslot, DealSlot.view, if_neg hstatus]
  | completeSlotRepair msg =>
      obtain ⟨deal, slot, hrepair, rfl⟩ := completeSlotRepair_ok h
      have hid := hs.deal_id hrepair.get
      refine .of_set hrepair.get rfl
        ⟨hrepair.owner.symm, slot.provider, slot.pendingProvider, ?_⟩
        (view_completeSlot hrepair.found hrepair.status _ rfl) (by rw [hid])
      rw [view_slot hrepair.found, DealSlot.view, if_pos hrepair.status]
  | _ =>
      exact (handle_viewsKept hs h (by simp) (by simp) (by simp) (by simp)).ordersObeyed

/-- An event drives the view of every deal with the orders that it carries. A transaction that fails
carries none, since all of it is rolled back. -/
theorem apply_ordersObeyed (hs : WellFormed env s) (e : Event) :
    OrdersObeyed s (apply env s e) (e.orders env s) := by
  cases e with
  | deliver ctx msg =>
      rw [Event.orders]
      cases hexec : (handle env ctx msg).exec s with
      | mk res s' =>
          cases res with
          | ok u =>
              rw [apply, Tx.commitOrRollback_of_ok hexec]
              exact handle_ordersObeyed hs hexec
          | error fault =>
              rw [apply, Tx.commitOrRollback_of_error hexec]
              exact (ViewsKept.of_eq rfl).ordersObeyed
  -- the end of a block writes failures and money only
  | endBlock ctx =>
      have hframe := (checkMissedProofs_spec env ctx s).frame
      rw [apply, hframe]
      exact (ViewsKept.of_eq rfl).ordersObeyed
  | call ctx input =>
      cases hrun : (Precompile.run env ctx input).exec s with
      | mk res s' =>
          rw [apply, Event.orders, hrun]
          rcases Precompile.run_cases hrun with ⟨-, ⟨fault, rfl⟩, rfl⟩ | ⟨-, call, hcall, hserve⟩
          · -- A call that is not served has failed, and carries no order.
            split
            · rename_i hres
              cases hres
            · exact (ViewsKept.of_eq rfl).ordersObeyed
          · rw [hcall]
            -- the only call with an order is the one that commits content
            by_cases hcontent : ∃ dealId root size, call = .updateDealContent dealId root size
            · obtain ⟨dealId, root, size, rfl⟩ := hcontent
              have hserve : (Precompile.runUpdateDealContent env ctx input.caller dealId root
                size).exec s = (res, s') := hserve
              cases res with
              | error fault =>
                  rw [Precompile.runUpdateDealContent_fails hserve]
                  exact (ViewsKept.of_eq rfl).ordersObeyed
              | ok out =>
                  rw [Precompile.runUpdateDealContent, Tx.exec_failIf_bind_ok,
                    Tx.exec_failIf_bind_ok, Tx.exec_bind_ok] at hserve
                  obtain ⟨hlength, hsize, u, s₁, hupdate, hlast⟩ := hserve
                  cases hlast
                  obtain ⟨payer, deal, root', hroot, -, hcommitted⟩ :=
                    updateDealContent_root hupdate
                  -- The text that the call passes on is that of the root.
                  rw [Precompile.decodeManifestRoot_hexEncode (not_not.mp hlength)] at hroot
                  cases hroot
                  exact hcommitted.ordersObeyed hsize
            · have hkept := serve_viewsKept hs hserve fun dealId root size heq =>
                hcontent ⟨dealId, root, size, heq⟩
              cases call with
              | updateDealContent dealId root size => exact absurd ⟨_, _, _, rfl⟩ hcontent
              | _ => exact hkept.ordersObeyed

end Orders

/-! ### Whole runs -/

/-- From any state of a run on, a deal does what its owner orders. Its content, its generation and
the slot map are those that its accepted orders lead to, in their order; each of them was signed by
its owner and let through. The owner stays the same. -/
theorem deal_follows_owner (env : Env β) (params : Params) (b : β)
    (past more : List Event) {d : Nat}
    {deal : Deal} (hget : (run (apply env) (genesis params b) past).deals.get d = some deal) :
    ∃ deal', (run (apply env) (genesis params b) (past ++ more)).deals.get d = some deal' ∧
      deal'.owner = deal.owner ∧
      Driven DealView.obey DealView.Admits deal.view
        (trace (apply env) (fun s e => e.ordersFor env d s)
          (run (apply env) (genesis params b) past)
          more) deal'.view := by
  have hview : (run (apply env) (genesis params b) past).dealView d = some deal.view :=
    dealView_eq_some.mpr ⟨deal, hget, rfl⟩
  -- every event drives the view with its orders, so the run does
  obtain ⟨v', hview', hdriven⟩ := run_driven (I := WellFormed env)
    (fun s e hs => apply_wellFormed hs e)
    (fun s e v hs hv => apply_ordersObeyed hs e d v hv)
      (run_wellFormed env params b past) hview more
  rw [← run_append] at hview'
  obtain ⟨deal', hget', rfl⟩ := dealView_eq_some.mp hview'
  refine ⟨deal', hget', ?_, hdriven⟩
  -- No order names another owner.
  refine hdriven.invariant (P := fun v => v.owner = deal.owner) rfl fun u order _ hu _ => ?_
  rw [← hu, DealView.obey]
  split <;> rfl

/-! ### Repairs -/

/-- The order completes the repair of the slot. -/
def DealOrder.Completes (i : Nat) (order : DealOrder) : Prop := order.act = .completeRepair i

instance (i : Nat) (order : DealOrder) : Decidable (order.Completes i) :=
  inferInstanceAs (Decidable (order.act = _))

/-- An order that the view lets through leaves a repair as it is, unless it completes it: a repair
cannot be started over, since a start asks for a slot that is not repairing. -/
theorem DealView.obey_repairing {v : DealView} {order : DealOrder} {i : Nat}
    {provider pending : Str}
    (hslot : v.slots[i]? = some (provider, some pending)) (hadmits : v.Admits order)
    (hne : ¬order.Completes i) : (v.obey order).slots[i]? = some (provider, some pending) := by
  obtain ⟨-, hadmits⟩ := hadmits
  unfold DealView.obey
  unfold DealOrder.Completes at hne
  cases hact : order.act with
  | commit root size => exact hslot
  | startRepair j pending' =>
      rw [hact] at hadmits
      obtain ⟨provider', hidle, -⟩ := hadmits
      -- The slot that the order names is idle, so it is another one.
      -- the slots are different, or the order completes the repair
      have hij : j ≠ i := by
        rintro rfl
        rw [hslot] at hidle
        cases hidle
      simp [hij, hslot]
  | completeRepair j =>
      have hij : j ≠ i := by
        rintro rfl
        exact hne hact
      simp [hij, hslot]

/-- The order that completes a repair puts the replacement into the slot. -/
theorem DealView.obey_completes {v : DealView} {order : DealOrder} {i : Nat}
    {provider pending : Str}
    (hslot : v.slots[i]? = some (provider, some pending)) (h : order.Completes i) :
    (v.obey order).slots[i]? = some (pending, none) := by
  rw [DealView.obey, h]
  simp [hslot]

/-- The slot map of the view is that of the deal. -/
theorem slot_of_view {deal : Deal} {i : Nat} {provider : Str} {pending : Option Str}
    (h : deal.view.slots[i]? = some (provider, pending)) :
    ∃ slot, deal.mode2Slots[i]? = some slot ∧ slot.provider = provider ∧
      (pending = none ↔ slot.status ≠ .repairing) ∧ ∀ p, pending = some p →
        slot.pendingProvider = p := by
  rw [Deal.view, List.getElem?_map, Option.map_eq_some_iff] at h
  obtain ⟨slot, hslot, heq⟩ := h
  obtain ⟨hprovider, hpending⟩ := Prod.mk.inj heq
  refine ⟨slot, hslot, hprovider, ?_, fun p hp => ?_⟩
  · rw [← hpending]
    split
    · rename_i hstatus
      simp [hstatus]
    · rename_i hstatus
      simp [hstatus]
  · rw [hp] at hpending
    split at hpending
    · exact Option.some.inj hpending
    · cases hpending

/-- A repair that has started ends in one way only. As long as the owner's completion is not among
the accepted orders the slot keeps its provider and its replacement, whatever else happens: the
repair is neither aborted nor redirected. The event that completes it puts the replacement that it
was started for into the slot, and the slot is no longer repairing. -/
theorem repair_outcome (env : Env β) (params : Params) (b : β) (past more : List Event) {d i : Nat}
    {deal : Deal} {slot : DealSlot}
    (hget : (run (apply env) (genesis params b) past).deals.get d = some deal)
    (hslot : deal.mode2Slots[i]? = some slot) (hstatus : slot.status = .repairing)
    (hnone : ∀ order ∈ trace (apply env) (fun s e => e.ordersFor env d s)
      (run (apply env) (genesis params b) past) more, ¬order.Completes i) :
    (∃ deal' slot', (run (apply env) (genesis params b) (past ++ more)).deals.get d = some deal' ∧
      deal'.mode2Slots[i]? = some slot' ∧ slot'.status = .repairing ∧
      slot'.provider = slot.provider ∧ slot'.pendingProvider = slot.pendingProvider) ∧
    ∀ e, ∀ order, e.ordersFor env d (run (apply env) (genesis params b) (past ++ more)) = [order] →
      order.Completes i → order.signer = deal.owner ∧
      ∃ deal' slot', (run (apply env) (genesis params b) (past ++ more ++ [e])).deals.get d =
          some deal' ∧
        deal'.mode2Slots[i]? = some slot' ∧ slot'.status ≠ .repairing ∧
        slot'.provider = slot.pendingProvider := by
  have hview : deal.view.slots[i]? = some (slot.provider, some slot.pendingProvider) := by
    rw [view_slot hslot, DealSlot.view, if_pos hstatus]
  obtain ⟨deal', hget', howner, hdriven⟩ := deal_follows_owner env params b past more hget
  -- No order before the completion touches the slot.
  have hview' : deal'.view.slots[i]? = some (slot.provider, some slot.pendingProvider) :=
    hdriven.invariant (P := fun v => v.slots[i]? = some (slot.provider, some slot.pendingProvider))
      hview fun u order hmem hu hadmits => DealView.obey_repairing hu hadmits (hnone order hmem)
  constructor
  · obtain ⟨slot', hslot', hprovider, hrepairing, hpending⟩ := slot_of_view hview'
    refine ⟨deal', slot', hget', hslot', ?_, hprovider, hpending _ rfl⟩
    by_contra hne
    exact absurd (hrepairing.mpr hne) (by simp)
  -- the completion is the one order of its event
  · intro e order horders hcompletes
    obtain ⟨deal'', hget'', -, hstep⟩ := deal_follows_owner env params b (past ++ more) [e] hget'
    rw [trace, trace, List.append_nil, horders] at hstep
    have hreached : deal''.view = deal'.view.obey order := hstep.reached
    have hadmits : deal'.view.Admits order := hstep.admitted [] order [] rfl
    refine ⟨hadmits.1.trans howner, ?_⟩
    have hview'' : deal''.view.slots[i]? = some (slot.pendingProvider, none) := by
      rw [hreached]
      exact DealView.obey_completes hview' hcompletes
    obtain ⟨slot'', hslot'', hprovider, hrepairing, -⟩ := slot_of_view hview''
    exact ⟨deal'', slot'', hget'', hslot'', hrepairing.mp rfl, hprovider⟩

/-! ### On a small chain -/

/-- A deal with two slots. -/
def twoSlotRun : List Event :=
  [.deliver (ctxAt 1) (registerMsg providerText), .deliver (ctxAt 1) (registerMsg otherText),
    .deliver (ctxAt 1) (createMsg 100 "General:rs=1+1")]

/-- Its owner commits content and has the first slot repaired; a stranger's orders are refused. -/
def orderRun : List Event :=
  [.deliver (ctxAt 2) (registerMsg ownerText), .deliver (ctxAt 2) commitMsg,
    .deliver (ctxAt 2) (.startSlotRepair ⟨otherText, 0, 0, otherText⟩),
    .deliver (ctxAt 2) (.startSlotRepair ⟨ownerText, 0, 0, ownerText⟩),
    .deliver (ctxAt 3) (.startSlotRepair ⟨ownerText, 0, 0, otherText⟩)]

/-- The deal of the small chain. -/
def twoSlotDeal (es : List Event) : Option Deal :=
  (run (apply (sampleEnv noKeccak [])) (genesis defaultParams sampleBank) es).deals.get 0

/-- The content and the first repair are the two orders that are accepted. -/
example :
    (trace (apply (sampleEnv noKeccak [])) (fun s e => e.ordersFor (sampleEnv noKeccak []) 0 s)
      (genesis defaultParams sampleBank) (twoSlotRun ++ orderRun)).map (·.act) =
      [.commit ((twoSlotDeal (twoSlotRun ++ orderRun)).elim [] (·.manifestRoot)) 1,
        .startRepair 0 ownerText] := by
  decide +kernel

/-- The sample deal of two slots, under orders of every kind. -/
theorem deal_follows_owner_orderRun :
    ∃ deal deal', twoSlotDeal twoSlotRun = some deal ∧
      twoSlotDeal (twoSlotRun ++ orderRun) = some deal' ∧
      Driven DealView.obey DealView.Admits deal.view
        (trace (apply (sampleEnv noKeccak [])) (fun s e => e.ordersFor (sampleEnv noKeccak []) 0 s)
          (run (apply (sampleEnv noKeccak [])) (genesis defaultParams sampleBank) twoSlotRun)
          orderRun) deal'.view := by
  have hsome : (twoSlotDeal twoSlotRun).isSome = true := by decide +kernel
  obtain ⟨deal, hget⟩ := Option.isSome_iff_exists.mp hsome
  obtain ⟨deal', hget', -, hdriven⟩ := deal_follows_owner (sampleEnv noKeccak []) defaultParams
    sampleBank twoSlotRun orderRun hget
  exact ⟨deal, deal', hget, hget', hdriven⟩

/-- The owner of the small chain cannot name another replacement, and completes the repair with the
first one. -/
theorem repair_outcome_orderRun :
    ∃ deal' slot', twoSlotDeal (twoSlotRun ++ orderRun ++
        [.deliver (ctxAt 4) (.completeSlotRepair ⟨ownerText, 0, 0⟩)]) = some deal' ∧
      deal'.mode2Slots[0]? = some slot' ∧ slot'.status ≠ .repairing ∧
        slot'.provider = ownerText := by
  -- slot 0 is repairing, evaluated
  have hshape : (twoSlotDeal (twoSlotRun ++ orderRun)).map (fun deal =>
      deal.mode2Slots[0]?.map fun slot => (slot.status, slot.pendingProvider)) =
        some (some (.repairing, ownerText)) := by decide +kernel
  obtain ⟨deal, hget, hmap⟩ := Option.map_eq_some_iff.mp hshape
  obtain ⟨slot, hslot, heq⟩ := Option.map_eq_some_iff.mp hmap
  obtain ⟨hstatus, hpending⟩ := Prod.mk.inj heq
  have horders : Event.ordersFor (sampleEnv noKeccak []) 0
      (run (apply (sampleEnv noKeccak [])) (genesis defaultParams sampleBank)
        (twoSlotRun ++ orderRun ++ []))
      (.deliver (ctxAt 4) (.completeSlotRepair ⟨ownerText, 0, 0⟩)) =
        [⟨0, ownerText, .completeRepair 0⟩] := by
    decide +kernel
  obtain ⟨-, deal', slot', hget', hslot', hdone, hprovider⟩ :=
    (repair_outcome (sampleEnv noKeccak []) defaultParams sampleBank
      (twoSlotRun ++ orderRun) [] hget hslot
      hstatus (by simp [trace])).2 _ _ horders rfl
  rw [List.append_nil] at hget'
  exact ⟨deal', slot', hget', hslot', hdone, hprovider.trans hpending⟩

end NilStore.Chain
