import NilStore.Chain.Keeper
import NilStore.Chain.Stripe

/-!
# `NilStore.Chain.SlotRepair`: replacing the provider of a slot

`keeper/msg_slot_repair.go`. A repair has two steps, both taken by the deal's owner:
`StartSlotRepair` names the replacement and marks the slot as repairing, `CompleteSlotRepair`
puts the replacement into the slot and into the list of providers. Both begin with the same
checks, `repairableSlot`.
-/

set_option autoImplicit false

namespace NilStore.Chain

open NilStore.Lib

variable {β : Type}

/-- The deal and the slot that a repair message names, after the checks that both handlers
make. -/
def repairableSlot (dealId : UInt64) (creator : Str) (slot : UInt32) (action : String)
    (deals : KVStore Nat Deal) : Except Fault (Deal × DealSlot) := do
  let deal ← orFail (deals.get dealId.toNat)
    (errNotFound ("deal " ++ toString dealId ++ " not found"))
  rejectIf (deal.owner ≠ creator)
    (errUnauthorized ("only deal owner can " ++ action ++ " slot repair"))
  rejectIf (deal.redundancyMode ≠ 2)
    (errInvalidRequest "slot repair is only supported for Mode 2 deals")
  rejectIf (deal.mode2Profile = none ∨ deal.mode2Slots = [])
    (errInvalidRequest "mode2 slot map is not initialized")
  let found ← orFail deal.mode2Slots[slot.toNat]?
    (errInvalidRequest ("invalid slot " ++ toString slot))
  return (deal, found)

/-- The checks both repair messages share: the deal is the sender's, it is in Mode 2 and it has the
slot. -/
theorem repairableSlot_ok {dealId : UInt64} {creator : Str} {slot : UInt32} {action : String}
    {deals : KVStore Nat Deal} {found : Deal × DealSlot}
    (h : repairableSlot dealId creator slot action deals = .ok found) :
    deals.get dealId.toNat = some found.1 ∧ found.1.owner = creator ∧
      found.1.redundancyMode = 2 ∧ found.1.mode2Slots[slot.toNat]? = some found.2 := by
  simp only [repairableSlot, except_bind_ok, orFail_eq_ok, rejectIf_eq_ok, not_not] at h
  obtain ⟨deal, hget, _, howner, _, hmode, _, -, sl, hslot, hfound⟩ := h
  cases hfound
  exact ⟨hget, howner, hmode, hslot⟩

/-- The slot while it is repaired. Its provider stays until the repair is completed. -/
def startRepair (ctx : Ctx) (deal : Deal) (slot : DealSlot) (pending : Str) : DealSlot :=
  { slot with
    status := .repairing
    pendingProvider := pending
    statusSinceHeight := ctx.blockHeight
    repairTargetGen := deal.currentGen }

/-- `StartSlotRepair`. The replacement must be registered, but it may have another slot of the deal
already. -/
def startSlotRepair (ctx : Ctx) (msg : MsgStartSlotRepair) : Handler β Unit := do
  let found ← Tx.reads fun s => repairableSlot msg.dealId msg.creator msg.slot "start" s.deals
  Tx.failIf (found.2.status = .repairing)
    (errInvalidRequest ("slot " ++ toString msg.slot ++ " is already repairing"))
  let pending := trimSpace msg.pendingProvider
  Tx.failIf (pending = []) (errInvalidRequest "pending_provider is required")
  Tx.failIf (trimSpace found.2.provider = pending)
    (errInvalidRequest "pending_provider must differ from current provider")
  let registered ← Tx.gets fun s => (s.providers.get pending).isSome
  Tx.failIf (¬registered)
    (errNotFound ("pending provider \"" ++ fmtS pending ++ "\" not registered"))
  let slot' := startRepair ctx found.1 found.2 pending
  let deal' := { found.1 with mode2Slots := found.1.mode2Slots.set msg.slot.toNat slot' }
  Tx.update fun s => { s with deals := s.deals.set deal'.id deal' }

/-- What an accepted `StartSlotRepair` did: the owner named a registered provider, other than the
one of the slot, for a slot that was not repairing, and the slot now waits for it. -/
theorem startSlotRepair_ok {ctx : Ctx} {msg : MsgStartSlotRepair} {s s' : KeeperState β} {u : Unit}
    (h : (startSlotRepair ctx msg).exec s = (.ok u, s')) :
    ∃ deal slot pending, s.deals.get msg.dealId.toNat = some deal ∧ deal.owner = msg.creator ∧
      deal.redundancyMode = 2 ∧ deal.mode2Slots[msg.slot.toNat]? = some slot ∧
      slot.status ≠ .repairing ∧ (s.providers.get pending).isSome ∧
      pending = trimSpace msg.pendingProvider ∧ trimSpace slot.provider ≠ pending ∧
      s' = { s with
        deals := s.deals.set deal.id
          { deal with
            mode2Slots := deal.mode2Slots.set msg.slot.toNat
              (startRepair ctx deal slot pending) } } := by
  simp only [startSlotRepair, Tx.exec_reads_bind_ok, Tx.exec_failIf_bind_ok, Tx.exec_gets_bind,
    Tx.exec_update, Prod.mk.injEq, not_not] at h
  obtain ⟨⟨deal, slot⟩, hfound, hstatus, -, hne, hreg, -, hs'⟩ := h
  obtain ⟨hget, howner, hmode, hslot⟩ := repairableSlot_ok hfound
  exact ⟨deal, slot, _, hget, howner, hmode, hslot, hstatus, hreg, rfl, hne, hs'.symm⟩

/-- The slot after its repair. The replacement is its provider, and it is active again. -/
def completeRepair (ctx : Ctx) (slot : DealSlot) : DealSlot :=
  { slot with
    provider := slot.pendingProvider
    pendingProvider := []
    status := .active
    statusSinceHeight := ctx.blockHeight
    repairTargetGen := 0 }

/-- The deal after the repair of a slot: the slot map and the list of providers get the
replacement, the list only where it reaches. -/
def completeSlot (ctx : Ctx) (deal : Deal) (i : Nat) (slot : DealSlot) : Deal :=
  { deal with
    mode2Slots := deal.mode2Slots.set i (completeRepair ctx slot)
    providers := deal.providers.set i slot.pendingProvider }

/-- `CompleteSlotRepair`. It takes no proof that the replacement has the data. -/
def completeSlotRepair (ctx : Ctx) (msg : MsgCompleteSlotRepair) : Handler β Unit := do
  let found ← Tx.reads fun s => repairableSlot msg.dealId msg.creator msg.slot "complete" s.deals
  Tx.failIf (found.2.status ≠ .repairing ∨ trimSpace found.2.pendingProvider = [])
    (errInvalidRequest ("slot " ++ toString msg.slot ++ " has no pending repair"))
  let deal' := completeSlot ctx found.1 msg.slot.toNat found.2
  Tx.update fun s => { s with deals := s.deals.set deal'.id deal' }

/-- The checks of a completion: the owner of a Mode 2 deal names a slot that is repairing. A
replacement is named in the slot. -/
structure RepairPending (msg : MsgCompleteSlotRepair) (deals : KVStore Nat Deal) (deal : Deal)
    (slot : DealSlot) : Prop where
  get : deals.get msg.dealId.toNat = some deal
  owner : deal.owner = msg.creator
  mode : deal.redundancyMode = 2
  found : deal.mode2Slots[msg.slot.toNat]? = some slot
  status : slot.status = .repairing

/-- What an accepted `CompleteSlotRepair` did: the owner named a slot under repair, and its
replacement now serves it. -/
theorem completeSlotRepair_ok {ctx : Ctx} {msg : MsgCompleteSlotRepair} {s s' : KeeperState β}
    {u : Unit} (h : (completeSlotRepair ctx msg).exec s = (.ok u, s')) :
    ∃ deal slot, RepairPending msg s.deals deal slot ∧
      s' = { s with deals := s.deals.set deal.id (completeSlot ctx deal msg.slot.toNat slot) } := by
  simp only [completeSlotRepair, Tx.exec_reads_bind_ok, Tx.exec_failIf_bind_ok, Tx.exec_update,
    Prod.mk.injEq, not_or, not_not] at h
  obtain ⟨⟨deal, slot⟩, hfound, ⟨hstatus, -⟩, -, hs'⟩ := h
  obtain ⟨hget, howner, hmode, hslot⟩ := repairableSlot_ok hfound
  exact ⟨deal, slot, ⟨hget, howner, hmode, hslot, hstatus⟩, hs'.symm⟩

end NilStore.Chain
