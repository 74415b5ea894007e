import NilStore.Chain.Precompile
import NilStore.Chain.Slashing
import NilStore.Chain.SlotRepair
import NilStore.Lib.Runs

/-!
# `NilStore.Chain.Run`: the module as a machine

What happens to the module, one event after the other: a message is delivered, a block ends,
a contract calls the precompile. A delivered message is a transaction, so its writes are
dropped when it fails. A call of the precompile is not: it keeps what it wrote.
-/

set_option autoImplicit false

namespace NilStore.Chain

open NilStore.Lib

variable {β : Type}

/-- Run a handler for its effect. Its answer is not used by the state. -/
def discard {α : Type} (x : Handler β α) : Handler β Unit := do
  let _ ← x
  return ()

/-- Dropping the answer of a handler changes neither when it succeeds nor what it writes. -/
theorem discard_ok {α : Type} {x : Handler β α} {s s' : KeeperState β} {u : Unit} :
    (discard x).exec s = (.ok u, s') ↔ ∃ a, x.exec s = (.ok a, s') := by
  rw [discard, Tx.exec_bind_ok]
  constructor
  · rintro ⟨a, s₁, hx, hs⟩
    cases hs
    exact ⟨a, hx⟩
  · rintro ⟨a, hx⟩
    exact ⟨a, s', hx, rfl⟩

/-- The message server. Each message goes to the handler of its name. -/
def handle (env : Env β) (ctx : Ctx) : Msg → Handler β Unit
  | .updateParams msg => updateParams env msg
  | .registerProvider msg => registerProvider env msg
  | .createDeal msg => discard (createDeal env ctx msg)
  | .updateDealContent msg => updateDealContent env ctx msg
  | .createDealFromEvm msg => discard (createDealFromEvm env ctx msg)
  | .updateDealContentFromEvm msg => updateDealContentFromEvm env ctx msg
  | .openRetrievalSession msg => discard (openRetrievalSession env ctx msg)
  | .confirmRetrievalSession msg => confirmRetrievalSession env ctx msg
  | .cancelRetrievalSession msg => cancelRetrievalSession ctx msg
  | .submitRetrievalSessionProof msg => submitRetrievalSessionProof env ctx msg
  | .proveLiveness msg => discard (proveLiveness env ctx msg)
  | .signalSaturation msg => discard (signalSaturation env ctx msg)
  | .startSlotRepair msg => startSlotRepair ctx msg
  | .completeSlotRepair msg => completeSlotRepair ctx msg
  | .addCredit msg => discard (addCredit env ctx msg)
  | .withdrawRewards msg => discard (withdrawRewards env ctx msg)

/-- One event of the module's life. A message, the end of a block, or a call of the precompile from
the EVM. -/
inductive Event where
  | deliver (ctx : Ctx) (msg : Msg)
  | endBlock (ctx : Ctx)
  | call (ctx : Ctx) (input : Precompile.Input)

/-- The context in which an event happens. It has the height of its block. -/
def Event.ctx : Event → Ctx
  | .deliver ctx _ => ctx
  | .endBlock ctx => ctx
  | .call ctx _ => ctx

/-- The state after an event. A message that fails is rolled back, and a call of the precompile that
fails is not. -/
def apply (env : Env β) (s : KeeperState β) : Event → KeeperState β
  | .deliver ctx msg => (handle env ctx msg).commitOrRollback s
  | .endBlock ctx => (checkMissedProofs env ctx s).1
  | .call ctx input => ((Precompile.run env ctx input).exec s).2

/-- The charges of an event: a message and a call make none. They are listed in the order in which
they are made. -/
def Event.charges (env : Env β) (s : KeeperState β) : Event → List Charge
  | .endBlock ctx => (checkMissedProofs env ctx s).2
  | _ => []

/-! ### Blocks -/

/-- Whether an event closes a block. A run is in blocks when its contexts only move on there. -/
def Event.isEndBlock : Event → Bool
  | .endBlock _ => true
  | _ => false

/-- The height of the block that is open after the events, when the first one has height
`h₀`. -/
def openHeight (h₀ : Nat) (past : List Event) : Nat := h₀ + past.countP Event.isEndBlock

/-- The events come in blocks: consecutive heights from `h₀` on, and one `endBlock` at the end
of each. -/
def Blocks (h₀ : Nat) (es : List Event) : Prop :=
  Along (fun past e => e.ctx.blockHeight = openHeight h₀ past) es

instance (h₀ : Nat) (es : List Event) : Decidable (Blocks h₀ es) :=
  inferInstanceAs (Decidable (Along _ es))

/-- `InitGenesis`: the params, and nothing else. Every run starts here. -/
def genesis (params : Params) (bank : β) : KeeperState β :=
  { KeeperState.empty bank with params := some params }

/-- A delivered message leaves the state as it was, or does what its handler does when it
succeeds. -/
theorem deliver_cases (env : Env β) (ctx : Ctx) (msg : Msg) (s : KeeperState β) :
    apply env s (.deliver ctx msg) = s ∨
      (handle env ctx msg).exec s = (.ok (), apply env s (.deliver ctx msg)) := by
  rw [apply]
  cases h : (handle env ctx msg).exec s with
  | mk r s' =>
      cases r with
      | ok a => exact Or.inr (by rw [Tx.commitOrRollback_of_ok h])
      | error e => exact Or.inl (Tx.commitOrRollback_of_error h)

end NilStore.Chain
