import NilStore.Chain.Run

/-!
# `NilStore.Chain.Genesis`: exporting and importing the module

`keeper/genesis.go` and `types/genesis.go`. The genesis state has the params, and no other
collection of the keeper. A fresh keeper is one whose collections are empty; the bank is a module of
its own and comes through a restart by itself.
-/

set_option autoImplicit false

namespace NilStore.Chain

open NilStore.Lib

variable {β : Type}

/-- `GenesisState`. The params are all that it has; the collections of the keeper are not part of
it. -/
structure GenesisState where
  params : Params
deriving DecidableEq

/-- `DefaultGenesis`. Its params are the default ones. -/
def defaultGenesis : GenesisState where
  params := defaultParams

/-- `InitGenesis`. It stores the params and touches nothing else. -/
def initGenesis (genState : GenesisState) : Handler β Unit :=
  Tx.update fun s => { s with params := some genState.params }

/-- `ExportGenesis`. Whatever is stored besides the params is left behind. -/
def exportGenesis : Handler β GenesisState := do
  let params ← Tx.reads fun s => orFail s.params (errorf "collections: not found")
  return { defaultGenesis with params := params }

/-- A restart of the chain: what the keeper exports initialises a fresh keeper. The bank is another
module and keeps its state. -/
def restart (s : KeeperState β) : Except Fault (KeeperState β) :=
  match (exportGenesis.exec s).1 with
  | .ok genState => .ok ((initGenesis genState).exec (KeeperState.empty s.bank)).2
  | .error e => .error e

/-- A restart keeps the params, and drops the rest. -/
theorem restart_eq {s : KeeperState β} {params : Params} (h : s.params = some params) :
    restart s = .ok (genesis params s.bank) := by
  have hexport : exportGenesis.exec s = (.ok ⟨params⟩, s) := by
    rw [exportGenesis, Tx.exec_reads_bind_ok]
    exact ⟨params, by rw [h]; rfl, rfl⟩
  rw [restart, hexport]
  rfl

end NilStore.Chain
