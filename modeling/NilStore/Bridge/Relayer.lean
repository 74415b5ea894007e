import NilStore.Bridge.NilBridge
import NilStore.Lib.GoString

/-!
# `NilStore.Bridge.Relayer`: relayers that carry checkpoints to the contract

The loop of `nil_relayer/main.go`, and the world in which it runs. A relayer asks a node of the
chain for the last block and sends its application hash to the contract. Its one variable, the last
height it has sent, is lost when the process restarts. Several relayers share the key of one
account.

Transactions wait in a pool. They are executed in any order, and some are dropped. A relayer that
gets an error from the node of the contract's chain cannot tell whether its transaction has reached
the pool.
-/

set_option autoImplicit false

namespace NilStore.Bridge

open NilStore.Lib

/-- The fields of `BlockResponse`. -/
structure BlockResponse where
  height : Str
  appHash : Str
deriving DecidableEq

/-- `SkipSpace` of the package `fmt`, which takes no line break for a space. -/
def skipSpace : Str → Option Str
  | [] => some []
  | c :: rest => if c = '\n' then none else if isSpace c then skipSpace rest else some (c :: rest)

/-- The `int64` with this sign and size, if there is one. -/
def toInt64 (negative : Bool) (n : Nat) : Option Int :=
  if negative then if n ≤ 2 ^ 63 then some (-(n : Int)) else none
  else if n < 2 ^ 63 then some n else none

/-- `fmt.Sscanf(h, "%d", &height)`: a sign and digits of an `int64`, whatever follows. -/
def sscanInt64 (h : Str) : Option Int := do
  let token ← skipSpace h
  let (negative, digits) :=
    match token with
    | '-' :: digits => (true, digits)
    | '+' :: digits => (false, digits)
    | digits => (false, digits)
  let n ← parseUint (digits.takeWhile fun c => (digitVal c).isSome)
  toInt64 negative n.toNat

/-- `fetchL1State`. The result of `Sscanf` is not looked at, so a height that cannot be read is
zero. -/
def fetchL1State (resp : Except String BlockResponse) : Except String (Int × Str) := do
  let res ← resp
  .ok ((sscanInt64 res.height).getD 0, res.appHash)

/-- `copy(root[:], appHashBytes)` into 32 zero bytes. -/
def copyRoot (appHashBytes : Bytes) : Bytes32 :=
  toWord (ofBeBytes ((appHashBytes ++ List.replicate 32 0).take 32))

/-- `big.NewInt(height)`, packed as a `uint256`. -/
def packHeight (height : Int) : Uint256 := toWord (height % 2 ^ 256).toNat

/-- What the node of the contract's chain does with a transaction: it does not take it, it takes it
and its answer gets lost, or it takes it and says so. -/
inductive Sending where
  | refused
  | unanswered
  | accepted
deriving DecidableEq

/-- `updateL2`: what has reached the pool, and whether the call came back without an error. -/
def updateL2 (height : Int) (appHash : Str) (sending : Sending) : Option StateRootUpdated × Bool :=
  match hexDecode appHash with
  | none => (none, false)
  | some appHashBytes =>
      let update : StateRootUpdated := ⟨packHeight height, copyRoot appHashBytes⟩
      match sending with
      | .refused => (none, false)
      | .unanswered => (some update, false)
      | .accepted => (some update, true)

/-- One round of the loop of `main`: what has reached the pool, and `lastHeight` after it. -/
def tick (lastHeight : Int) (resp : Except String BlockResponse) (sending : Sending) :
    Option StateRootUpdated × Int :=
  match fetchL1State resp with
  | .error _ => (none, lastHeight)
  | .ok (height, appHash) =>
      if height ≤ lastHeight then (none, lastHeight)
      else
        let (sent, ok) := updateL2 height appHash sending
        (sent, if ok then height else lastHeight)

/-- A call of `updateStateRoot` that waits in the pool. -/
structure UpdateTx where
  sender : Address
  update : StateRootUpdated
deriving DecidableEq

/-- The contract with the events that it has emitted, the pool, and `lastHeight` of each relayer. -/
structure World where
  bridge : NilBridge
  logs : List StateRootUpdated
  pool : List UpdateTx
  lastHeight : Nat → Int

/-- What happens in the world. -/
inductive Event where
  | tick (relayer : Nat) (resp : Except String BlockResponse) (sending : Sending)
  | restart (relayer : Nat)
  /-- Somebody else sends a transaction. -/
  | submit (tx : UpdateTx)
  /-- The transaction at this place of the pool gets into a block. -/
  | execute (i : Nat)
  | drop (i : Nat)

/-- Execute a transaction. One that reverts changes nothing. -/
def World.call (w : World) (tx : UpdateTx) : World :=
  match w.bridge.updateStateRoot tx.sender tx.update.blockHeight tx.update.stateRoot with
  | .ok (bridge, log) => { w with bridge := bridge, logs := w.logs ++ [log] }
  | .error _ => w

/-- Execute the transaction at this place of the pool. -/
def World.execute (w : World) (i : Nat) : World :=
  match w.pool[i]? with
  | none => w
  | some tx => { w.call tx with pool := w.pool.eraseIdx i }

/-- One step of the world; the relayers send from the account `key`. -/
def World.step (key : Address) (w : World) : Event → World
  | .tick relayer resp sending =>
      let (sent, last) := Bridge.tick (w.lastHeight relayer) resp sending
      { w with
        pool := w.pool ++ (sent.map (UpdateTx.mk key)).toList
        lastHeight := fun r => if r = relayer then last else w.lastHeight r }
  | .restart relayer =>
      { w with lastHeight := fun r => if r = relayer then 0 else w.lastHeight r }
  | .submit tx => { w with pool := w.pool ++ [tx] }
  | .execute i => w.execute i
  | .drop i => { w with pool := w.pool.eraseIdx i }

end NilStore.Bridge
