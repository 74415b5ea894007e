import Mathlib.Order.Fin.Basic
import NilStore.Lib.Bytes
import NilStore.Lib.Tx

/-!
# `NilStore.Bridge.NilBridge`: the checkpoint contract

The contract of `nil_bridge/src/NilBridge.sol`. It keeps the last state root of the chain that its
owner has reported, and checks Merkle proofs against that root. Words of the EVM are numbers below
`2 ^ 256`, and `bytes32` values are compared as such. `keccak256` is a parameter.
-/

set_option autoImplicit false

namespace NilStore.Bridge

open NilStore.Lib

/-- `uint256`. -/
abbrev Uint256 := Fin (2 ^ 256)

/-- `bytes32`: the number that the bytes write. -/
abbrev Bytes32 := Fin (2 ^ 256)

/-- The modulus of the contract's 256-bit words is positive, which every `%` on a `uint256` below
needs. -/
theorem wordSize_pos : 0 < 2 ^ 256 := Nat.two_pow_pos 256

/-- The last 256 bits of a number. -/
def toWord (n : Nat) : Fin (2 ^ 256) := ⟨n % 2 ^ 256, Nat.mod_lt n wordSize_pos⟩

/-- `address`. -/
abbrev Address := Fin (2 ^ 160)

/-- `abi.encodePacked` of two words. -/
def encodePacked (a b : Bytes32) : Bytes := beBytes 32 a.val ++ beBytes 32 b.val

/-- The event of an update. -/
structure StateRootUpdated where
  blockHeight : Uint256
  stateRoot : Bytes32
deriving DecidableEq

/-- The storage of the contract. -/
structure NilBridge where
  latestStateRoot : Bytes32
  latestBlockHeight : Uint256
  owner : Address
deriving DecidableEq

namespace NilBridge

/-- `onlyOwner`. -/
def onlyOwner (bridge : NilBridge) (msgSender : Address) : Except String Unit :=
  rejectIf (msgSender ≠ bridge.owner) "Not authorized"

/-- `updateStateRoot`, with the event that it emits. -/
def updateStateRoot (bridge : NilBridge) (msgSender : Address) (blockHeight : Uint256)
    (stateRoot : Bytes32) : Except String (NilBridge × StateRootUpdated) := do
  bridge.onlyOwner msgSender
  rejectIf (¬blockHeight > bridge.latestBlockHeight) "Block height must increase"
  .ok ({ bridge with latestStateRoot := stateRoot, latestBlockHeight := blockHeight },
    ⟨blockHeight, stateRoot⟩)

/-- `verifyInclusion`. -/
def verifyInclusion (keccak256 : Bytes → Bytes32) (bridge : NilBridge) (leaf : Bytes32)
    (proof : List Bytes32) : Bool :=
  let computedHash := proof.foldl (fun computedHash proofElement =>
    if computedHash ≤ proofElement then keccak256 (encodePacked computedHash proofElement)
    else keccak256 (encodePacked proofElement computedHash)) leaf
  computedHash == bridge.latestStateRoot

/-- An update goes through for the owner, at a greater height. -/
theorem updateStateRoot_ok {bridge : NilBridge} {msgSender : Address} {blockHeight : Uint256}
    {stateRoot : Bytes32} {r : NilBridge × StateRootUpdated} :
    bridge.updateStateRoot msgSender blockHeight stateRoot = .ok r ↔
      msgSender = bridge.owner ∧ bridge.latestBlockHeight < blockHeight ∧
        r = (⟨stateRoot, blockHeight, bridge.owner⟩, ⟨blockHeight, stateRoot⟩) := by
  constructor
  · intro h
    obtain ⟨_, howner, h⟩ := except_bind_ok.mp h
    obtain ⟨_, hheight, h⟩ := except_bind_ok.mp h
    have hsender : msgSender = bridge.owner := not_not.mp (rejectIf_eq_ok.mp howner)
    have hlt : bridge.latestBlockHeight < blockHeight := not_not.mp (rejectIf_eq_ok.mp hheight)
    exact ⟨hsender, hlt, (Except.ok.inj h).symm⟩
  · rintro ⟨hsender, hlt, rfl⟩
    refine except_bind_ok.mpr ⟨(), rejectIf_eq_ok.mpr (not_not.mpr hsender), ?_⟩
    exact except_bind_ok.mpr ⟨(), rejectIf_eq_ok.mpr (not_not.mpr hlt), rfl⟩

end NilBridge

end NilStore.Bridge
