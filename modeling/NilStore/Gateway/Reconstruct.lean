import Mathlib.Logic.Function.Basic
import NilStore.Chain.Stripe
import NilStore.Core.Coding
import NilStore.Lib.Quota

/-!
# `NilStore.Gateway.Reconstruct`: an MDU from its shards

`ensureMode2MduOnDisk` of `nil_gateway/mode2_reconstruct.go` makes `mdu_<index>.bin` for one MDU of
a Mode 2 slab. It takes the shards that are in the deal's directory, and asks the providers for
others until it has `K`: every slot once, and then those once more that gave nothing. What a
provider sends is taken if it has the right size, and is stored as the shard of the slot.

The providers are a function that says what the answer to `/sp/shard` is, in the first pass and in
the second. `ReconstructMduRs` hands the shards to `nil_core` in one flat buffer, which is taken
apart again there; here they stay apart. Errors of the disk are left out.
-/

set_option autoImplicit false

namespace NilStore.Gateway

open NilStore.Lib NilStore.Core NilStore.Chain

/-! ### Answers -/

/-- The answer to a request for a shard. -/
structure ShardResponse where
  statusCode : Nat
  body : Bytes

/-- `fetchShardFromProvider`, also for a provider that has no URL or does not answer. -/
def fetchShardFromProvider : Option ShardResponse → Except String Bytes
  | none => .error "no answer"
  | some resp => if resp.statusCode ≠ 200 then .error "shard fetch failed" else .ok resp.body

/-! ### `ReconstructMduRs` -/

/-- `crypto_ffi.ReconstructMduRs`, and `nil_reconstruct_mdu_rs`. A shard is `none` where it is not
present. -/
def cryptoFfiReconstructMduRs (rs : ReedSolomon) (shards : List (Option Bytes)) (k m : UInt64) :
    Except String Bytes := do
  rejectIf (k = 0 ∨ m = 0) "invalid RS params"
  rejectIf (64 % k ≠ 0) "invalid RS params: k must divide 64"
  rejectIf (shards.length ≠ (k + m).toNat) "invalid shard arrays"
  let expectedShardLen := (64 / k).toNat * blobSize
  rejectIf (∃ shard ∈ shards.filterMap id, shard.length ≠ expectedShardLen) "invalid shard length"
  let mdu ← (reconstructMduFromShards rs shards k.toNat m.toNat).mapError fun _ =>
    "nil_reconstruct_mdu_rs failed with code: -3"
  rejectIf (mdu.length ≠ mduSize) "nil_reconstruct_mdu_rs failed with code: -3"
  return mdu

/-! ### Shards -/

/-- The shards that are loaded, and the files `mdu_<index>_slot_<slot>.bin`. -/
structure ShardLoad where
  shards : Nat → Option Bytes
  presentCount : Nat
  slotFiles : Nat → Option Bytes

/-- A shard is present. It is counted only once. -/
def ShardLoad.setPresent (load : ShardLoad) (slot : Nat) (shard : Bytes) : ShardLoad where
  shards := Function.update load.shards slot (some shard)
  presentCount := if (load.shards slot).isSome then load.presentCount else load.presentCount + 1
  slotFiles := load.slotFiles

/-- The part of `tryLoadSlot` that asks the provider. A shard of the wrong size counts as none. -/
def ShardLoad.fetchSlot (expectedShardSize : Nat) (answer : Nat → Option ShardResponse)
    (load : ShardLoad) (slot : Nat) : ShardLoad :=
  match fetchShardFromProvider (answer slot) with
  | .error _ => load
  | .ok shard =>
      if shard.length ≠ expectedShardSize then load
      else { load.setPresent slot shard with
        slotFiles := Function.update load.slotFiles slot (some shard) }

/-- `tryLoadSlot`. A slot file of the wrong size is fetched again, and overwritten by what comes. -/
def ShardLoad.tryLoadSlot (expectedShardSize : Nat) (answer : Nat → Option ShardResponse)
    (load : ShardLoad) (slot : Nat) : ShardLoad :=
  match load.slotFiles slot with
  | some shard =>
      if shard.length = expectedShardSize then load.setPresent slot shard
      else load.fetchSlot expectedShardSize answer slot
  | none => load.fetchSlot expectedShardSize answer slot

/-- There are enough shards. -/
def ShardLoad.isFull (k : UInt64) (load : ShardLoad) : Bool := decide (¬load.presentCount < k.toNat)

/-- The two passes over the slots. Both stop as soon as there are enough shards, and the second
leaves out the slots that are present. -/
def loadShards (stripe : StripeParams) (answer : Nat → Nat → Option ShardResponse)
    (slotFiles : Nat → Option Bytes) : ShardLoad :=
  let expectedShardSize := (stripe.rows * UInt64.ofNat blobSize).toNat
  let slots := List.range stripe.slotCount.toNat
  let load :=
    fillTo (ShardLoad.isFull stripe.k) (ShardLoad.tryLoadSlot expectedShardSize (answer 0))
      ⟨fun _ => none, 0, slotFiles⟩ slots
  if load.presentCount < stripe.k.toNat then
    fillTo (ShardLoad.isFull stripe.k) (fun load slot =>
      if (load.shards slot).isSome then load
      else load.tryLoadSlot expectedShardSize (answer 1) slot) load slots
  else load

/-! ### `ensureMode2MduOnDisk` -/

/-- The files of one MDU in the deal's directory: `mdu_<index>.bin`, and the shards. -/
structure MduFiles where
  mdu : Option Bytes
  slotFiles : Nat → Option Bytes

/-- `ensureMode2MduOnDisk`: whether it returns the path, and the files that it leaves. Fetched
shards stay on the disk also when there are too few of them. -/
def ensureMode2MduOnDisk (rs : ReedSolomon) (stripe : StripeParams)
    (providers : Except String (List Str))
    (answer : Nat → Nat → Option ShardResponse) (files : MduFiles) :
      Except String Unit × MduFiles :=
  if files.mdu.isSome then (.ok (), files)
  else if stripe.mode ≠ 2 then (.error "file does not exist", files)
  else if stripe.k = 0 ∨ stripe.rows = 0 then (.error "invalid stripe params", files)
  else match providers with
    | .error e => (.error e, files)
    | .ok providers =>
        if stripe.slotCount = 0 then (.error "invalid stripe params", files)
        else if providers.length < stripe.slotCount.toNat then
          (.error "not enough providers for Mode 2", files)
        else
          -- a shard is taken from its file, or asked for
          let load := loadShards stripe answer files.slotFiles
          let files := { files with slotFiles := load.slotFiles }
          if load.presentCount < stripe.k.toNat then
            (.error "not enough shards available for reconstruction", files)
          else match cryptoFfiReconstructMduRs rs
              ((List.range stripe.slotCount.toNat).map load.shards) stripe.k stripe.m with
            | .error e => (.error e, files)
            | .ok mdu => (.ok (), { files with mdu := some mdu })

end NilStore.Gateway
