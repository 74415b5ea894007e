import NilStore.Core.Kzg
import NilStore.Core.Payload
import NilStore.Lib.LinearCode
import NilStore.Lib.Tx

/-!
# `NilStore.Core.Coding`: erasure coding of an MDU

`nil_core/src/coding.rs`. The 64 blobs of an MDU are arranged in rows of `K`. Each row is extended
by `M` parity blobs, and the blobs of one column make a shard. The shards are written to buffers of
their own, or to one flat buffer, together with the commitments of their blobs. Reconstruction puts
the blobs of the data shards back in the order of the rows.

The `reed-solomon-erasure` crate is a parameter, `ReedSolomon`; `ErasureCode` is what its
documentation promises.
-/

set_option autoImplicit false

namespace NilStore.Core

open NilStore.Lib

/-- `BLOBS_PER_MDU`. -/
def blobsPerMdu : Nat := 64

/-- `CodingError`. An error of the commitments is passed on inside of it. -/
inductive CodingError where
  | rs (text : String)
  | kzg (error : KzgError)
  | invalidRsParams
  | invalidSize
deriving DecidableEq

/-- `reed_solomon_erasure::galois_8::ReedSolomon`: each function takes the numbers of data and
parity shards that the code was built with. -/
structure ReedSolomon where
  new : (dataShards parityShards : Nat) → Except String Unit
  encode : (dataShards parityShards : Nat) → List Bytes → Except String (List Bytes)
  reconstruct : (dataShards parityShards : Nat) → List (Option Bytes) →
    Except String (List (Option Bytes))

/-- The code that the crate promises for some numbers of shards. Encoding keeps the data shards and
computes the others, and reconstruction returns every codeword of which enough shards remain. -/
structure ErasureCode (rs : ReedSolomon) (k m : Nat) (coeff : Nat → Nat → UInt8) : Prop where
  new_ok : rs.new k m = .ok ()
  encode_ok : ∀ (n : Nat) (row : List Bytes), 0 < n → row.length = k + m →
    (∀ shard ∈ row, shard.length = n) → ∃ shards, rs.encode k m row = .ok shards ∧
      shards.take k = row.take k ∧ Codeword coeff k m n shards
  reconstruct_ok : ∀ (n : Nat) (shards : List Bytes) (remaining : List (Option Bytes)), 0 < n →
    Codeword coeff k m n shards → Erased shards remaining → remaining.countP (·.isNone) ≤ m →
    rs.reconstruct k m remaining = .ok (shards.map some)

/-- `ExpandedMdu`: the commitments of all blobs slot by slot, and one shard for each slot. -/
structure ExpandedMdu where
  witness : List Bytes
  shards : List Bytes
deriving DecidableEq

/-- The shards of one row before the parity is computed: the blobs of the row, and zeros. -/
def rowShards (mduBytes : Bytes) (dataShards parityShards rowIdx : Nat) : List Bytes :=
  (List.range (dataShards + parityShards)).map fun slot =>
    if slot < dataShards then
      let blobIdx := rowIdx * dataShards + slot
      wordAt blobSize blobIdx mduBytes
    else List.replicate blobSize 0

/-- `ReedSolomon::encode` on the shards of one row. -/
def encodeRow (rs : ReedSolomon) (mduBytes : Bytes) (dataShards parityShards rowIdx : Nat) :
    Except CodingError (List Bytes) :=
  (rs.encode dataShards parityShards (rowShards mduBytes dataShards parityShards rowIdx)).mapError
    .rs

/-- The body of the loop over the rows in `expand_mdu_encoded`: every shard gets its blob of the
row. -/
def expandRow (rs : ReedSolomon) (mduBytes : Bytes) (dataShards parityShards : Nat)
    (shards : List Bytes) (rowIdx : Nat) : Except CodingError (List Bytes) := do
  let encoded ← encodeRow rs mduBytes dataShards parityShards rowIdx
  let destStart := rowIdx * blobSize
  return List.zipWith (fun shard blob => overwrite shard destStart blob) shards encoded

/-- The checks of the parameters. The data shards have to divide the blobs of an MDU. -/
def checkRsParams (dataShards parityShards : Nat) : Except CodingError Unit := do
  rejectIf (dataShards = 0 ∨ parityShards = 0) .invalidRsParams
  rejectIf (blobsPerMdu % dataShards ≠ 0) .invalidRsParams

/-- `expand_mdu_encoded`. The rows are encoded one by one, and the commitments computed at the
end. -/
def expandMduEncoded (ctx : KzgContext) (rs : ReedSolomon) (mduBytes : Bytes)
    (dataShards parityShards : Nat) : Except CodingError ExpandedMdu := do
  rejectIf (mduBytes.length ≠ mduSize) .invalidSize
  checkRsParams dataShards parityShards
  let rows := blobsPerMdu / dataShards
  let shardsTotal := dataShards + parityShards
  (rs.new dataShards parityShards).mapError .rs
  let shards ← (List.range rows).foldlM (expandRow rs mduBytes dataShards parityShards)
    (List.replicate shardsTotal (List.replicate (rows * blobSize) 0))
  let witness ← ((List.range shardsTotal).flatMap fun slot =>
      (List.range rows).map fun rowIdx => (slot, rowIdx)).mapM fun (slot, rowIdx) =>
    (blobToCommitment ctx (wordAt blobSize rowIdx (shards.getD slot []))).mapError .kzg
  return ⟨witness, shards⟩

/-- The buffers of `expand_mdu_encoded_flat`. The caller has allocated them. -/
structure FlatBuffers where
  witness : Bytes
  shards : Bytes
deriving DecidableEq

/-- The body of its loop over the slots of a row, after the row is encoded: one blob and its
commitment. -/
def expandFlatSlot (ctx : KzgContext) (rows rowIdx : Nat) (encoded : List Bytes)
    (buffers : FlatBuffers) (slot : Nat) : Except CodingError FlatBuffers := do
  let shardLen := rows * blobSize
  let blob := encoded.getD slot []
  let commitment ← (blobToCommitment ctx blob).mapError .kzg
  let woff := (slot * rows + rowIdx) * 48
  return ⟨overwrite buffers.witness woff commitment,
    overwrite buffers.shards (slot * shardLen + rowIdx * blobSize) blob⟩

/-- The body of its loop over the rows. A row writes its blob of each shard, and the commitment of
it. -/
def expandFlatRow (ctx : KzgContext) (rs : ReedSolomon) (mduBytes : Bytes)
    (dataShards parityShards rows : Nat) (buffers : FlatBuffers) (rowIdx : Nat) :
    Except CodingError FlatBuffers := do
  let encoded ← encodeRow rs mduBytes dataShards parityShards rowIdx
  (List.range (dataShards + parityShards)).foldlM (expandFlatSlot ctx rows rowIdx encoded) buffers

/-- `expand_mdu_encoded_flat`. Buffers of another length are refused before anything is written. -/
def expandMduEncodedFlat (ctx : KzgContext) (rs : ReedSolomon) (mduBytes : Bytes)
    (dataShards parityShards : Nat) (out : FlatBuffers) : Except CodingError FlatBuffers := do
  rejectIf (mduBytes.length ≠ mduSize) .invalidSize
  checkRsParams dataShards parityShards
  let rows := blobsPerMdu / dataShards
  let shardsTotal := dataShards + parityShards
  rejectIf (out.witness.length ≠ shardsTotal * rows * 48 ∨
    out.shards.length ≠ shardsTotal * (rows * blobSize)) .invalidSize
  (rs.new dataShards parityShards).mapError .rs
  (List.range rows).foldlM (expandFlatRow ctx rs mduBytes dataShards parityShards rows) out

/-- The body of the loops of `reconstruct_mdu_from_shards`: one blob of a data shard goes back to
its place. -/
def restoreBlob (shards : List (Option Bytes)) (dataShards rowIdx : Nat) (mdu : Bytes)
    (slot : Nat) :
    Except CodingError Bytes := do
  let rowOffset := rowIdx * blobSize
  let blobIdx := rowIdx * dataShards + slot
  let dst := blobIdx * blobSize
  let shard ← orFail (shards.getD slot none) (.rs "missing data shard after reconstruct")
  return overwrite mdu dst ((shard.drop rowOffset).take blobSize)

/-- `reconstruct_mdu_from_shards`. The MDU is put together from the data shards, which are all there
by then. -/
def reconstructMduFromShards (rs : ReedSolomon) (shards : List (Option Bytes))
    (dataShards parityShards : Nat) : Except CodingError Bytes := do
  checkRsParams dataShards parityShards
  rejectIf (shards.length ≠ dataShards + parityShards) .invalidRsParams
  let rows := blobsPerMdu / dataShards
  let expectedShardLen := rows * blobSize
  rejectIf (∃ bytes ∈ shards.filterMap id, bytes.length ≠ expectedShardLen) .invalidSize
  rejectIf (shards.countP (·.isSome) < dataShards) (.rs "not enough shards to reconstruct")
  (rs.new dataShards parityShards).mapError .rs
  let shards ← (rs.reconstruct dataShards parityShards shards).mapError .rs
  (List.range rows).foldlM
    (fun mdu rowIdx => (List.range dataShards).foldlM (restoreBlob shards dataShards rowIdx) mdu)
    (List.replicate mduSize 0)

end NilStore.Core
