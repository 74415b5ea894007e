import NilStore.Core.Coding
import NilStore.Lib.Blocks
import NilStore.Lib.Loops

/-!
# `NilStore.Core.Expand`: expanding a payload

`encode_to_mdu`, `expand_mdu` and `expand_payload_flat` of `nil_core/src/coding.rs`. `expand_mdu`
packs its input into an MDU and expands that. `expand_payload_flat` never builds the MDU: it packs
every blob of a row by itself, straight from the place of the blob in the payload.

Both ways of packing leave the same words (`encodePayloadIntoBlob_eq`), so both expansions encode
the same rows (`expandPayloadFlat_eq_expandMduEncodedFlat`).
-/

set_option autoImplicit false

namespace NilStore.Core

open NilStore.Lib

/-- `SCALARS_PER_BLOB`. -/
def scalarsPerBlob : Nat := 4096

/-- `DATA_SHARDS_NUM`. `expand_mdu` takes no parameters of its own. -/
def dataShardsNum : Nat := 8

/-- `PARITY_SHARDS_NUM`. -/
def parityShardsNum : Nat := 4

/-- The loop of `encode_to_mdu` over the chunks of the payload. Each lies at the end of its
scalar. -/
def encodeChunks (scalarIdx : Nat) (chunks : List Bytes) (mdu : Bytes) : Bytes :=
  match chunks with
  | [] => mdu
  | chunk :: rest =>
      if scalarIdx ≥ scalarsPerMdu then mdu
      else
        let start := scalarIdx * scalarBytes
        let pad := scalarBytes - chunk.length
        encodeChunks (scalarIdx + 1) rest (overwrite mdu (start + pad) chunk)

/-- `encode_to_mdu`. What does not fit into the MDU is cut off. -/
def encodeToMdu (rawData : Bytes) : Bytes :=
  -- `get(..MDU_PAYLOAD_BYTES)` is the whole of a shorter slice here, by `unwrap_or`.
  let payload := rawData.take mduPayloadBytes
  encodeChunks 0 (payload.toChunks scalarPayloadBytes) (List.replicate mduSize 0)

/-- The loop of `encode_payload_into_blob` over the scalars of the blob. -/
def encodeScalars (payload : Bytes) (scalars : List Nat) (src : Nat) (outBlob : Bytes) : Bytes :=
  match scalars with
  | [] => outBlob
  | scalarIdx :: rest =>
      if src ≥ payload.length then outBlob
      else
        let remaining := payload.length - src
        let chunkLen := min remaining scalarPayloadBytes
        if chunkLen = 0 then outBlob
        else
          let dstScalar := scalarIdx * scalarBytes
          let pad := scalarBytes - chunkLen
          let outBlob := overwrite outBlob (dstScalar + pad) ((payload.drop src).take chunkLen)
          if chunkLen < scalarPayloadBytes then outBlob
          else encodeScalars payload rest (src + chunkLen) outBlob

/-- `encode_payload_into_blob`: what it leaves in `out_blob`, which has `BLOB_SIZE` bytes. -/
def encodePayloadIntoBlob (payload : Bytes) (payloadBase : Nat) : Bytes :=
  let outBlob := List.replicate blobSize 0
  if payloadBase ≥ payload.length then outBlob
  else encodeScalars payload (List.range scalarsPerBlob) payloadBase outBlob

/-- `expand_mdu`. Data of any other size than that of an MDU is refused. -/
def expandMdu (ctx : KzgContext) (rs : ReedSolomon) (data : Bytes) :
    Except CodingError ExpandedMdu := do
  rejectIf (data.length ≠ 8 * 1024 * 1024) .invalidSize
  let encoded := encodeToMdu data
  expandMduEncoded ctx rs encoded dataShardsNum parityShardsNum

/-- The shards of one row in `expand_payload_flat` before the parity is computed. -/
def payloadRowShards (payload : Bytes) (dataShards parityShards rowIdx : Nat) : List Bytes :=
  (List.range (dataShards + parityShards)).map fun slot =>
    if slot < dataShards then
      let blobIdx := rowIdx * dataShards + slot
      let payloadBase := blobIdx * scalarsPerBlob * scalarPayloadBytes
      encodePayloadIntoBlob payload payloadBase
    else List.replicate blobSize 0

/-- The body of its loop over the rows. The encoded MDU is never there as a whole. -/
def expandPayloadRow (ctx : KzgContext) (rs : ReedSolomon) (payload : Bytes)
    (dataShards parityShards rows : Nat) (buffers : FlatBuffers) (rowIdx : Nat) :
    Except CodingError FlatBuffers := do
  let encoded ← (rs.encode dataShards parityShards
    (payloadRowShards payload dataShards parityShards rowIdx)).mapError .rs
  (List.range (dataShards + parityShards)).foldlM (expandFlatSlot ctx rows rowIdx encoded) buffers

/-- `expand_payload_flat`. It encodes and expands in one go. -/
def expandPayloadFlat (ctx : KzgContext) (rs : ReedSolomon) (payloadBytes : Bytes)
    (dataShards parityShards : Nat) (out : FlatBuffers) : Except CodingError FlatBuffers := do
  checkRsParams dataShards parityShards
  let payload := payloadBytes.take mduPayloadBytes
  let rows := blobsPerMdu / dataShards
  let shardsTotal := dataShards + parityShards
  rejectIf (out.witness.length ≠ shardsTotal * rows * 48 ∨
    out.shards.length ≠ shardsTotal * (rows * blobSize)) .invalidSize
  (rs.new dataShards parityShards).mapError .rs
  (List.range rows).foldlM (expandPayloadRow ctx rs payload dataShards parityShards rows) out

/-! ### Packing -/

section Packing

variable {payload chunk done : Bytes}

/-- A chunk that is copied to the end of a zero word leaves the word right-aligned. -/
theorem overwrite_pad {i n : Nat} (hdone : done.length = i * scalarBytes)
    (hchunk : chunk.length ≤ scalarBytes) :
    overwrite (done ++ List.replicate (scalarBytes * (n + 1)) 0)
        (i * scalarBytes + (scalarBytes - chunk.length)) chunk =
      done ++ alignRight 0 scalarBytes chunk ++ List.replicate (scalarBytes * n) 0 := by
  have htake : (done ++ List.replicate (scalarBytes * (n + 1)) (0 : UInt8)).take
      (i * scalarBytes + (scalarBytes - chunk.length)) =
        done ++ List.replicate (scalarBytes - chunk.length) 0 := by
    rw [← hdone, List.take_length_add_append, List.take_replicate]
    congr 2
    rw [Nat.mul_succ]
    omega
  have hdrop : (done ++ List.replicate (scalarBytes * (n + 1)) (0 : UInt8)).drop
      (i * scalarBytes + (scalarBytes - chunk.length) + chunk.length) =
        List.replicate (scalarBytes * n) 0 := by
    rw [← hdone, Nat.add_assoc, List.drop_length_add_append, List.drop_replicate]
    congr 1
    rw [Nat.mul_succ]
    omega
  rw [overwrite, htake, hdrop, alignRight, List.append_assoc, List.append_assoc, List.append_assoc,
    List.append_assoc]

/-- The loop of `encode_to_mdu` aligns one chunk after the other. It never stops before the last
one, since there is a scalar for each. -/
theorem encodeChunks_eq (done : Bytes) (chunks : List Bytes)
    (hchunks : ∀ chunk ∈ chunks, chunk.length ≤ scalarBytes)
    (i n : Nat) (hroom : chunks.length ≤ n) (hscalars : i + n = scalarsPerMdu)
    (hdone : done.length = i * scalarBytes) :
    encodeChunks i chunks (done ++ List.replicate (scalarBytes * n) 0) =
      done ++ (chunks.map (alignRight 0 scalarBytes)).flatten ++
        List.replicate (scalarBytes * (n - chunks.length)) 0 := by
  induction chunks generalizing i n done with
  | nil => simp [encodeChunks]
  | cons chunk rest ih =>
      obtain ⟨n, rfl⟩ : ∃ n', n = n' + 1 := ⟨n - 1, by rw [List.length_cons] at hroom; omega⟩
      have hchunk := hchunks chunk List.mem_cons_self
      have haligned : (done ++ alignRight 0 scalarBytes chunk).length = (i + 1) * scalarBytes := by
        rw [List.length_append, hdone, length_alignRight hchunk, Nat.succ_mul]
      rw [encodeChunks, if_neg (by omega)]
      simp only [overwrite_pad hdone hchunk]
      rw [ih _ (fun c hc => hchunks c (List.mem_cons_of_mem _ hc)) (i + 1) n
          (by rw [List.length_cons] at hroom; omega) (by omega) haligned,
        List.length_cons, Nat.add_sub_add_right, List.map_cons, List.flatten_cons]
      simp only [List.append_assoc]

/-- `encode_to_mdu` packs what fits of its input: the rest of a longer payload is dropped without an
error. -/
theorem encodeToMdu_eq (rawData : Bytes) :
    encodeToMdu rawData = payloadMdu (rawData.take mduPayloadBytes) := by
  have hchunks : ∀ chunk ∈ (rawData.take mduPayloadBytes).toChunks scalarPayloadBytes,
      chunk.length ≤ scalarPayloadBytes := by
    intro chunk hchunk
    obtain ⟨i, hi⟩ := List.mem_iff_getElem?.mp hchunk
    rw [getElem?_toChunks (by decide)] at hi
    split at hi
    · cases hi
      exact List.length_take_le _ _
    · cases hi
  -- each word has its 32 bytes, and there are at most as many as the MDU has room for
  have hwords : ∀ word ∈ ((rawData.take mduPayloadBytes).toChunks scalarPayloadBytes).map
      (alignRight 0 scalarBytes), word.length = scalarBytes :=
    length_of_mem_packed (by decide) (by decide)
  have hroom : ((rawData.take mduPayloadBytes).toChunks scalarPayloadBytes).length ≤
      scalarsPerMdu := by
    -- the packed MDU has the size of an MDU, so its words are not too many
    have hlong : (payloadMdu (rawData.take mduPayloadBytes)).length = mduSize :=
      length_payloadMdu (List.length_take_le _ _)
    rw [payloadMdu, packRight, List.length_append, length_flatten_words hwords, List.length_map]
      at hlong
    have hsize : mduSize = scalarBytes * scalarsPerMdu := by decide
    rw [hsize] at hlong
    exact Nat.le_of_mul_le_mul_left (Nat.le_of_add_right_le hlong.le) (by decide : 0 < scalarBytes)
  have hloop := encodeChunks_eq [] _ (fun c hc => (hchunks c hc).trans (by decide)) 0 scalarsPerMdu
    hroom (Nat.zero_add _) rfl
  rw [List.nil_append, List.nil_append] at hloop
  rw [encodeToMdu, payloadMdu, packRight, length_flatten_words hwords, List.length_map,
    ← Nat.mul_sub]
  exact hloop

/-- The packing of a list goes on after its first word. -/
theorem packRight_succ {l : Bytes} (hl : l ≠ []) (n : Nat) :
    packRight 0 scalarPayloadBytes scalarBytes (n + 1) l =
      alignRight 0 scalarBytes (l.take scalarPayloadBytes) ++
        packRight 0 scalarPayloadBytes scalarBytes n (l.drop scalarPayloadBytes) := by
  have hfirst : (alignRight 0 scalarBytes (l.take scalarPayloadBytes)).length = scalarBytes :=
    length_alignRight ((List.length_take_le _ _).trans (by decide))
  rw [packRight, toChunks_eq_cons (by decide) hl, List.map_cons, List.flatten_cons,
    List.length_append, hfirst, packRight, List.append_assoc, Nat.mul_succ]
  congr 3
  omega

/-- Packing no bytes gives cells of zeros only. -/
theorem packRight_nil (n : Nat) :
    packRight 0 scalarPayloadBytes scalarBytes n
    ([] : Bytes) = List.replicate (scalarBytes * n) 0 := by
  rw [packRight, toChunks_nil]
  simp

/-- The loop of `encode_payload_into_blob` packs what is left of the payload from `src` on. It stops
early only where nothing is left. -/
theorem encodeScalars_eq (done payload : Bytes) (i n src : Nat)
    (hdone : done.length = i * scalarBytes) :
    encodeScalars payload (List.range' i n) src (done ++ List.replicate (scalarBytes * n) 0) =
      done ++ packRight 0 scalarPayloadBytes scalarBytes n
        ((payload.drop src).take (scalarPayloadBytes * n)) := by
  -- the induction is on the scalars that are left to write, from place `i` on
  induction n generalizing i src done with
  | zero => simp [encodeScalars, packRight_nil]
  | succ n ih =>
      rw [List.range'_succ, encodeScalars]
      -- nothing is left of the payload: the loop stops, and the rest of the blob stays zero
      by_cases hsrc : src ≥ payload.length
      · rw [if_pos hsrc, List.drop_of_length_le hsrc, List.take_nil, packRight_nil]
      · have hpos : ¬min (payload.length - src) scalarPayloadBytes = 0 := by
          rw [scalarPayloadBytes]
          omega
        have hrest : (payload.drop src).take (scalarPayloadBytes * (n + 1)) ≠ [] := by
          rw [← List.length_pos_iff, List.length_take, List.length_drop, scalarPayloadBytes]
          omega
        have hchunk :
            ((payload.drop src).take (scalarPayloadBytes * (n + 1))).take scalarPayloadBytes =
            (payload.drop src).take (min (payload.length - src) scalarPayloadBytes) := by
          rw [List.take_take, Nat.min_eq_left (Nat.le_mul_of_pos_right _ n.succ_pos), Nat.min_comm,
            ← List.length_drop, List.take_eq_take_min, Nat.min_comm]
        have hlength :
            ((payload.drop src).take (min (payload.length - src) scalarPayloadBytes)).length =
            min (payload.length - src) scalarPayloadBytes := by
          rw [List.length_take, List.length_drop]
          omega
        have hle : min (payload.length - src) scalarPayloadBytes ≤ scalarBytes :=
          (Nat.min_le_right _ _).trans (by decide)
        -- the chunk is written with a zero before it, into a place that was zero
        have hpad := overwrite_pad (n := n) hdone (hlength.trans_le hle)
        rw [hlength] at hpad
        rw [if_neg hsrc, packRight_succ hrest, hchunk]
        simp only [if_neg hpos, hpad]
        by_cases hshort : min (payload.length - src) scalarPayloadBytes < scalarPayloadBytes
        · -- The chunk was the last one.
          have hend : ((payload.drop src).take (scalarPayloadBytes * (n + 1))).drop
              scalarPayloadBytes = [] := by
            refine List.drop_of_length_le ((List.length_take_le' _ _).trans ?_)
            rw [List.length_drop]
            omega
          rw [if_pos hshort, hend, packRight_nil, List.append_assoc]
        · have hfull : min (payload.length - src) scalarPayloadBytes =
            scalarPayloadBytes := by omega
          have haligned : (done ++ alignRight 0 scalarBytes
              ((payload.drop src).take scalarPayloadBytes)).length = (i + 1) * scalarBytes := by
            rw [hfull] at hlength
            rw [List.length_append, hdone,
              length_alignRight (hlength.trans_le (by decide)), Nat.succ_mul]
          have hnext :
              ((payload.drop src).take (scalarPayloadBytes * (n + 1))).drop scalarPayloadBytes =
              (payload.drop (src + scalarPayloadBytes)).take (scalarPayloadBytes * n) := by
            rw [List.drop_take, List.drop_drop, Nat.mul_succ, Nat.add_sub_cancel]
          rw [if_neg hshort, hfull, ih _ (i + 1) _ haligned, hnext, List.append_assoc]

/-- `encode_payload_into_blob` packs a blob's worth of the payload. -/
theorem encodePayloadIntoBlob_packRight (payload : Bytes) (payloadBase : Nat) :
    encodePayloadIntoBlob payload payloadBase =
      packRight 0 scalarPayloadBytes scalarBytes scalarsPerBlob
      ((payload.drop payloadBase).take (scalarPayloadBytes * scalarsPerBlob)) := by
  have hsize : blobSize = scalarBytes * scalarsPerBlob := by decide
  rw [encodePayloadIntoBlob]
  by_cases hbase : payloadBase ≥ payload.length
  · rw [if_pos hbase, List.drop_of_length_le hbase, List.take_nil, packRight_nil, hsize]
  · rw [if_neg hbase, List.range_eq_range', hsize]
    exact encodeScalars_eq [] payload 0 scalarsPerBlob payloadBase rfl

/-- A blob that is packed from its place in the payload is the blob of the packed payload. -/
theorem encodePayloadIntoBlob_eq (payload : Bytes) {blobIdx : Nat} (hblob : blobIdx < blobsPerMdu)
    (hfit : payload.length ≤ mduPayloadBytes) :
    encodePayloadIntoBlob payload (blobIdx * scalarsPerBlob * scalarPayloadBytes) =
      wordAt blobSize blobIdx (payloadMdu payload) := by
  have hpiece : ((payload.drop (blobIdx * scalarsPerBlob * scalarPayloadBytes)).take
      (scalarPayloadBytes * scalarsPerBlob)).length ≤ scalarPayloadBytes * scalarsPerBlob :=
    List.length_take_le _ _
  have hmdu := length_payloadMdu hfit
  rw [encodePayloadIntoBlob_packRight]
  refine eq_of_wordAt (n := 32) (c := scalarsPerBlob) (by decide)
    (length_packRight (by decide) (by decide) hpiece) ?_ fun i hi => ?_
  · refine length_wordAt ?_
    rw [hmdu, mduSize, blobSize]
    rw [blobsPerMdu] at hblob
    omega
  · have hscalar : blobIdx * scalarsPerBlob + i < scalarsPerMdu := by
      rw [scalarsPerMdu]
      rw [scalarsPerBlob] at hi ⊢
      rw [blobsPerMdu] at hblob
      omega
    -- The words of the blob are words of the MDU.
    have hwords : wordAt 32 i (wordAt blobSize blobIdx (payloadMdu payload)) =
        wordAt 32 (blobIdx * scalarsPerBlob + i) (payloadMdu payload) := wordAt_wordAt hi
    -- the word is packed from the same 31 bytes of the payload on both sides
    have hchunk : (((payload.drop (blobIdx * scalarsPerBlob * scalarPayloadBytes)).take
        (scalarPayloadBytes * scalarsPerBlob)).drop (31 * i)).take 31 =
          (payload.drop (31 * (blobIdx * scalarsPerBlob + i))).take 31 := by
      rw [List.drop_take, List.drop_drop, List.take_take]
      rw [scalarsPerBlob] at hi ⊢
      congr 1
      · rw [scalarPayloadBytes]
        omega
      · congr 1
        rw [scalarPayloadBytes]
        omega
    rw [hwords, scalar_payloadMdu hscalar, ← hchunk]
    exact wordAt_packRight (by decide) (by decide) hi

end Packing

/-! ### The rows -/

/-- Both expansions of a payload encode the same row. -/
theorem payloadRowShards_eq {payload : Bytes} (hfit : payload.length ≤ mduPayloadBytes)
    {dataShards row : Nat} (hrow : row < blobsPerMdu / dataShards) (parityShards : Nat) :
    payloadRowShards payload dataShards parityShards row =
      rowShards (payloadMdu payload) dataShards parityShards row := by
  refine List.map_congr_left fun slot _ => ?_
  by_cases hslot : slot < dataShards
  · have hmul : (row + 1) * dataShards ≤ blobsPerMdu / dataShards * dataShards :=
      Nat.mul_le_mul_right _ hrow
    have hle := Nat.div_mul_le_self blobsPerMdu dataShards
    have hblob : row * dataShards + slot < blobsPerMdu := by
      rw [Nat.succ_mul] at hmul
      omega
    rw [if_pos hslot, if_pos hslot]
    exact encodePayloadIntoBlob_eq payload hblob hfit
  · rw [if_neg hslot, if_neg hslot]

/-- The expansion of a payload is the expansion of its MDU. -/
theorem expandPayloadFlat_eq_expandMduEncodedFlat (ctx : KzgContext) (rs : ReedSolomon)
    (payloadBytes : Bytes) (dataShards parityShards : Nat) (out : FlatBuffers) :
    expandPayloadFlat ctx rs payloadBytes dataShards parityShards out =
      expandMduEncodedFlat ctx rs (encodeToMdu payloadBytes) dataShards parityShards out := by
  have hfit : (payloadBytes.take mduPayloadBytes).length ≤ mduPayloadBytes :=
    List.length_take_le _ _
  have hsize : rejectIf ((encodeToMdu payloadBytes).length ≠ mduSize) CodingError.invalidSize =
      .ok () := by
    refine if_neg (not_not.mpr ?_)
    rw [encodeToMdu_eq, length_payloadMdu hfit]
  have hloop : (List.range (blobsPerMdu / dataShards)).foldlM (expandPayloadRow ctx rs
      (payloadBytes.take mduPayloadBytes) dataShards parityShards (blobsPerMdu / dataShards)) out =
        (List.range (blobsPerMdu / dataShards)).foldlM (expandFlatRow ctx rs
          (encodeToMdu payloadBytes) dataShards parityShards (blobsPerMdu / dataShards)) out := by
    refine foldlM_congr (fun row hrow buffers => ?_) out
    rw [expandPayloadRow, expandFlatRow, encodeRow, encodeToMdu_eq,
      payloadRowShards_eq hfit (List.mem_range.mp hrow)]
  rw [expandPayloadFlat, expandMduEncodedFlat, hsize]
  simp only [hloop]
  rfl

end NilStore.Core
