import NilStore.Core.Coding
import NilStore.Lib.Loops
import NilStore.Proofs.ManifestCells

/-!
# `NilStore.Proofs.ErasureRoundTrip`: an MDU from what remains of its shards

Both ways of expanding an MDU encode the same rows, and leave blob `row` of shard `slot` in block
`row` of that shard (`ShardRows`). In the flat buffer this is block `slot * rows + row`. So the
shards are a codeword, because their rows are, and reconstruction gets all of them back; it then
copies blob `row * K + slot` of the MDU from where the expansion has put it.

A parity byte is a combination of the data bytes at its position. Where the top byte of every word
of the MDU is zero, it is zero in every shard, and the words are canonical scalars.
-/

set_option autoImplicit false

namespace NilStore.Core

open NilStore.Lib

section Rows

variable {rs : ReedSolomon} {k m : Nat} {coeff : Nat → Nat → UInt8} {mdu : Bytes}

/-- The rows of an MDU have `K` blobs each. -/
theorem rows_mul (hk : 64 % k = 0) : k * (blobsPerMdu / k) = 64 :=
  Nat.mul_div_cancel' (Nat.dvd_of_mod_eq_zero hk)

/-- The blob of a slot in a row is one of the 64. -/
theorem blobIdx_lt (hk : 64 % k = 0) {row slot : Nat} (hrow : row < blobsPerMdu / k)
    (hslot : slot < k) : row * k + slot < 64 := by
  have hmul : (row + 1) * k ≤ blobsPerMdu / k * k := Nat.mul_le_mul_right k hrow
  rw [Nat.add_mul, Nat.one_mul, Nat.mul_comm (blobsPerMdu / k), rows_mul hk] at hmul
  omega

/-- Every blob of an MDU is a full one. -/
theorem length_blob (hmdu : mdu.length = mduSize) {i : Nat} (hi : i < 64) :
    (wordAt blobSize i mdu).length = blobSize := by
  refine length_wordAt ?_
  rw [hmdu, mduSize, blobSize]
  omega

/-- The shard of a slot in a row is the blob at that place of the MDU. -/
theorem getD_rowShards {row slot : Nat} (hslot : slot < k) :
    (rowShards mdu k m row).getD slot [] = wordAt blobSize (row * k + slot) mdu := by
  rw [rowShards, List.getD_eq_getElem?_getD, List.getElem?_map,
    List.getElem?_range (by omega), Option.map_some, Option.getD_some, if_pos hslot]

/-- What encoding a row of the MDU gives. -/
structure RowCode (rs : ReedSolomon) (k m : Nat) (coeff : Nat → Nat → UInt8)
    (mdu : Bytes) (row : Nat) (encoded : List Bytes) : Prop where
  encoded_ok : encodeRow rs mdu k m row = .ok encoded
  data : ∀ slot < k, encoded.getD slot [] = wordAt blobSize (row * k + slot) mdu
  codeword : Codeword coeff k m blobSize encoded

/-- The blobs of one row, as an encoder leaves them that works in place. -/
structure RowBlobs (k m : Nat) (encoded : List Bytes) : Prop where
  length : encoded.length = k + m
  blobLength : ∀ blob ∈ encoded, blob.length = blobSize

/-- The shards of an encoded row are full blobs. -/
theorem RowBlobs.length_getD {encoded : List Bytes} (h : RowBlobs k m encoded) {slot : Nat}
    (hslot : slot < k + m) : (encoded.getD slot []).length = blobSize := by
  have hlt : slot < encoded.length := by
    rw [h.length]
    exact hslot
  rw [getD_eq_getElem hlt]
  exact h.blobLength _ (List.getElem_mem hlt)

/-- The shards of a row code are full blobs. -/
theorem RowCode.blobs {row : Nat} {encoded : List Bytes}
    (h : RowCode rs k m coeff mdu row encoded) :
    RowBlobs k m encoded :=
  ⟨h.codeword.length, h.codeword.shardLength⟩

/-- A row has one blob for each shard before it is encoded. -/
theorem rowBlobs_rowShards (hk : 64 % k = 0) (hmdu : mdu.length = mduSize) {row : Nat}
    (hrow : row < blobsPerMdu / k) : RowBlobs k m (rowShards mdu k m row) := by
  refine ⟨by rw [rowShards, List.length_map, List.length_range], fun shard hshard => ?_⟩
  obtain ⟨slot, -, rfl⟩ := List.mem_map.mp hshard
  split
  · exact length_blob hmdu (blobIdx_lt hk hrow ‹_›)
  · exact List.length_replicate

/-- Every row of an MDU can be encoded. -/
theorem exists_rowCode (hcode : ErasureCode rs k m coeff) (hk : 64 % k = 0)
    (hmdu : mdu.length = mduSize) {row : Nat} (hrow : row < blobsPerMdu / k) :
    ∃ encoded, RowCode rs k m coeff mdu row encoded := by
  have hrowShards := rowBlobs_rowShards (m := m) hk hmdu hrow
  obtain ⟨encoded, hencoded, hdata, hcodeword⟩ :=
    hcode.encode_ok blobSize _ (by decide) hrowShards.length hrowShards.blobLength
  refine ⟨encoded, ?_, ?_, hcodeword⟩
  · rw [encodeRow, hencoded]
    rfl
  · intro slot hslot
    rw [← getD_rowShards (m := m) hslot, List.getD_eq_getElem?_getD, List.getD_eq_getElem?_getD,
      ← List.getElem?_take_of_lt hslot, hdata, List.getElem?_take_of_lt hslot]

end Rows

/-! ### The shards -/

/-- The shards whose blobs are the given rows. -/
structure ShardRows (k m rows : Nat) (encoded : Nat → List Bytes) (shards : List Bytes) : Prop where
  length : shards.length = k + m
  shardLength : ∀ slot < k + m, (shards.getD slot []).length = blobSize * rows
  blob : ∀ slot < k + m, ∀ row < rows,
    wordAt blobSize row (shards.getD slot []) = (encoded row).getD slot []

section Shards

variable {rs : ReedSolomon} {k m rows : Nat} {coeff : Nat → Nat → UInt8} {mdu : Bytes}
  {encoded : Nat → List Bytes} {shards : List Bytes}

/-- The shards after a row is written to them. -/
def writeRow (encoded : Nat → List Bytes) (shards : List Bytes) (row : Nat) : List Bytes :=
  List.zipWith (fun shard blob => overwrite shard (row * blobSize) blob) shards (encoded row)

/-- The shards after all rows are written. -/
def writeRows (k m rows : Nat) (encoded : Nat → List Bytes) : List Bytes :=
  (List.range rows).foldl (writeRow encoded)
    (List.replicate (k + m) (List.replicate (rows * blobSize) 0))

/-- Writing rows to all shards writes blobs to each. -/
theorem getD_foldl_writeRow (l : List Nat) (shards : List Bytes) (hshards : shards.length = k + m)
    (hencoded : ∀ row ∈ l, (encoded row).length = k + m) :
    (l.foldl (writeRow encoded) shards).length = k + m ∧
      ∀ slot < k + m, (l.foldl (writeRow encoded) shards).getD slot [] =
        l.foldl (fun shard row => overwrite shard (blobSize * row) ((encoded row).getD slot []))
          (shards.getD slot []) := by
  induction l generalizing shards with
  | nil => exact ⟨hshards, fun _ _ => rfl⟩
  | cons row rest ih =>
      have hrow := hencoded row List.mem_cons_self
      have hlength : (writeRow encoded shards row).length = k + m := by
        rw [writeRow, List.length_zipWith, hshards, hrow, Nat.min_self]
      obtain ⟨hlen, hget⟩ := ih _ hlength fun r hr => hencoded r (List.mem_cons_of_mem _ hr)
      rw [List.foldl_cons]
      refine ⟨hlen, fun slot hslot => ?_⟩
      have hstep : (writeRow encoded shards row).getD slot [] =
          overwrite (shards.getD slot []) (blobSize * row) ((encoded row).getD slot []) := by
        rw [Nat.mul_comm blobSize row, getD_eq_getElem (by omega), getD_eq_getElem (by omega),
          getD_eq_getElem (by omega)]
        exact List.getElem_zipWith
      rw [hget slot hslot, List.foldl_cons, hstep]

/-- The loop over the rows of `expand_mdu_encoded` leaves every blob in its place. Each row writes
one blob into each shard, and the places of different rows do not overlap. -/
theorem shardRows_writeRows (hencoded : ∀ row < rows, RowBlobs k m (encoded row)) :
    ShardRows k m rows encoded (writeRows k m rows encoded) := by
  have hmem : ∀ row ∈ List.range rows, row < rows := fun row hrow => List.mem_range.mp hrow
  have hlengths : ∀ row ∈ List.range rows, (encoded row).length = k + m :=
    fun row hrow => (hencoded row (hmem row hrow)).length
  obtain ⟨hlength, hget⟩ := getD_foldl_writeRow (List.range rows)
    (List.replicate (k + m) (List.replicate (rows * blobSize) 0)) List.length_replicate hlengths
  -- every shard starts as zeros of its full length
  have hbuffer : ∀ slot < k + m, (List.replicate (k + m)
      (List.replicate (rows * blobSize) (0 : UInt8))).getD slot [] =
      List.replicate (rows * blobSize) 0 := by
    intro slot hslot
    rw [List.getD_eq_getElem?_getD, List.getElem?_replicate, if_pos hslot, Option.getD_some]
  have hloop : ∀ slot < k + m, _ := fun slot hslot =>
    wordAt_foldl_overwrite (n := blobSize) (fun row => (encoded row).getD slot []) (List.range rows)
      (List.replicate (rows * blobSize) 0)
      (fun row hrow => (hencoded row (hmem row hrow)).length_getD hslot)
      (fun row hrow => by
        have hmul := Nat.mul_le_mul_left blobSize (hmem row hrow)
        rw [List.length_replicate, Nat.mul_comm rows, ← Nat.mul_succ]
        exact hmul)
  refine ⟨hlength, fun slot hslot => ?_, fun slot hslot row hrow => ?_⟩
  · rw [writeRows, hget slot hslot, hbuffer slot hslot, (hloop slot hslot).1,
      List.length_replicate, Nat.mul_comm]
  · rw [writeRows, hget slot hslot, hbuffer slot hslot, (hloop slot hslot).2,
      if_pos (List.mem_range.mpr hrow)]

/-- The shards are a codeword, since every row is. -/
theorem ShardRows.codeword (h : ShardRows k m rows encoded shards)
    (hencoded : ∀ row < rows, Codeword coeff k m blobSize (encoded row)) :
    Codeword coeff k m (blobSize * rows) shards := by
  refine .of_blocks (by decide) h.length ?_ fun row hrow => ?_
  · intro shard hshard
    obtain ⟨slot, hslot, rfl⟩ := List.getElem_of_mem hshard
    rw [← getD_eq_getElem hslot]
    exact h.shardLength slot (by rw [← h.length]; exact hslot)
  · have hblocks : shards.map (wordAt blobSize row) = encoded row := by
      refine List.ext_getElem ?_ fun slot hslot hslot' => ?_
      · rw [List.length_map, h.length, (hencoded row hrow).length]
      · have hlt : slot < k + m := by
          rw [← (hencoded row hrow).length]
          exact hslot'
        rw [List.length_map] at hslot
        rw [List.getElem_map, ← getD_eq_getElem hslot, ← getD_eq_getElem hslot',
          h.blob slot hlt row hrow]
    rw [hblocks]
    exact hencoded row hrow

end Shards

/-! ### Expanding -/

section Expand

variable {ctx : KzgContext} {rs : ReedSolomon} {k m : Nat} {coeff : Nat → Nat → UInt8} {mdu : Bytes}
  {encoded : Nat → List Bytes} {shards : List Bytes}

/-- The allowed shard counts pass the check. -/
theorem checkRsParams_ok (hk : 64 % k = 0) (hm : 0 < m) : checkRsParams k m = .ok () := by
  have hk0 : k ≠ 0 := by
    rintro rfl
    exact absurd hk (by decide)
  have hparams : rejectIf (k = 0 ∨ m = 0) CodingError.invalidRsParams = .ok () := if_neg (by omega)
  have hdvd : rejectIf (blobsPerMdu % k ≠ 0) CodingError.invalidRsParams = .ok () :=
    if_neg (not_not.mpr hk)
  rw [checkRsParams, hparams, hdvd]
  rfl

/-- A full blob has a commitment. -/
theorem blobToCommitment_ok {blob : Bytes} (h : blob.length = blobSize) :
    blobToCommitment ctx blob = .ok (commitBlob ctx blob) := by
  rw [blobToCommitment, if_neg (not_not.mpr h), commitBlob]
  split <;> rfl

/-- What is known of each slot and row, one slot after the other. -/
def slotMajor {α : Type} (k m rows : Nat) (f : Nat → Nat → α) : List α :=
  (List.range (k + m)).flatMap fun slot => (List.range rows).map fun row => f slot row

/-- A list in the order of the slots has the entry of a slot and a row in block `slot * rows +
row`. -/
theorem slotMajor_eq {α : Type} {rows : Nat} (hrows : 0 < rows) (f : Nat → Nat → α) :
    slotMajor k m rows f = (List.range ((k + m) * rows)).map fun block =>
      f (block / rows) (block % rows) := by
  rw [slotMajor]
  induction k + m with
  | zero => simp
  | succ n ih =>
      have hlast : ((List.range rows).map fun row => n * rows + row).map
          (fun block => f (block / rows) (block % rows)) = (List.range rows).map fun row =>
            f n row := by
        rw [List.map_map]
        refine List.map_congr_left fun row hrow => ?_
        have hrow := List.mem_range.mp hrow
        show f ((n * rows + row) / rows) ((n * rows + row) % rows) = f n row
        rw [Nat.mul_comm n, Nat.mul_add_mod, Nat.mod_eq_of_lt hrow, Nat.mul_add_div hrows,
          Nat.div_eq_of_lt hrow, Nat.add_zero]
      rw [List.range_succ, List.flatMap_append, ih, Nat.succ_mul, List.range_add,
        List.map_append, hlast]
      simp

/-- `expand_mdu_encoded` when every row is encoded: the shards get the rows, and the witness the
commitments of their blobs, one slot after the other. -/
theorem expandMduEncoded_eq (ctx : KzgContext) (hnew : rs.new k m = .ok ())
    (hk : 64 % k = 0) (hm : 0 < m) (hmdu : mdu.length = mduSize)
    (hencoded : ∀ row < blobsPerMdu / k, encodeRow rs mdu k m row = .ok (encoded row))
    (hblobs : ∀ row < blobsPerMdu / k, RowBlobs k m (encoded row)) :
    expandMduEncoded ctx rs mdu k m = .ok
      ⟨slotMajor k m (blobsPerMdu / k) fun slot row => commitBlob ctx ((encoded row).getD slot []),
        writeRows k m (blobsPerMdu / k) encoded⟩ := by
  have hshards := shardRows_writeRows hblobs
  have hsize : rejectIf (mdu.length ≠ mduSize) CodingError.invalidSize = .ok () :=
    if_neg (not_not.mpr hmdu)
  have hnew : (rs.new k m).mapError CodingError.rs = .ok () := by
    rw [hnew]
    rfl
  -- the loop over the rows
  have hloop : (List.range (blobsPerMdu / k)).foldlM (expandRow rs mdu k m)
      (List.replicate (k + m) (List.replicate (blobsPerMdu / k * blobSize) 0)) =
        .ok (writeRows k m (blobsPerMdu / k) encoded) := by
    refine (foldlM_eq_ok (fun _ => True) _ (fun shards _ row hrow => ⟨?_, trivial⟩) _ trivial).1
    rw [expandRow, hencoded row (List.mem_range.mp hrow)]
    rfl
  -- the commitments are taken from the shards, where each blob is by then
  have hwitness := mapM_ok (ε := CodingError)
    (l := slotMajor k m (blobsPerMdu / k) fun slot rowIdx => (slot, rowIdx))
    (f := fun cell => (blobToCommitment ctx (wordAt blobSize cell.2
      ((writeRows k m (blobsPerMdu / k) encoded).getD cell.1 []))).mapError CodingError.kzg)
    (g := fun cell => commitBlob ctx ((encoded cell.2).getD cell.1 [])) (by
      rintro ⟨slot, row⟩ hmem
      simp only [slotMajor, List.mem_flatMap, List.mem_map, List.mem_range, Prod.mk.injEq] at hmem
      obtain ⟨_, hslot, _, hrow, rfl, rfl⟩ := hmem
      show (blobToCommitment ctx (wordAt blobSize _ _)).mapError CodingError.kzg = _
      rw [hshards.blob _ hslot _ hrow, blobToCommitment_ok ((hblobs _ hrow).length_getD hslot)]
      rfl)
  have hmap : (slotMajor k m (blobsPerMdu / k) fun slot rowIdx => (slot, rowIdx)).map
      (fun cell => commitBlob ctx ((encoded cell.2).getD cell.1 [])) =
        slotMajor k m (blobsPerMdu / k) fun slot row =>
          commitBlob ctx ((encoded row).getD slot []) := by
    simp only [slotMajor, List.map_flatMap, List.map_map]
    rfl
  rw [hmap] at hwitness
  exact except_bind_ok.mpr ⟨(), hsize, except_bind_ok.mpr ⟨(), checkRsParams_ok hk hm,
    except_bind_ok.mpr ⟨(), hnew, except_bind_ok.mpr ⟨_, hloop,
      except_bind_ok.mpr ⟨_, hwitness, rfl⟩⟩⟩⟩⟩

/-- `expand_mdu_encoded` succeeds, and leaves the rows in the shards. -/
theorem expandMduEncoded_ok (ctx : KzgContext) (hnew : rs.new k m = .ok ())
    (hk : 64 % k = 0) (hm : 0 < m) (hmdu : mdu.length = mduSize)
    (hencoded : ∀ row < blobsPerMdu / k, RowCode rs k m coeff mdu row (encoded row)) :
    ∃ expanded, expandMduEncoded ctx rs mdu k m = .ok expanded ∧
      ShardRows k m (blobsPerMdu / k) encoded expanded.shards := by
  have hblobs : ∀ row < blobsPerMdu / k, RowBlobs k m (encoded row) :=
    fun row hrow => (hencoded row hrow).blobs
  exact ⟨_,
    expandMduEncoded_eq ctx hnew hk hm hmdu (fun row hrow => (hencoded row hrow).encoded_ok) hblobs,
    shardRows_writeRows hblobs⟩

/-- The buffers after one blob and its commitment are written. -/
def writeFlat (ctx : KzgContext) (rows : Nat) (encoded : Nat → List Bytes) (row : Nat)
    (buffers : FlatBuffers) (slot : Nat) : FlatBuffers where
  witness := overwrite buffers.witness ((slot * rows + row) * 48)
    (commitBlob ctx ((encoded row).getD slot []))
  shards := overwrite buffers.shards (slot * (rows * blobSize) + row * blobSize)
    ((encoded row).getD slot [])

/-- The buffers after all rows are written. -/
def writeFlatRows (ctx : KzgContext) (k m rows : Nat) (encoded : Nat → List Bytes)
    (buffers : FlatBuffers) : FlatBuffers :=
  (List.range rows).foldl
    (fun buffers row => (List.range (k + m)).foldl (writeFlat ctx rows encoded row) buffers) buffers

/-- The blob that belongs to a block of the flat buffer. -/
def flatBlob (rows : Nat) (encoded : Nat → List Bytes) (block : Nat) : Bytes :=
  (encoded (block % rows)).getD (block / rows) []

/-- The blocks of the flat buffer, in the order in which they are written. -/
def flatBlocks (k m rows : Nat) : List Nat :=
  (List.range rows).flatMap fun row => (List.range (k + m)).map fun slot => slot * rows + row

/-- The flat order lists every block of the slots and no other. -/
theorem mem_flatBlocks {rows block : Nat} :
    block ∈ flatBlocks k m rows ↔ block < (k + m) * rows := by
  simp only [flatBlocks, List.mem_flatMap, List.mem_map, List.mem_range]
  constructor
  · rintro ⟨row, hrow, slot, hslot, rfl⟩
    have hmul : (slot + 1) * rows ≤ (k + m) * rows := Nat.mul_le_mul_right rows hslot
    rw [Nat.add_mul, Nat.one_mul] at hmul
    omega
  · intro hblock
    have hrows : 0 < rows := by
      rcases Nat.eq_zero_or_pos rows with rfl | hpos
      · omega
      · exact hpos
    exact ⟨block % rows, Nat.mod_lt _ hrows, block / rows,
      Nat.div_lt_of_lt_mul (by rwa [Nat.mul_comm]), Nat.div_add_mod' block rows⟩

/-- The writes to a flat buffer go block by block. The shards and the witness of the buffer are
written in one loop, so the lemma is about any of the two. -/
theorem proj_writeFlatRows {rows n : Nat} (proj : FlatBuffers → Bytes) (piece : Nat → Bytes)
    (hproj : ∀ row < rows, ∀ slot buffers, proj (writeFlat ctx rows encoded row buffers slot) =
      overwrite (proj buffers) (n * (slot * rows + row)) (piece (slot * rows + row)))
    (buffers : FlatBuffers) :
    proj (writeFlatRows ctx k m rows encoded buffers) =
      (flatBlocks k m rows).foldl (fun b block => overwrite b (n * block) (piece block))
        (proj buffers) := by
  -- one row writes the blocks of that row
  have hrow : ∀ row < rows, ∀ b : FlatBuffers,
      proj ((List.range (k + m)).foldl (writeFlat ctx rows encoded row) b) =
        ((List.range (k + m)).map fun slot => slot * rows + row).foldl
          (fun b block => overwrite b (n * block) (piece block)) (proj b) := by
    intro row hrow b
    rw [List.foldl_map]
    exact (List.foldl_hom proj fun b slot => (hproj row hrow slot b).symm).symm
  -- and the rows one after the other
  have houter : ∀ (l : List Nat), (∀ row ∈ l, row < rows) → ∀ b : FlatBuffers,
      proj (l.foldl (fun b row =>
        (List.range (k + m)).foldl (writeFlat ctx rows encoded row) b) b) =
        l.foldl (fun b row => ((List.range (k + m)).map fun slot => slot * rows + row).foldl
          (fun b block => overwrite b (n * block) (piece block)) b) (proj b) := by
    intro l hl
    induction l with
    | nil => exact fun _ => rfl
    | cons row rest ih =>
        intro b
        rw [List.foldl_cons, List.foldl_cons, ← hrow row (hl row List.mem_cons_self) b]
        exact ih (fun r hr => hl r (List.mem_cons_of_mem _ hr)) _
  rw [writeFlatRows, houter _ (fun row hrow => List.mem_range.mp hrow), foldl_foldl]
  rfl

/-- A flat buffer after all its blocks are written. The order of the writes does not matter, as each
block is written once. -/
theorem foldl_flatBlocks {rows n : Nat} (hn : 0 < n) (hrows : 0 < rows) (f : Nat → Nat → Bytes)
    (hf : ∀ slot < k + m, ∀ row < rows, (f slot row).length = n) {buffer : Bytes}
    (hbuffer : buffer.length = n * ((k + m) * rows)) :
    (flatBlocks k m rows).foldl
        (fun b block => overwrite b (n * block) (f (block / rows) (block % rows))) buffer =
      (slotMajor k m rows f).flatten := by
  have hblock : ∀ block < (k + m) * rows, (f (block / rows) (block % rows)).length = n := by
    intro block hblock
    exact hf _ (Nat.div_lt_of_lt_mul (by rwa [Nat.mul_comm])) _ (Nat.mod_lt _ hrows)
  -- every block is written, and the length stays
  obtain ⟨hlength, hword⟩ := wordAt_foldl_overwrite (fun block => f (block / rows) (block % rows))
    (flatBlocks k m rows) buffer (fun block hmem => hblock block (mem_flatBlocks.mp hmem))
    (fun block hmem => by
      rw [hbuffer, ← Nat.mul_succ]
      exact Nat.mul_le_mul_left n (mem_flatBlocks.mp hmem))
  have hwords : ∀ word ∈ slotMajor k m rows f, word.length = n := by
    intro word hword
    rw [slotMajor_eq hrows] at hword
    obtain ⟨block, hmem, rfl⟩ := List.mem_map.mp hword
    exact hblock block (List.mem_range.mp hmem)
  refine eq_of_wordAt hn (hlength.trans hbuffer) ?_ fun block hlt => ?_
  · rw [length_flatten_words hwords, slotMajor_eq hrows, List.length_map, List.length_range]
  · rw [hword, if_pos (mem_flatBlocks.mpr hlt), wordAt_flatten hwords, slotMajor_eq hrows,
      List.getD_eq_getElem?_getD, List.getElem?_map, List.getElem?_range hlt]
    rfl

/-- The place and the row of a block. -/
theorem block_div_mod {rows row : Nat} (hrow : row < rows) (slot : Nat) :
    (slot * rows + row) / rows = slot ∧ (slot * rows + row) % rows = row := by
  rw [Nat.mul_comm]
  exact ⟨by rw [Nat.mul_add_div (by omega), Nat.div_eq_of_lt hrow, Nat.add_zero],
    by rw [Nat.mul_add_mod, Nat.mod_eq_of_lt hrow]⟩

/-- The flat buffers in the end: the commitments and the blobs of one slot after the other. A buffer
that was not zero before is overwritten whole. -/
theorem writeFlatRows_eq (ctx : KzgContext) {rows : Nat} (hrows : 0 < rows)
    (hblobs : ∀ row < rows, RowBlobs k m (encoded row)) {out : FlatBuffers}
    (hshardsLen : out.shards.length = (k + m) * (rows * blobSize)) :
    (writeFlatRows ctx k m rows encoded out).shards =
        (slotMajor k m rows fun slot row => (encoded row).getD slot []).flatten ∧
      ((∀ p, (ctx.crates.g1ToCompressed p).length = 48) → out.witness.length = (k + m) * rows * 48 →
        (writeFlatRows ctx k m rows encoded out).witness =
          (slotMajor k m rows fun slot row =>
            commitBlob ctx ((encoded row).getD slot [])).flatten) := by
  constructor
  · rw [proj_writeFlatRows (n := blobSize) FlatBuffers.shards (flatBlob rows encoded)
      fun row hrow slot buffers => ?_]
    · refine foldl_flatBlocks (by decide) hrows (fun slot row => (encoded row).getD slot [])
        (fun slot hslot row hrow => (hblobs row hrow).length_getD hslot) ?_
      rw [hshardsLen, ← Nat.mul_assoc, Nat.mul_comm]
    · have hplace : blobSize * (slot * rows + row) = slot * (rows * blobSize) + row * blobSize := by
        rw [Nat.mul_comm, Nat.add_mul, Nat.mul_assoc]
      rw [flatBlob, (block_div_mod hrow slot).1, (block_div_mod hrow slot).2, hplace]
      rfl
  · intro hcompressed hwitnessLen
    -- the commitments, of 48 bytes each
    rw [proj_writeFlatRows (n := 48) FlatBuffers.witness
      (fun block => commitBlob ctx ((encoded (block % rows)).getD (block / rows) []))
      fun row hrow slot buffers => ?_]
    · refine foldl_flatBlocks (by decide) hrows (fun slot row =>
        commitBlob ctx ((encoded row).getD slot []))
        (fun slot _ row _ => ?_) (hwitnessLen.trans (Nat.mul_comm _ _))
      rw [commitBlob]
      exact hcompressed _
    · rw [(block_div_mod hrow slot).1, (block_div_mod hrow slot).2, Nat.mul_comm 48]
      rfl

/-- The shards one behind another are their blobs one behind another. -/
theorem ShardRows.flatten_eq {rows : Nat} (h : ShardRows k m rows encoded shards)
    (hblobs : ∀ row < rows, RowBlobs k m (encoded row)) :
    shards.flatten = (slotMajor k m rows fun slot row => (encoded row).getD slot []).flatten := by
  -- a shard is the blobs of its rows
  have hshard : ∀ slot < k + m, shards.getD slot [] =
      ((List.range rows).map fun row => (encoded row).getD slot []).flatten := by
    intro slot hslot
    have hwords : ∀ word ∈ (List.range rows).map fun row => (encoded row).getD slot [],
        word.length = blobSize := by
      intro word hword
      obtain ⟨row, hrow, rfl⟩ := List.mem_map.mp hword
      exact (hblobs row (List.mem_range.mp hrow)).length_getD hslot
    refine eq_of_wordAt (n := blobSize) (c := rows) (by decide) (h.shardLength slot hslot) ?_
      fun row hrow => ?_
    · rw [length_flatten_words hwords, List.length_map, List.length_range]
    · rw [wordAt_flatten hwords, h.blob slot hslot row hrow]
      have hget : ((List.range rows).map fun row => (encoded row).getD slot [])[row]? =
          some ((encoded row).getD slot []) := by
        rw [List.getElem?_map, List.getElem?_range hrow, Option.map_some]
      rw [List.getD_eq_getElem?_getD (l := List.map _ _), hget, Option.getD_some]
  have hshards : shards = (List.range (k + m)).map fun slot =>
      ((List.range rows).map fun row => (encoded row).getD slot []).flatten := by
    refine List.ext_getElem ?_ fun slot hslot hslot' => ?_
    · rw [h.length, List.length_map, List.length_range]
    · rw [← getD_eq_getElem hslot, hshard slot (by rwa [h.length] at hslot), List.getElem_map,
        List.getElem_range]
  rw [slotMajor, List.flatMap, List.flatten_flatten, List.map_map]
  exact congrArg List.flatten hshards

/-- `expand_mdu_encoded_flat` in buffers of the right sizes when every row is encoded. It checks the
sizes before the code of the crate is made, and then writes in place. -/
theorem expandMduEncodedFlat_eq (hnew : rs.new k m = .ok ()) (hk : 64 % k = 0) (hm : 0 < m)
    (hmdu : mdu.length = mduSize)
    (hencoded : ∀ row < blobsPerMdu / k, encodeRow rs mdu k m row = .ok (encoded row))
    (hblobs : ∀ row < blobsPerMdu / k, RowBlobs k m (encoded row)) {out : FlatBuffers}
    (hwitnessLen : out.witness.length = (k + m) * (blobsPerMdu / k) * 48)
    (hshardsLen : out.shards.length = (k + m) * (blobsPerMdu / k * blobSize)) :
    expandMduEncodedFlat ctx rs mdu k m out =
      .ok (writeFlatRows ctx k m (blobsPerMdu / k) encoded out) := by
  have hsize : rejectIf (mdu.length ≠ mduSize) CodingError.invalidSize = .ok () :=
    if_neg (not_not.mpr hmdu)
  have hbuffers : rejectIf (out.witness.length ≠ (k + m) * (blobsPerMdu / k) * 48 ∨
      out.shards.length ≠ (k + m) * (blobsPerMdu / k * blobSize)) CodingError.invalidSize =
        .ok () :=
    if_neg (by simp [hwitnessLen, hshardsLen])
  have hnew : (rs.new k m).mapError CodingError.rs = .ok () := by
    rw [hnew]
    rfl
  -- one row, and in it one slot after the other
  have hloop : (List.range (blobsPerMdu / k)).foldlM
      (expandFlatRow ctx rs mdu k m (blobsPerMdu / k)) out =
        .ok (writeFlatRows ctx k m (blobsPerMdu / k) encoded out) := by
    refine (foldlM_eq_ok (fun _ => True) _ (fun buffers _ row hrow => ⟨?_, trivial⟩) _ trivial).1
    have hrow := List.mem_range.mp hrow
    rw [expandFlatRow, hencoded row hrow]
    refine (foldlM_eq_ok (fun _ => True) _ (fun b _ slot hslot => ⟨?_, trivial⟩) _ trivial).1
    rw [expandFlatSlot,
      blobToCommitment_ok ((hblobs row hrow).length_getD (List.mem_range.mp hslot))]
    rfl
  exact except_bind_ok.mpr ⟨(), hsize, except_bind_ok.mpr ⟨(), checkRsParams_ok hk hm,
    except_bind_ok.mpr ⟨(), hbuffers, except_bind_ok.mpr ⟨(), hnew, hloop⟩⟩⟩⟩

/-- An MDU has a row for every `K` of its blobs. -/
theorem rows_pos (hk : 64 % k = 0) : 0 < blobsPerMdu / k := by
  have hmul := rows_mul hk
  rcases Nat.eq_zero_or_pos (blobsPerMdu / k) with h0 | hpos
  · rw [h0] at hmul
    omega
  · exact hpos

/-- `expand_mdu_encoded_flat` succeeds in buffers of the right sizes, and leaves the shards one
behind another. -/
theorem expandMduEncodedFlat_ok (hnew : rs.new k m = .ok ()) (hk : 64 % k = 0) (hm : 0 < m)
    (hmdu : mdu.length = mduSize)
    (hencoded : ∀ row < blobsPerMdu / k, RowCode rs k m coeff mdu row (encoded row))
    (hshards : ShardRows k m (blobsPerMdu / k) encoded shards) {out : FlatBuffers}
    (hwitnessLen : out.witness.length = (k + m) * (blobsPerMdu / k) * 48)
    (hshardsLen : out.shards.length = (k + m) * (blobsPerMdu / k * blobSize)) :
    ∃ flat, expandMduEncodedFlat ctx rs mdu k m out = .ok flat ∧ flat.shards = shards.flatten := by
  have hblobs : ∀ row < blobsPerMdu / k, RowBlobs k m (encoded row) :=
    fun row hrow => (hencoded row hrow).blobs
  refine ⟨_,
    expandMduEncodedFlat_eq hnew hk hm hmdu (fun row hrow => (hencoded row hrow).encoded_ok) hblobs
    hwitnessLen hshardsLen, ?_⟩
  rw [(writeFlatRows_eq ctx (rows_pos hk) hblobs hshardsLen).1, hshards.flatten_eq hblobs]

end Expand

/-! ### Reconstructing -/

section Reconstruct

variable {rs : ReedSolomon} {k m rows : Nat} {coeff : Nat → Nat → UInt8} {mdu : Bytes}
  {encoded : Nat → List Bytes} {shards : List Bytes}

/-- The blobs of an MDU in the order in which they are restored. -/
def blobOrder (k rows : Nat) : List Nat :=
  (List.range rows).flatMap fun row => (List.range k).map fun slot => row * k + slot

/-- The blob order lists every blob of the MDU. -/
theorem mem_blobOrder {block : Nat} (hk : k * rows = 64) :
    block ∈ blobOrder k rows ↔ block < 64 := by
  simp only [blobOrder, List.mem_flatMap, List.mem_map, List.mem_range]
  constructor
  · rintro ⟨row, hrow, slot, hslot, rfl⟩
    have hmul : (row + 1) * k ≤ rows * k := Nat.mul_le_mul_right k hrow
    rw [Nat.add_mul, Nat.one_mul, Nat.mul_comm rows, hk] at hmul
    omega
  · intro hblock
    have hk0 : 0 < k := by
      rcases Nat.eq_zero_or_pos k with rfl | hpos
      · omega
      · exact hpos
    exact ⟨block / k, Nat.div_lt_of_lt_mul (by rwa [hk]), block % k, Nat.mod_lt _ hk0,
      Nat.div_add_mod' block k⟩

/-- The loops of the reconstruction put every blob of the MDU back: row by row, and in a row slot by
slot, which is the order of the MDU. -/
theorem restore_ok (hk : 64 % k = 0) (hmdu : mdu.length = mduSize)
    (hshards : ShardRows k m (blobsPerMdu / k) encoded shards)
    (hencoded : ∀ row < blobsPerMdu / k, ∀ slot < k,
      (encoded row).getD slot [] = wordAt blobSize (row * k + slot) mdu) :
    (List.range (blobsPerMdu / k)).foldlM (fun mdu rowIdx => (List.range k).foldlM
      (restoreBlob (shards.map some) k rowIdx) mdu) (List.replicate mduSize 0) = .ok mdu := by
  have hrows := rows_mul hk
  generalize blobsPerMdu / k = rows at *
  have hstep : ∀ row ∈ List.range rows, ∀ b : Bytes,
      (List.range k).foldlM (restoreBlob (shards.map some) k row) b =
        .ok (((List.range k).map fun slot => row * k + slot).foldl
          (fun b block => overwrite b (blobSize * block) (wordAt blobSize block mdu)) b) := by
    intro row hrow b
    rw [List.foldl_map]
    refine (foldlM_eq_ok (fun _ => True) _ (fun b _ slot hslot => ⟨?_, trivial⟩) b trivial).1
    have hslot := List.mem_range.mp hslot
    have hrow := List.mem_range.mp hrow
    have hlt : slot < shards.length := by
      rw [hshards.length]
      omega
    have hshard : (shards.map some).getD slot none = some (shards.getD slot []) := by
      rw [List.getD_eq_getElem?_getD, List.getElem?_map, List.getElem?_eq_getElem hlt,
        getD_eq_getElem hlt]
      rfl
    -- The blob stands where the expansion has put it.
    have hblob : ((shards.getD slot []).drop (row * blobSize)).take blobSize =
        wordAt blobSize (row * k + slot) mdu := by
      rw [Nat.mul_comm row]
      exact (hshards.blob slot (by omega) row hrow).trans (hencoded row hrow slot hslot)
    rw [restoreBlob, hshard, Nat.mul_comm blobSize, ← hblob]
    rfl
  rw [(foldlM_eq_ok (fun _ => True) _ (fun b _ row hrow =>
    ⟨hstep row hrow b, trivial⟩) _ trivial).1,
    foldl_foldl]
  have hlt : ∀ block ∈ blobOrder k rows, block < 64 := fun block => (mem_blobOrder hrows).mp
  obtain ⟨hlength, hword⟩ := wordAt_foldl_overwrite (fun block => wordAt blobSize block mdu)
    (blobOrder k rows) (List.replicate mduSize 0) (fun block hmem =>
      length_blob hmdu (hlt block hmem))
    (fun block hmem => by
      have hblock := hlt block hmem
      rw [List.length_replicate, mduSize, blobSize]
      omega)
  congr 1
  -- every block of the MDU is written by one of the rows
  refine eq_of_wordAt (n := blobSize) (c := 64) (by decide) ?_ hmdu fun block hblock => ?_
  · exact hlength.trans List.length_replicate
  · exact (hword block).trans (if_pos ((mem_blobOrder hrows).mpr hblock))

/-- The MDU is reconstructed from its shards when at most `M` of them are missing. The checks of the
function pass, the crate restores the shards, and the data shards are put back. -/
theorem reconstruct_ok (hcode : ErasureCode rs k m coeff) (hk : 64 % k = 0) (hm : 0 < m)
    (hmdu : mdu.length = mduSize)
    (hencoded : ∀ row < blobsPerMdu / k, RowCode rs k m coeff mdu row (encoded row))
    (hshards : ShardRows k m (blobsPerMdu / k) encoded shards) {remaining : List (Option Bytes)}
    (herased : Erased shards remaining) (hmissing : remaining.countP (·.isNone) ≤ m) :
    reconstructMduFromShards rs remaining k m = .ok mdu := by
  have hcodeword := hshards.codeword fun row hrow => (hencoded row hrow).codeword
  have hrows := rows_pos hk
  -- the checks, in their order
  have hcount : rejectIf (remaining.length ≠ k + m) CodingError.invalidRsParams = .ok () :=
    if_neg (not_not.mpr (herased.length_eq.trans hshards.length))
  have hsizes : rejectIf (∃ bytes ∈ remaining.filterMap id, bytes.length ≠
      blobsPerMdu / k * blobSize)
      CodingError.invalidSize = .ok () := by
    refine if_neg ?_
    rintro ⟨shard, hmem, hlength⟩
    have hmem : some shard ∈ remaining := by simpa using hmem
    exact hlength ((hcodeword.shardLength shard (herased.mem hmem)).trans (Nat.mul_comm _ _))
  have hpresent : rejectIf (remaining.countP (·.isSome) < k)
      (CodingError.rs "not enough shards to reconstruct") = .ok () := by
    refine if_neg ?_
    -- at most `M` are missing, so `K` are there
    have hsplit :=
      List.length_eq_countP_add_countP (l := remaining) (fun o : Option Bytes => o.isSome)
    have hnone : remaining.countP (fun o => decide ¬(o.isSome = true)) =
        remaining.countP (·.isNone) :=
      List.countP_congr fun o _ => by cases o <;> simp
    rw [hnone, herased.length_eq, hshards.length] at hsplit
    omega
  have hnew : (rs.new k m).mapError CodingError.rs = .ok () := by
    rw [hcode.new_ok]
    rfl
  have hreconstruct : (rs.reconstruct k m remaining).mapError CodingError.rs =
      .ok (shards.map some) := by
    rw [hcode.reconstruct_ok _ shards remaining (Nat.mul_pos (by decide) hrows) hcodeword herased
      hmissing]
    rfl
  exact except_bind_ok.mpr ⟨(), checkRsParams_ok hk hm, except_bind_ok.mpr ⟨(), hcount,
    except_bind_ok.mpr ⟨(), hsizes, except_bind_ok.mpr ⟨(), hpresent, except_bind_ok.mpr ⟨(), hnew,
      except_bind_ok.mpr ⟨_, hreconstruct,
        restore_ok hk hmdu hshards fun row hrow => (hencoded row hrow).data⟩⟩⟩⟩⟩⟩

end Reconstruct

/-! ### Canonical words -/

/-- A word with a zero top byte, and so a canonical scalar. -/
def CanonicalWord (word : Bytes) : Prop := word.head? = some 0 ∧ ofBeBytes word < frModulus

/-- A word that starts with a zero byte is below the modulus. -/
theorem canonicalWord_of_head {word : Bytes} (hlength : word.length = 32)
    (hhead : word.head? = some 0) : CanonicalWord word := by
  refine ⟨hhead, ?_⟩
  cases word with
  | nil => cases hhead
  | cons top rest =>
      cases hhead
      have hrest : rest.length = 31 := by
        rw [List.length_cons] at hlength
        omega
      -- The zero on top adds nothing to the number that the other bytes write.
      have hvalue : ofBeBytes (0 :: rest) = ofBeBytes rest := rfl
      have hlt := ofBeBytes_lt rest
      rw [hvalue]
      rw [hrest] at hlt
      exact hlt.trans (by decide)

section Canonical

variable {k m rows : Nat} {coeff : Nat → Nat → UInt8} {mdu : Bytes} {encoded : Nat → List Bytes}
  {shards : List Bytes}

/-- The first byte of a word of a buffer. -/
theorem head?_wordAt (w : Nat) (l : Bytes) : (wordAt 32 w l).head? = l[32 * w]? := by
  rw [List.head?_eq_getElem?, getElem?_wordAt (by decide), Nat.add_zero]

/-- Where the words of the MDU have a zero on top, those of all shards have it. The parity is
computed byte by byte, and a parity of zeros is zero. -/
theorem canonicalWord_shard (hk : 64 % k = 0)
    (hencoded : ∀ row < blobsPerMdu / k, ∀ slot < k,
      (encoded row).getD slot [] = wordAt blobSize (row * k + slot) mdu)
    (hshards : ShardRows k m (blobsPerMdu / k) encoded shards)
    (hcodeword : Codeword coeff k m (blobSize * (blobsPerMdu / k)) shards)
    (htop : ∀ w < scalarsPerMdu, (wordAt 32 w mdu).head? = some 0) {shard : Bytes}
    (hshard : shard ∈ shards) {w : Nat} (hw : w < blobsPerMdu / k * 4096) :
    CanonicalWord (wordAt 32 w shard) := by
  have hplace : 32 * w + 32 ≤ blobSize * (blobsPerMdu / k) := by
    rw [blobSize]
    omega
  have hlength := hcodeword.shardLength shard hshard
  refine canonicalWord_of_head (length_wordAt (by omega)) ?_
  -- In the data shards the byte is the top byte of a word of the MDU.
  have hdata : ∀ slot < k, shardByte shards slot (32 * w) = 0 := by
    intro slot hslot
    have hrow : 32 * w / blobSize < blobsPerMdu / k := by
      refine Nat.div_lt_of_lt_mul ?_
      omega
    have hblock := blobIdx_lt hk hrow hslot
    have hmod : 32 * w % blobSize < blobSize := Nat.mod_lt _ (by decide)
    have hword : blobSize * (32 * w / blobSize * k + slot) + 32 * w % blobSize =
        32 * ((32 * w / blobSize * k + slot) * 4096 + w % 4096) := by
      rw [blobSize]
      omega
    have hlt : (32 * w / blobSize * k + slot) * 4096 + w % 4096 < scalarsPerMdu := by
      rw [scalarsPerMdu]
      omega
    have htop := htop _ hlt
    rw [head?_wordAt] at htop
    rw [shardByte, List.getD_eq_getElem?_getD, getElem?_eq_wordAt (n := blobSize) (by decide),
      hshards.blob slot (by omega) _ hrow, hencoded _ hrow slot hslot, getElem?_wordAt hmod, hword,
      htop]
    rfl
  -- so in the parity shards it is zero too
  obtain ⟨slot, hslot, rfl⟩ := List.getElem_of_mem hshard
  have hzero :=
    hcodeword.parity_eq_zero (by omega) hdata slot (by rw [← hcodeword.length]; exact hslot)
  rw [shardByte, getD_eq_getElem hslot, List.getD_eq_getElem?_getD,
    List.getElem?_eq_getElem (by omega), Option.getD_some] at hzero
  rw [head?_wordAt, List.getElem?_eq_getElem (by omega), hzero]

end Canonical

/-- Every MDU is expanded by both functions to the same shards, and comes back from any of these as
long as at most `M` are missing. When every word of the MDU has a zero top byte, so has every word
of every shard, which makes it a canonical scalar. (The crate has a code for up to 256 shards.) -/
theorem erasure_roundTrip (ctx : KzgContext) (rs : ReedSolomon) (k m : Nat)
    (coeff : Nat → Nat → UInt8) (hk : k ∣ 64) (hm : 1 ≤ m) (hcode : ErasureCode rs k m coeff)
    (mdu : Bytes) (hmdu : mdu.length = mduSize) :
    ∃ expanded, expandMduEncoded ctx rs mdu k m = .ok expanded ∧
      (∀ out : FlatBuffers, out.witness.length = (k + m) * (blobsPerMdu / k) * 48 →
        out.shards.length = (k + m) * (blobsPerMdu / k * blobSize) →
        ∃ flat, expandMduEncodedFlat ctx rs mdu k m out = .ok flat ∧
          flat.shards = expanded.shards.flatten) ∧
      (expanded.shards.length = k + m ∧
        ∀ shard ∈ expanded.shards, shard.length = blobsPerMdu / k * blobSize) ∧
      (∀ remaining, Erased expanded.shards remaining → remaining.countP (·.isNone) ≤ m →
        reconstructMduFromShards rs remaining k m = .ok mdu) ∧
      ((∀ w < scalarsPerMdu, (wordAt 32 w mdu).head? = some 0) →
        ∀ shard ∈ expanded.shards, ∀ w < blobsPerMdu / k * 4096,
          CanonicalWord (wordAt 32 w shard)) := by
  have hk : 64 % k = 0 := Nat.mod_eq_zero_of_dvd hk
  -- every row has its encoding
  have hrow : ∀ row, ∃ encoded, row < blobsPerMdu / k → RowCode rs k m coeff mdu row encoded := by
    intro row
    by_cases hlt : row < blobsPerMdu / k
    · obtain ⟨encoded, hencoded⟩ := exists_rowCode hcode hk hmdu hlt
      exact ⟨encoded, fun _ => hencoded⟩
    · exact ⟨[], fun h => absurd h hlt⟩
  choose encoded hencoded using hrow
  obtain ⟨expanded, hexpanded, hshards⟩ :=
    expandMduEncoded_ok ctx hcode.new_ok hk hm hmdu hencoded
  have hcodeword := hshards.codeword fun row hrow => (hencoded row hrow).codeword
  refine ⟨expanded, hexpanded, ?_, ⟨hshards.length, ?_⟩, ?_, ?_⟩
  · intro out hwitnessLen hshardsLen
    exact expandMduEncodedFlat_ok hcode.new_ok hk hm hmdu hencoded hshards hwitnessLen hshardsLen
  · intro shard hshard
    rw [hcodeword.shardLength shard hshard, Nat.mul_comm]
  -- the reconstruction from what is left
  · intro remaining herased hmissing
    exact reconstruct_ok hcode hk hm hmdu hencoded hshards herased hmissing
  · intro htop shard hshard w hw
    exact canonicalWord_shard hk (fun row hrow => (hencoded row hrow).data) hshards hcodeword
      htop hshard hw

/-! ### One data and one parity shard -/

/-- The code of the crate for one data and one parity shard: the parity is a copy. -/
def mirrorCode : ReedSolomon where
  new := fun _ _ => .ok ()
  encode := fun _ _ row =>
    match row with
    | [data, _] => .ok [data, data]
    | _ => .error "The number of shards is not correct"
  reconstruct := fun _ _ shards =>
    match shards with
    | [some data, none] => .ok [some data, some data]
    | [none, some parity] => .ok [some parity, some parity]
    | [some data, some parity] => .ok [some data, some parity]
    | _ => .error "The number of shards is smaller than number of data shards"

/-- The mirror code has two equal shards: with one data shard and the coefficient 1 the parity is
the data. -/
theorem codeword_mirrorCode {n : Nat} {shards : List Bytes} :
    Codeword (fun _ _ => 1) 1 1 n shards ↔ ∃ data, data.length = n ∧ shards = [data, data] := by
  -- The only parity byte is the only data byte.
  have hdot : ∀ column : Nat → UInt8, gfDot (fun _ => 1) 1 column = column 0 := by
    intro column
    show 0 ^^^ gfMul 1 (column 0) = column 0
    rw [one_gfMul, UInt8.zero_xor]
  constructor
  -- the shards of a codeword are two
  · intro h
    obtain ⟨data, parity, rfl⟩ := List.length_eq_two.mp h.length
    have hdata := h.shardLength data (by simp)
    have hparity := h.shardLength parity (by simp)
    refine ⟨data, hdata, ?_⟩
    have heq : parity = data := by
      refine List.ext_getElem (hparity.trans hdata.symm) fun p hp hp' => ?_
      have hbyte := h.parity 0 Nat.one_pos p (by omega)
      rw [hdot] at hbyte
      have hbyte : parity.getD p 0 = data.getD p 0 := hbyte
      rwa [List.getD_eq_getElem _ _ hp, List.getD_eq_getElem _ _ hp'] at hbyte
    rw [heq]
  · rintro ⟨data, hdata, rfl⟩
    refine ⟨rfl, ?_, fun j hj p hp => ?_⟩
    · intro shard hshard
      have hshard : shard = data := by simpa using hshard
      rw [hshard, hdata]
    · have hj : j = 0 := by omega
      rw [hj, hdot]
      rfl

/-- The mirror code corrects one loss. -/
theorem erasureCode_mirrorCode : ErasureCode mirrorCode 1 1 (fun _ _ => 1) where
  new_ok := rfl
  encode_ok := by
    intro n row hn hlength hshards
    obtain ⟨data, parity, rfl⟩ := List.length_eq_two.mp hlength
    exact ⟨[data, data], rfl, rfl,
      codeword_mirrorCode.mpr ⟨data, hshards data (by simp), rfl⟩⟩
  reconstruct_ok := by
    intro n shards remaining hn hcodeword herased hmissing
    obtain ⟨data, -, rfl⟩ := codeword_mirrorCode.mp hcodeword
    obtain ⟨first, tail, hfirst, htail, rfl⟩ := List.forall₂_cons_left_iff.mp herased
    obtain ⟨second, last, hsecond, hlast, rfl⟩ := List.forall₂_cons_left_iff.mp htail
    cases List.forall₂_nil_left_iff.mp hlast
    rcases hfirst with rfl | rfl <;> rcases hsecond with rfl | rfl
    · exact absurd hmissing (by decide)
    · rfl
    · rfl
    · rfl

/-- The MDU of a short payload, with its data shard lost. -/
theorem erasure_roundTrip_mirrorCode : ∃ shard,
    reconstructMduFromShards mirrorCode [none, some shard] 1 1 = .ok (payloadMdu [1, 2, 3]) ∧
      CanonicalWord (wordAt 32 0 shard) := by
  obtain ⟨expanded, -, -, ⟨hlength, -⟩, hreconstruct, hcanonical⟩ :=
    erasure_roundTrip Gateway.identitySetup mirrorCode 1 1 (fun _ _ => 1) (by decide) le_rfl
      erasureCode_mirrorCode (payloadMdu [1, 2, 3]) (length_payloadMdu (by decide))
  obtain ⟨data, parity, hshards⟩ := List.length_eq_two.mp hlength
  rw [hshards] at hreconstruct hcanonical
  refine ⟨parity, hreconstruct _ ?_ (by simp), hcanonical ?_ parity (by simp) 0 (by decide)⟩
  · exact .cons (Or.inl rfl) (.cons (Or.inr rfl) .nil)
  · intro w hw
    rw [scalar_payloadMdu hw, alignRight]
    have hpad : 32 - ((([1, 2, 3] : Bytes).drop (31 * w)).take 31).length =
        31 - ((([1, 2, 3] : Bytes).drop (31 * w)).take 31).length + 1 := by
      rw [List.length_take]
      omega
    rw [hpad, List.replicate_succ]
    rfl

end NilStore.Core
