import NilStore.Core.Expand
import NilStore.Proofs.ErasureRoundTrip

/-!
# `NilStore.Proofs.PayloadExpansion`: the expansions of a payload agree

The encoder may refuse a row. Then every expansion fails with its error, since nothing else can fail
before it (`expand_error`). Otherwise the rows are encoded, and the buffers of the flat expansions
are what the plain expansion returns, one piece behind another (`expandPayloadFlat_eq`).

The data shards of an expansion give its MDU back, and the MDU gives its payload back, but
`expand_mdu` takes more bytes than the payload of an MDU: the bytes after `MDU_PAYLOAD_BYTES` leave
no trace (`expandMdu_dataShards_ne_iff`).
-/

set_option autoImplicit false

namespace NilStore.Core

open NilStore.Lib

/-- `ReedSolomon::encode` works in place: the number of the shards and their size stay. -/
def EncodesInPlace (rs : ReedSolomon) (k m : Nat) : Prop :=
  ∀ (n : Nat) (row encoded : List Bytes), (∀ shard ∈ row, shard.length = n) →
    rs.encode k m row = .ok encoded →
      encoded.length = row.length ∧ ∀ shard ∈ encoded, shard.length = n

/-- `ReedSolomon::encode` does not touch the data shards. -/
def KeepsData (rs : ReedSolomon) (k m : Nat) : Prop :=
  ∀ row encoded : List Bytes, rs.encode k m row = .ok encoded → encoded.take k = row.take k

section Rows

variable {ctx : KzgContext} {rs : ReedSolomon} {k m : Nat} {mdu : Bytes}
    {encoded : Nat → List Bytes}

/-- A row that was encoded was encoded by the code. -/
theorem encode_of_encodeRow {row : Nat} {blobs : List Bytes}
    (h : encodeRow rs mdu k m row = .ok blobs) :
    rs.encode k m (rowShards mdu k m row) = .ok blobs := by
  rw [encodeRow] at h
  cases hencode : rs.encode k m (rowShards mdu k m row) with
  | error text =>
      rw [hencode] at h
      cases h
  | ok blobs' =>
      rw [hencode] at h
      cases h
      rfl

/-- An encoded row has as many blobs as there are shards. -/
theorem rowBlobs_of_encodeRow (hrs : EncodesInPlace rs k m) (hk : 64 % k = 0)
    (hmdu : mdu.length = mduSize) {row : Nat} (hrow : row < blobsPerMdu / k) {blobs : List Bytes}
    (h : encodeRow rs mdu k m row = .ok blobs) : RowBlobs k m blobs := by
  have hshards := rowBlobs_rowShards (m := m) hk hmdu hrow
  obtain ⟨hlength, hblobs⟩ := hrs blobSize _ _ hshards.blobLength (encode_of_encodeRow h)
  exact ⟨hlength.trans hshards.length, hblobs⟩

/-- Either all rows are encoded, or some row is the first that is refused. -/
theorem encodeRows_cases (rs : ReedSolomon) (mdu : Bytes) (k m rows : Nat) :
    (∃ e, (List.range rows).mapM (encodeRow rs mdu k m) = .error e) ∨
      ∃ encoded : Nat → List Bytes, ∀ row < rows, encodeRow rs mdu k m row = .ok (encoded row) := by
  cases hrows : (List.range rows).mapM (encodeRow rs mdu k m) with
  | error e => exact .inl ⟨e, rfl⟩
  | ok blobs =>
      have hrow : ∀ row, ∃ blobs, row < rows → encodeRow rs mdu k m row = .ok blobs := by
        intro row
        by_cases hlt : row < rows
        · obtain ⟨blobs, -, hblobs⟩ := (mem_of_mapM_eq_ok hrows).2 row (List.mem_range.mpr hlt)
          exact ⟨blobs, fun _ => hblobs⟩
        · exact ⟨[], fun h => absurd h hlt⟩
      choose encoded hencoded using hrow
      exact .inr ⟨encoded, hencoded⟩

/-- The error of the first refused row is the error of both expansions. Both check the same things
in the same order, and encode the rows in the same order. -/
theorem expand_error (ctx : KzgContext) (hrs : EncodesInPlace rs k m) (hnew : rs.new k m = .ok ())
    (hk : 64 % k = 0) (hm : 0 < m) (hmdu : mdu.length = mduSize) {e : CodingError}
    (hrows : (List.range (blobsPerMdu / k)).mapM (encodeRow rs mdu k m) = .error e)
    {out : FlatBuffers} (hwitnessLen : out.witness.length = (k + m) * (blobsPerMdu / k) * 48)
    (hshardsLen : out.shards.length = (k + m) * (blobsPerMdu / k * blobSize)) :
    expandMduEncoded ctx rs mdu k m = .error e ∧ expandMduEncodedFlat ctx rs mdu k m out =
      .error e := by
  -- the checks before the rows
  have hsize : rejectIf (mdu.length ≠ mduSize) CodingError.invalidSize = .ok () :=
    if_neg (not_not.mpr hmdu)
  have hbuffers : rejectIf (out.witness.length ≠ (k + m) * (blobsPerMdu / k) * 48 ∨
      out.shards.length ≠ (k + m) * (blobsPerMdu / k * blobSize)) CodingError.invalidSize =
        .ok () :=
    if_neg (by simp [hwitnessLen, hshardsLen])
  have hnew : (rs.new k m).mapError CodingError.rs = .ok () := by
    rw [hnew]
    rfl
  have hparams : checkRsParams k m = .ok () := checkRsParams_ok hk hm
  constructor
  · have hloop : ∀ shards, (List.range (blobsPerMdu / k)).foldlM (expandRow rs mdu k m) shards =
        .error e := by
      intro shards
      refine foldlM_error (fun s row e h => ?_) (fun row _ blobs h s =>
          ⟨List.zipWith (fun shard blob =>
        overwrite shard (row * blobSize) blob) s blobs, ?_⟩) hrows shards
      · rw [expandRow, h]
        rfl
      · rw [expandRow, h]
        rfl
    rw [expandMduEncoded, hsize, hparams, hnew]
    simp only [hloop]
    rfl
  -- the flat one, which commits to each row before the next is encoded
  · have hloop : (List.range (blobsPerMdu / k)).foldlM
        (expandFlatRow ctx rs mdu k m (blobsPerMdu / k)) out = .error e := by
      refine foldlM_error (fun s row e h => ?_) (fun row hrow blobs h s =>
        ⟨(List.range (k + m)).foldl
        (writeFlat ctx (blobsPerMdu / k) (fun _ => blobs) row) s, ?_⟩) hrows out
      · rw [expandFlatRow, h]
        rfl
      · -- The commitments of an encoded row do not fail.
        have hblobs := rowBlobs_of_encodeRow hrs hk hmdu (List.mem_range.mp hrow) h
        rw [expandFlatRow, h]
        refine (foldlM_eq_ok (g := writeFlat ctx (blobsPerMdu / k) (fun _ => blobs) row)
          (fun _ => True) _
          (fun b _ slot hslot => ⟨?_, trivial⟩) _ trivial).1
        rw [expandFlatSlot, blobToCommitment_ok (hblobs.length_getD (List.mem_range.mp hslot))]
        rfl
    rw [expandMduEncodedFlat, hsize, hparams, hnew]
    simp only [hbuffers, hloop]
    rfl

end Rows

/-- The buffers of the flat expansions for an expansion. -/
def ExpandedMdu.flat (expanded : ExpandedMdu) : FlatBuffers where
  witness := expanded.witness.flatten
  shards := expanded.shards.flatten

/-- The flat expansion of an MDU is its expansion, one piece behind another. A failure is the same
failure. -/
theorem expandMduEncodedFlat_eq_map (ctx : KzgContext) (rs : ReedSolomon) (k m : Nat)
    (hrs : EncodesInPlace rs k m) (hcompressed : ∀ p, (ctx.crates.g1ToCompressed p).length = 48)
    (hk : 64 % k = 0) (hm : 0 < m) (mdu : Bytes) (hmdu : mdu.length = mduSize) (out : FlatBuffers)
    (hwitnessLen : out.witness.length = (k + m) * (blobsPerMdu / k) * 48)
    (hshardsLen : out.shards.length = (k + m) * (blobsPerMdu / k * blobSize)) :
    expandMduEncodedFlat ctx rs mdu k m out =
      (expandMduEncoded ctx rs mdu k m).map ExpandedMdu.flat := by
  -- the code may not exist
  cases hnew : rs.new k m with
  | error text =>
      have hsize : rejectIf (mdu.length ≠ mduSize) CodingError.invalidSize = .ok () :=
        if_neg (not_not.mpr hmdu)
      have hbuffers : rejectIf (out.witness.length ≠ (k + m) * (blobsPerMdu / k) * 48 ∨
          out.shards.length ≠ (k + m) * (blobsPerMdu / k * blobSize)) CodingError.invalidSize =
            .ok () :=
        if_neg (by simp [hwitnessLen, hshardsLen])
      rw [expandMduEncodedFlat, expandMduEncoded, hsize, checkRsParams_ok hk hm, hnew]
      simp only [hbuffers]
      rfl
  | ok u =>
      rcases encodeRows_cases rs mdu k m (blobsPerMdu / k) with ⟨e, hrows⟩ | ⟨encoded, hencoded⟩
      -- a row may be refused
      · obtain ⟨hplain, hflat⟩ := expand_error ctx hrs hnew hk hm hmdu hrows hwitnessLen hshardsLen
        rw [hplain, hflat]
        rfl
      -- and when all rows are encoded, the two write the same pieces
      · have hblobs : ∀ row < blobsPerMdu / k, RowBlobs k m (encoded row) :=
          fun row hrow => rowBlobs_of_encodeRow hrs hk hmdu hrow (hencoded row hrow)
        have hflat := writeFlatRows_eq ctx (rows_pos hk) hblobs hshardsLen
        rw [expandMduEncodedFlat_eq hnew hk hm hmdu hencoded hblobs hwitnessLen hshardsLen,
          expandMduEncoded_eq ctx hnew hk hm hmdu hencoded hblobs]
        refine congrArg Except.ok ?_
        show writeFlatRows ctx k m (blobsPerMdu / k) encoded out = FlatBuffers.mk _ _
        rw [(shardRows_writeRows hblobs).flatten_eq hblobs, ← hflat.1,
          ← hflat.2 hcompressed hwitnessLen]

/-- The three expansions of a payload leave the same witness and the same shards, and fail
together. -/
theorem expandPayloadFlat_eq (ctx : KzgContext) (rs : ReedSolomon) (k m : Nat)
    (hrs : EncodesInPlace rs k m)
    (hcompressed : ∀ p, (ctx.crates.g1ToCompressed p).length = 48) (hk : k ∣ 64) (hm : 1 ≤ m)
    (payload : Bytes) (hpayload : payload.length ≤ mduPayloadBytes) (out : FlatBuffers)
    (hwitnessLen : out.witness.length = (k + m) * (blobsPerMdu / k) * 48)
    (hshardsLen : out.shards.length = (k + m) * (blobsPerMdu / k * blobSize)) :
    expandPayloadFlat ctx rs payload k m out =
        expandMduEncodedFlat ctx rs (encodeToMdu payload) k m out ∧
      expandMduEncodedFlat ctx rs (encodeToMdu payload) k m out =
        (expandMduEncoded ctx rs (encodeToMdu payload) k m).map fun expanded =>
          ⟨expanded.witness.flatten, expanded.shards.flatten⟩ := by
  have hmdu : (encodeToMdu payload).length = mduSize := by
    rw [encodeToMdu_eq, List.take_of_length_le hpayload, length_payloadMdu hpayload]
  exact ⟨expandPayloadFlat_eq_expandMduEncodedFlat ctx rs payload k m out,
    expandMduEncodedFlat_eq_map ctx rs k m hrs hcompressed (Nat.mod_eq_zero_of_dvd hk) hm _ hmdu out
      hwitnessLen hshardsLen⟩

/-- The identity setup compresses every point to 48 bytes. -/
theorem length_g1ToCompressed_identitySetup (p : Scalar) :
    (Gateway.identitySetup.crates.g1ToCompressed p).length = 48 := by
  show (if p = 0 then Chain.identityPoint else beBytes 48 p.val).length = 48
  split
  · decide
  · exact length_beBytes 48 p.val

/-- The expansions of a short payload. -/
theorem expandPayloadFlat_eq_mirrorCode :
    expandPayloadFlat Gateway.identitySetup mirrorCode [1, 2, 3] 1 1
        ⟨List.replicate (128 * 48) 0, List.replicate (128 * blobSize) 0⟩ =
      (expandMduEncoded Gateway.identitySetup mirrorCode (encodeToMdu [1, 2, 3]) 1 1).map
          fun expanded =>
        ⟨expanded.witness.flatten, expanded.shards.flatten⟩ := by
  have hrs : EncodesInPlace mirrorCode 1 1 := by
    intro n row encoded hrow h
    match row, h with
    | [data, parity], h =>
        cases h
        have hdata := hrow data List.mem_cons_self
        exact ⟨rfl, by simpa using hdata⟩
  obtain ⟨hflat, hplain⟩ := expandPayloadFlat_eq Gateway.identitySetup mirrorCode 1 1 hrs
    length_g1ToCompressed_identitySetup (by decide) le_rfl [1, 2, 3] (by decide)
    ⟨List.replicate (128 * 48) 0, List.replicate (128 * blobSize) 0⟩ List.length_replicate
    (List.length_replicate.trans (by decide))
  exact hflat.trans hplain

/-! ### The data shards -/

section DataShards

variable {ctx : KzgContext} {rs : ReedSolomon} {k m : Nat} {mdu mdu' : Bytes}
    {expanded expanded' : ExpandedMdu}

/-- What an expansion that succeeds has done: the code exists, every row is encoded, and the first
`K` blobs of a row are those of the MDU. -/
theorem exists_rows_of_expandMduEncoded (hrs : EncodesInPlace rs k m) (hdata : KeepsData rs k m)
    (hk : 64 % k = 0) (hm : 0 < m) (hmdu : mdu.length = mduSize)
    (h : expandMduEncoded ctx rs mdu k m = .ok expanded) :
    ∃ encoded : Nat → List Bytes, ShardRows k m (blobsPerMdu / k) encoded expanded.shards ∧
      ∀ row < blobsPerMdu / k, ∀ slot < k,
        (encoded row).getD slot [] = wordAt blobSize (row * k + slot) mdu := by
  have hnew : rs.new k m = .ok () := by
    rw [expandMduEncoded, except_bind_ok] at h
    obtain ⟨_, -, h⟩ := h
    obtain ⟨_, -, h⟩ := except_bind_ok.mp h
    obtain ⟨_, hnew, -⟩ := except_bind_ok.mp h
    cases hcode : rs.new k m with
    | error text =>
        rw [hcode] at hnew
        cases hnew
    | ok u => rfl
  rcases encodeRows_cases rs mdu k m (blobsPerMdu / k) with ⟨e, hrows⟩ | ⟨encoded, hencoded⟩
  · -- The buffers do not matter here.
    obtain ⟨herror, -⟩ : expandMduEncoded ctx rs mdu k m = .error e ∧
        expandMduEncodedFlat ctx rs mdu k m ⟨List.replicate ((k + m) * (blobsPerMdu / k) * 48) 0,
          List.replicate ((k + m) * (blobsPerMdu / k * blobSize)) 0⟩ = .error e :=
      expand_error ctx hrs hnew hk hm hmdu hrows List.length_replicate List.length_replicate
    rw [herror] at h
    cases h
  -- the rows are encoded, so the shards are theirs
  · have hblobs : ∀ row < blobsPerMdu / k, RowBlobs k m (encoded row) :=
      fun row hrow => rowBlobs_of_encodeRow hrs hk hmdu hrow (hencoded row hrow)
    rw [expandMduEncoded_eq ctx hnew hk hm hmdu hencoded hblobs] at h
    cases h
    -- the code keeps the data blobs of a row
    refine ⟨encoded, shardRows_writeRows hblobs, fun row hrow slot hslot => ?_⟩
    have htake := hdata _ _ (encode_of_encodeRow (hencoded row hrow))
    rw [← getD_rowShards (m := m) hslot, List.getD_eq_getElem?_getD, List.getD_eq_getElem?_getD,
      ← List.getElem?_take_of_lt hslot, htake, List.getElem?_take_of_lt hslot]

/-- The data shards determine the MDU: each of its blobs is in one of them. -/
theorem mdu_eq_of_dataShards (hrs : EncodesInPlace rs k m) (hdata : KeepsData rs k m)
    (hk : 64 % k = 0) (hm : 0 < m) (hmdu : mdu.length = mduSize) (hmdu' : mdu'.length = mduSize)
    (h : expandMduEncoded ctx rs mdu k m = .ok expanded)
    (h' : expandMduEncoded ctx rs mdu' k m = .ok expanded')
    (hshards : expanded.shards.take k = expanded'.shards.take k) : mdu = mdu' := by
  obtain ⟨encoded, hrows, hblobs⟩ := exists_rows_of_expandMduEncoded hrs hdata hk hm hmdu h
  obtain ⟨encoded', hrows', hblobs'⟩ := exists_rows_of_expandMduEncoded hrs hdata hk hm hmdu' h'
  have hmul := rows_mul hk
  have hk0 : 0 < k := Nat.pos_of_ne_zero fun h0 => by
    rw [h0, Nat.zero_mul] at hmul
    cases hmul
  refine eq_of_wordAt (n := blobSize) (c := 64) (by decide) hmdu hmdu' fun block hblock => ?_
  have hrow : block / k < blobsPerMdu / k := Nat.div_lt_of_lt_mul (by rwa [hmul])
  have hslot : block % k < k := Nat.mod_lt _ hk0
  have hplace : block / k * k + block % k = block := Nat.div_add_mod' block k
  have hshard : expanded.shards.getD (block % k) [] = expanded'.shards.getD (block % k) [] := by
    rw [List.getD_eq_getElem?_getD, List.getD_eq_getElem?_getD,
      ← List.getElem?_take_of_lt hslot, hshards, List.getElem?_take_of_lt hslot]
  have hword := hblobs _ hrow _ hslot
  have hword' := hblobs' _ hrow _ hslot
  -- the block is the blob of that row in that shard
  rw [hplace] at hword hword'
  rw [← hword, ← hword', ← hrows.blob _ (by omega) _ hrow,
    ← hrows'.blob _ (by omega) _ hrow, hshard]

end DataShards

/-- An MDU determines the payload of a known length that is packed into it. -/
theorem payloadMdu_inj {payload payload' : Bytes} (hfit : payload.length ≤ mduPayloadBytes)
    (hlength : payload.length = payload'.length) (h : payloadMdu payload = payloadMdu payload') :
    payload = payload' := by
  have hdecode := decode_encode hfit
  rw [h, hlength, decode_encode (hlength ▸ hfit)] at hdecode
  exact (Except.ok.inj hdecode).symm

/-- Of two inputs that `expand_mdu` accepts, the data shards are different exactly when the inputs
are different in what an MDU can hold. It takes 8 MiB, and encodes fewer bytes than that. -/
theorem expandMdu_dataShards_ne_iff (ctx : KzgContext) (rs : ReedSolomon)
    (hrs : EncodesInPlace rs dataShardsNum parityShardsNum)
    (hdata : KeepsData rs dataShardsNum parityShardsNum)
    (data data' : Bytes) (expanded expanded' : ExpandedMdu)
    (h : expandMdu ctx rs data = .ok expanded) (h' : expandMdu ctx rs data' = .ok expanded') :
    expanded.shards.take dataShardsNum ≠ expanded'.shards.take dataShardsNum ↔
      data.take mduPayloadBytes ≠ data'.take mduPayloadBytes := by
  -- an accepted input has 8 MiB, and its first bytes are encoded
  have haccepted : ∀ {data expanded}, expandMdu ctx rs data = .ok expanded →
      data.length = 8 * 1024 * 1024 ∧
        expandMduEncoded ctx rs
          (payloadMdu (data.take mduPayloadBytes)) dataShardsNum parityShardsNum =
          .ok expanded := by
    intro data expanded h
    obtain ⟨_, hsize, h⟩ := except_bind_ok.mp h
    refine ⟨not_not.mp (rejectIf_eq_ok.mp hsize), ?_⟩
    rw [← encodeToMdu_eq]
    exact h
  obtain ⟨hlength, h⟩ := haccepted h
  obtain ⟨hlength', h'⟩ := haccepted h'
  have hpayload : ∀ data : Bytes, (payloadMdu (data.take mduPayloadBytes)).length = mduSize :=
    fun data => length_payloadMdu (List.length_take_le _ _)
  refine not_congr ⟨fun hshards => ?_, fun htake => ?_⟩
  -- equal shards come from one MDU, and that from one payload
  · have hmdu :=
      mdu_eq_of_dataShards hrs hdata (by decide) (by decide) (hpayload data) (hpayload data') h h'
      hshards
    refine payloadMdu_inj (List.length_take_le _ _) ?_ hmdu
    rw [List.length_take, List.length_take, hlength, hlength']
  · rw [htake, h'] at h
    cases h
    rfl

/-- The parity rows that `reed_solomon_erasure` computes for 8 data shards and 4 parity shards. -/
def parityMatrix : List (List UInt8) :=
  [[26, 132, 186, 51, 231, 16, 198, 39], [132, 26, 51, 186, 16, 231, 39, 198],
    [186, 51, 26, 132, 198, 39, 231, 16], [51, 186, 132, 26, 39, 198, 16, 231]]

/-- The parity shard of a row of the matrix. -/
def parityShard (coeffs : List UInt8) (row : List Bytes) : Bytes :=
  (List.range (row.getD 0 []).length).map fun i =>
    gfDot (fun slot => coeffs.getD slot 0) dataShardsNum fun slot => (row.getD slot []).getD i 0

/-- The encoder with these rows. Nothing is reconstructed with it. -/
def matrixCode : ReedSolomon where
  new := fun _ _ => .ok ()
  encode := fun _ _ row =>
    if row.length = dataShardsNum + parityShardsNum then
      .ok (row.take dataShardsNum ++ parityMatrix.map fun coeffs => parityShard coeffs row)
    else .error "wrong number of shards"
  reconstruct := fun _ _ _ => .error "not enough shards"

/-- The matrix code puts the data shards first. -/
theorem encodesInPlace_matrixCode : EncodesInPlace matrixCode dataShardsNum parityShardsNum := by
  intro n row encoded hrow h
  simp only [matrixCode] at h
  split at h
  · rename_i hlength
    cases h
    have hpos : 0 < row.length := by
      rw [hlength]
      decide
    have hfirst : (row.getD 0 []).length = n := by
      rw [getD_eq_getElem hpos]
      exact hrow _ (List.getElem_mem hpos)
    constructor
    · rw [List.length_append, List.length_take, List.length_map, hlength]
      rfl
    · intro shard hshard
      rcases List.mem_append.mp hshard with hkept | hparity
      · exact hrow shard (List.mem_of_mem_take hkept)
      · obtain ⟨coeffs, -, rfl⟩ := List.mem_map.mp hparity
        rw [parityShard, List.length_map, List.length_range, hfirst]
  · cases h

/-- The matrix code leaves the data as it is. -/
theorem keepsData_matrixCode : KeepsData matrixCode dataShardsNum parityShardsNum := by
  intro row encoded h
  simp only [matrixCode] at h
  split at h
  · rename_i hlength
    cases h
    refine List.take_left' ?_
    rw [List.length_take, hlength]
    rfl
  · cases h

/-- 8 MiB of zeros. -/
def zeroData : Bytes := List.replicate 8388608 0

/-- Zeros with another byte at the end. -/
def zeroDataTail : Bytes := List.replicate 8388607 0 ++ [1]

/-- Zeros with another byte at the start. -/
def zeroDataHead : Bytes := 1 :: List.replicate 8388607 0

/-- The two sample inputs agree on the payload. -/
theorem take_zeroDataTail : zeroDataTail.take mduPayloadBytes = zeroData.take mduPayloadBytes := by
  rw [zeroDataTail, zeroData, List.take_append_of_le_length, List.take_replicate,
    List.take_replicate]
  · rfl
  · rw [List.length_replicate]
    decide

/-- Inputs of 8 MiB are accepted, by a code that is a matrix. -/
theorem expandMdu_matrixCode {data : Bytes} (hlength : data.length = 8 * 1024 * 1024) :
    ∃ expanded, expandMdu Gateway.identitySetup matrixCode data = .ok expanded := by
  have hmdu : (encodeToMdu data).length = mduSize := by
    rw [encodeToMdu_eq]
    exact length_payloadMdu (List.length_take_le _ _)
  -- every row is encoded by the matrix
  have hencoded : ∀ row < blobsPerMdu / dataShardsNum,
      encodeRow matrixCode (encodeToMdu data) dataShardsNum parityShardsNum row =
        .ok ((rowShards (encodeToMdu data) dataShardsNum parityShardsNum row).take dataShardsNum ++
          parityMatrix.map fun coeffs =>
            parityShard coeffs
              (rowShards (encodeToMdu data) dataShardsNum parityShardsNum row)) := by
    intro row hrow
    have hshards :=
      (rowBlobs_rowShards (k := dataShardsNum) (m := parityShardsNum) (by decide) hmdu hrow).length
    rw [encodeRow]
    simp only [matrixCode, if_pos hshards]
    rfl
  have hnew : matrixCode.new dataShardsNum parityShardsNum = .ok () := rfl
  have hexpanded :=
    expandMduEncoded_eq Gateway.identitySetup hnew (by decide) (by decide) hmdu hencoded
    (fun row hrow =>
      rowBlobs_of_encodeRow encodesInPlace_matrixCode (by decide) hmdu hrow (hencoded row hrow))
  exact ⟨_, except_bind_ok.mpr ⟨(), if_neg (not_not.mpr hlength), hexpanded⟩⟩

/-- Two inputs that are different at the start have different data shards. -/
theorem expandMdu_dataShards_ne_iff_zeroDataHead : ∃ expanded expanded',
    expandMdu Gateway.identitySetup matrixCode zeroData = .ok expanded ∧
      expandMdu Gateway.identitySetup matrixCode zeroDataHead = .ok expanded' ∧
      expanded.shards.take dataShardsNum ≠ expanded'.shards.take dataShardsNum := by
  obtain ⟨expanded, h⟩ := @expandMdu_matrixCode zeroData (by rw [zeroData, List.length_replicate])
  obtain ⟨expanded', h'⟩ := @expandMdu_matrixCode zeroDataHead
    (by rw [zeroDataHead, List.length_cons, List.length_replicate])
  refine ⟨expanded, expanded', h, h', (expandMdu_dataShards_ne_iff Gateway.identitySetup matrixCode
    encodesInPlace_matrixCode keepsData_matrixCode _ _ _ _ h h').mpr fun hsame => ?_⟩
  have hhead := congrArg List.head? hsame
  rw [List.head?_take, List.head?_take, if_neg (by decide), if_neg (by decide),
    zeroData, zeroDataHead, List.head?_replicate, if_neg (by decide), List.head?_cons] at hhead
  exact absurd hhead (by decide)

/-- They are expanded alike. -/
theorem expandMdu_zeroDataTail (ctx : KzgContext) (rs : ReedSolomon) :
    expandMdu ctx rs zeroDataTail = expandMdu ctx rs zeroData := by
  have hsame : encodeToMdu zeroDataTail = encodeToMdu zeroData := by
    rw [encodeToMdu_eq, encodeToMdu_eq, take_zeroDataTail]
  have hlength : zeroDataTail.length = zeroData.length := by
    rw [zeroDataTail, zeroData, List.length_append, List.length_replicate, List.length_replicate]
    rfl
  rw [expandMdu, expandMdu, hsame, hlength]

/-- The last byte of an accepted input leaves no trace in the data shards. -/
theorem expandMdu_tail_lost : zeroData ≠ zeroDataTail ∧ ∃ expanded expanded',
    expandMdu Gateway.identitySetup matrixCode zeroData = .ok expanded ∧
      expandMdu Gateway.identitySetup matrixCode zeroDataTail = .ok expanded' ∧
      expanded.shards.take dataShardsNum = expanded'.shards.take dataShardsNum := by
  obtain ⟨expanded, h⟩ := @expandMdu_matrixCode zeroData (by rw [zeroData, List.length_replicate])
  refine ⟨fun heq => ?_, expanded, expanded, h, (expandMdu_zeroDataTail _ _).trans h, rfl⟩
  have hlast : (1 : UInt8) ∈ zeroData := by
    rw [heq, zeroDataTail]
    exact List.mem_append_right _ List.mem_cons_self
  exact absurd (List.eq_of_mem_replicate hlast) (by decide)

end NilStore.Core
