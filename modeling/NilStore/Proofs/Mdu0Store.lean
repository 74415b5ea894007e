import NilStore.Core.Mdu0Header

/-!
# `NilStore.Proofs.Mdu0Store`: MDU #0 as a store

A builder that starts empty is a store of records and of roots, in one buffer. A call that does not
fit returns an error and changes nothing (`Mdu0Call.run_spec`), and every other call changes either
the records or the roots. So a run of calls leaves in the buffer what was last written to each place
(`mdu0_store`).

A builder that is loaded takes the number of its records from the bytes. `append_file_record` checks
it against the end of the table. The functions that read and replace a record check the index
against the number alone, so they are safe exactly as long as the number is one that a table can
have (`safeAccess_iff`).
-/

set_option autoImplicit false

namespace NilStore.Core

open NilStore.Lib

/-! ### Runs -/

/-- A call on a builder. -/
inductive Mdu0Call where
  | append (r : FileRecordV1)
  | update (index : UInt32) (r : FileRecordV1)
  | setRoot (index : UInt64) (hindex : index.toNat < 2 ^ 58) (root : Bytes)
    (hroot : root.length = 32)

/-- The builder after a call, and what the call returns. -/
def Mdu0Call.run (call : Mdu0Call) (b : Mdu0HeaderBuilder) :
    Option (Mdu0HeaderBuilder × Except String Unit) :=
  match call with
  | append r => b.appendFileRecord r
  | update index r => b.updateFileRecord index r
  | setRoot index _ root _ => b.setRoot index root

/-- The builder after a sequence of calls. -/
def runCalls (b : Mdu0HeaderBuilder) (calls : List Mdu0Call) : Option Mdu0HeaderBuilder :=
  calls.foldlM (fun b call => (call.run b).map Prod.fst) b

/-- What a call makes of the records. -/
def Mdu0Call.recordsAfter (records : List FileRecordV1) (call : Mdu0Call) : List FileRecordV1 :=
  match call with
  | append r => if records.length < 98302 then records ++ [r] else records
  | update index r => records.set index.toNat r
  | setRoot .. => records

/-- What a call makes of the roots. -/
def Mdu0Call.rootsAfter (roots : Nat → Bytes) (call : Mdu0Call) : Nat → Bytes :=
  match call with
  | setRoot index _ root _ => Function.update roots index.toNat root
  | _ => roots

/-- The records that a sequence of calls has written. -/
def recordsWritten (calls : List Mdu0Call) : List FileRecordV1 :=
  calls.foldl Mdu0Call.recordsAfter []

/-- The roots that a sequence of calls has written, over those of an empty table. -/
def rootsWritten (calls : List Mdu0Call) :
    Nat → Bytes := calls.foldl Mdu0Call.rootsAfter fun _ => zeroRoot

/-- There is a place for what the call writes, in a table with these records. -/
def Mdu0Call.Fits (records : List FileRecordV1) (call : Mdu0Call) : Prop :=
  match call with
  | append _ => records.length < 98302
  | update index _ => index.toNat < records.length
  | setRoot index .. => index.toNat < 65536

section Runs

variable {b : Mdu0HeaderBuilder} {records : List FileRecordV1} {roots : Nat → Bytes}

/-- A call writes what fits, and otherwise returns an error and writes nothing. It has its effect on
the records and on the roots, and neither touches the other. -/
theorem Mdu0Call.run_spec (h : b.Holds records) (hroots : ∀ i < 65536, b.getRoot i = roots i)
    (call : Mdu0Call) :
    ∃ b' result, call.run b = some (b', result) ∧ b'.Holds (call.recordsAfter records) ∧
      (∀ i < 65536, b'.getRoot i = call.rootsAfter roots i) ∧
      (result = .ok () ↔ call.Fits records) ∧ (∀ e, result = .error e → b' = b) := by
  -- by the call, and by whether there is room
  cases call with
  | append r =>
      by_cases hroom : records.length < 98302
      · obtain ⟨b', hrun, hholds, hsame⟩ := h.append r hroom
        refine ⟨b', _, hrun, ?_, fun i hi => (hsame i hi).trans (hroots i hi),
          iff_of_true rfl hroom, nofun⟩
        rwa [recordsAfter, if_pos hroom]
      · refine ⟨b, _, h.append_full r hroom, ?_, hroots, iff_of_false nofun hroom, fun _ _ => rfl⟩
        rwa [recordsAfter, if_neg hroom]
  | update index r =>
      by_cases hindex : index.toNat < records.length
      · obtain ⟨b', hrun, hholds, hsame⟩ := h.update r hindex
        exact ⟨b', _, hrun, hholds, fun i hi => (hsame i hi).trans (hroots i hi),
          iff_of_true rfl hindex, nofun⟩
      · refine ⟨b, _, h.update_out r hindex, ?_, hroots, iff_of_false nofun hindex, fun _ _ => rfl⟩
        rwa [recordsAfter, List.set_eq_of_length_le (by omega)]
  | setRoot index hindex root hroot =>
      by_cases hroom : index.toNat < 65536
      · obtain ⟨b', hrun, hholds, hset⟩ := h.setRoot hroom hroot
        refine ⟨b', _, hrun, hholds, fun i hi => ?_, iff_of_true rfl hroom, nofun⟩
        rw [hset, rootsAfter, Function.update_apply, hroots i hi]
      · refine ⟨b, _, b.setRoot_out hindex hroom root, h, fun i hi => ?_,
          iff_of_false nofun hroom, fun _ _ => rfl⟩
        -- The root that is not set lies after the table.
        rw [rootsAfter, Function.update_of_ne (by omega), hroots i hi]

/-- A run leaves what its calls have written. -/
theorem runCalls_spec (calls : List Mdu0Call) (h : b.Holds records)
    (hroots : ∀ i < 65536, b.getRoot i = roots i) :
    ∃ b', runCalls b calls = some b' ∧ b'.Holds (calls.foldl Mdu0Call.recordsAfter records) ∧
      ∀ i < 65536, b'.getRoot i = calls.foldl Mdu0Call.rootsAfter roots i := by
  induction calls generalizing b records roots with
  | nil => exact ⟨b, rfl, h, hroots⟩
  | cons call rest ih =>
      obtain ⟨b₁, result, hrun, hholds, hroots₁, -⟩ := call.run_spec h hroots
      obtain ⟨b₂, hrest, hfinal⟩ := ih hholds hroots₁
      refine ⟨b₂, ?_, hfinal⟩
      rw [runCalls, List.foldlM_cons, hrun]
      exact hrest

end Runs

/-- After any calls on a new builder, its bytes are loaded as the records and the roots that were
written last. A call that returns an error changes nothing. -/
theorem mdu0_store (maxUserMdus commitmentsPerMdu loadMaxUserMdus loadCommitmentsPerMdu : UInt64)
    (calls : List Mdu0Call) :
    ∃ b₀ b, Mdu0HeaderBuilder.newWithCommitments maxUserMdus commitmentsPerMdu = some b₀ ∧
      runCalls b₀ calls = some b ∧
      (∃ data loaded, b.bytes = some data ∧
        Mdu0HeaderBuilder.loadWithCommitments data loadMaxUserMdus loadCommitmentsPerMdu =
          .ok loaded ∧
        loaded.header.recordCount.toNat = (recordsWritten calls).length ∧
        (∀ i : UInt32, i < loaded.header.recordCount →
          ∃ r, (recordsWritten calls)[i.toNat]? = some r ∧ loaded.getFileRecord i = some r) ∧
        ∀ i < 65536, loaded.getRoot i = rootsWritten calls i) ∧
      ∀ call : Mdu0Call, ∃ b' result, call.run b = some (b', result) ∧
        (result = .ok () ↔ call.Fits (recordsWritten calls)) ∧ ∀ e, result = .error e → b' = b := by
  obtain ⟨b₀, hnew, hempty, hbuilder⟩ := Mdu0HeaderBuilder.holds_new maxUserMdus commitmentsPerMdu
  -- a new builder has no records, and zero roots
  have hzero : ∀ i < 65536, b₀.getRoot i = zeroRoot := by
    intro i hi
    rw [hbuilder]
    exact Mdu0Builder.getRoot_new _ _ hi
  obtain ⟨b, hrun, hholds, hroots⟩ := runCalls_spec calls hempty hzero
  obtain ⟨loaded, hload, hloaded, hbuffer⟩ := hholds.load loadMaxUserMdus loadCommitmentsPerMdu
  refine ⟨b₀, b, hnew, hrun,
    ⟨b.buffer, loaded, hholds.bytes, hload, hloaded.recordCount_eq, fun i hi => ?_,
    fun i hi => ?_⟩, fun call => ?_⟩
  -- a counted record is one that was written
  · have hlt : i.toNat < (recordsWritten calls).length := by
      have hcount := UInt32.lt_iff_toNat_lt.mp hi
      rwa [hloaded.recordCount_eq] at hcount
    exact ⟨_, List.getElem?_eq_getElem hlt, hloaded.getFileRecord (List.getElem?_eq_getElem hlt)⟩
  · rw [Mdu0Builder.getRoot, hbuffer]
    exact hroots i hi
  -- and one more call does what its step lemma says
  · obtain ⟨b', result, hcall, -, -, hok, herror⟩ := call.run_spec hholds hroots
    exact ⟨b', result, hcall, hok, herror⟩

/-! ### Loaded builders -/

/-- The write changes bytes of the file table alone. -/
def WritesInFileTable (b b' : Mdu0HeaderBuilder) : Prop :=
  b'.buffer.length = b.buffer.length ∧
    b'.buffer.take fileTableStart = b.buffer.take fileTableStart ∧
    b'.buffer.drop fileTableEnd = b.buffer.drop fileTableEnd

/-- A record lies in the file table. -/
def InFileTable (offset : Nat) : Prop := fileTableStart ≤ offset ∧
    offset + fileRecordSize ≤ fileTableEnd

/-- Every access to a record below the count stays in the file table and does not panic, and
appending either fails or writes there. -/
structure Mdu0HeaderBuilder.SafeAccess (b : Mdu0HeaderBuilder) : Prop where
  inFileTable : ∀ index < b.header.recordCount, InFileTable (recordOffset index.toNat)
  get : ∀ index < b.header.recordCount, (b.getFileRecord index).isSome
  nilGet : ∀ index < b.header.recordCount, (b.nilMdu0GetRecord index).isSome
  update : ∀ index < b.header.recordCount, ∀ r, ∃ b', b.updateFileRecord index r =
    some (b', .ok ()) ∧
    WritesInFileTable b b'
  append : ∀ r, ∃ b' result, b.appendFileRecord r = some (b', result) ∧
    (result = .ok () → WritesInFileTable b b') ∧ ∀ e, result = .error e → b' = b

section Loaded

variable {b : Mdu0HeaderBuilder}

/-- Where a record of a table stands. -/
theorem inFileTable_iff {index : Nat} : InFileTable (recordOffset index) ↔ index < 98302 := by
  rw [InFileTable, recordOffset_add, fileTableStart, fileRecordSize, fileTableEnd]
  omega

/-- A write inside the file table leaves the roots before it and the bytes behind it alone. -/
theorem writesInFileTable_overwrite {buffer piece : Bytes} {offset : Nat}
    (hroom : offset + piece.length ≤ buffer.length) (hstart : fileTableStart ≤ offset)
    (hlength : buffer.length = mduSize) :
    (overwrite buffer offset piece).length = buffer.length ∧
      (overwrite buffer offset piece).take fileTableStart = buffer.take fileTableStart ∧
      (overwrite buffer offset piece).drop fileTableEnd = buffer.drop fileTableEnd := by
  have hsame := length_overwrite hroom
  refine ⟨hsame, ?_, ?_⟩
  · have hslice :=
      slice_overwrite_of_disjoint hroom (o := 0) (n := fileTableStart) (Or.inl (by omega))
    exact hslice
  · rw [List.drop_of_length_le (by rw [hsame, hlength]; decide),
      List.drop_of_length_le (by rw [hlength]; decide)]

/-- A record that a table can have is read. -/
theorem getFileRecord_isSome_iff (hlength : b.buffer.length = mduSize) (index : UInt32) :
    (b.getFileRecord index).isSome ↔ index.toNat < 98302 := by
  have hfits : recordOffset index.toNat + fileRecordSize ≤ b.buffer.length ↔
      index.toNat < 98302 := by
    rw [hlength, recordOffset_add, fileRecordSize, mduSize]
    omega
  rw [Mdu0HeaderBuilder.getFileRecord, Mdu0Builder.getFileRecord]
  by_cases h : recordOffset index.toNat + fileRecordSize ≤ b.buffer.length
  · rw [dif_pos h]
    exact iff_of_true rfl (hfits.mp h)
  · rw [dif_neg h]
    exact iff_of_false (by simp) (h ∘ hfits.mpr)

/-- Appending is safe whatever the header counts. The place of the record is checked before it is
written, and the header is inside the file table. -/
theorem appendFileRecord_safe (hlength : b.buffer.length = mduSize) (r : FileRecordV1) :
    ∃ b' result, b.appendFileRecord r = some (b', result) ∧
      (result = .ok () → WritesInFileTable b b') ∧
      ∀ e, result = .error e → b' = b := by
  -- the check is on the end of the record
  by_cases hfull : recordOffset b.header.recordCount.toNat + fileRecordSize > fileTableEnd
  · refine ⟨b, .error "file table full", ?_, by simp, fun _ _ => rfl⟩
    rw [Mdu0HeaderBuilder.appendFileRecord]
    simp only [if_pos hfull]
  · have hstart : fileTableStart ≤ recordOffset b.header.recordCount.toNat := by
      rw [recordOffset_add, fileTableStart]
      omega
    have hrecord : recordOffset b.header.recordCount.toNat + r.toBytes.length ≤
        b.buffer.length := by
      rw [FileRecordV1.length_toBytes, hlength]
      rw [fileRecordSize, fileTableEnd] at hfull
      rw [mduSize]
      omega
    obtain ⟨hsame, htake, hdrop⟩ := writesInFileTable_overwrite hrecord hstart hlength
    -- the header is written after the record
    have hflush : fileTableStart +
        { b.header with recordCount := b.header.recordCount + 1 }.toBytes.length ≤
        (overwrite b.buffer (recordOffset b.header.recordCount.toNat) r.toBytes).length := by
      rw [FileTableHeader.length_toBytes, hsame, hlength]
      decide
    obtain ⟨hsame', htake', hdrop'⟩ :=
      writesInFileTable_overwrite hflush le_rfl (hsame.trans hlength)
    refine ⟨⟨⟨overwrite
      (overwrite b.buffer (recordOffset b.header.recordCount.toNat) r.toBytes) fileTableStart
      (FileTableHeader.toBytes { b.header with recordCount := b.header.recordCount + 1 }),
      b.witnessMduCount,
      b.maxUserMdus, b.commitmentsPerMdu⟩,
      { b.header with recordCount := b.header.recordCount + 1 }⟩, .ok (),
      ?_, fun _ => ?_, by simp⟩
    · rw [Mdu0HeaderBuilder.appendFileRecord]
      simp only [if_neg hfull, copyInto_eq_some hrecord]
      simp only [Option.bind_eq_bind, Option.bind_some, Mdu0HeaderBuilder.flushHeader,
        copyInto_eq_some hflush]
      rfl
    · exact ⟨hsame'.trans hsame, htake'.trans htake, hdrop'.trans hdrop⟩

/-- Replacing a record that a table can have is safe. -/
theorem updateFileRecord_safe (hlength : b.buffer.length = mduSize) {index : UInt32}
    (hindex : index < b.header.recordCount) (hroom : index.toNat < 98302) (r : FileRecordV1) :
    ∃ b', b.updateFileRecord index r = some (b', .ok ()) ∧ WritesInFileTable b b' := by
  have hoffset : recordOffset index.toNat = 2097280 + 64 * index.toNat := recordOffset_add _
  have hrecord : recordOffset index.toNat + r.toBytes.length ≤ b.buffer.length := by
    rw [FileRecordV1.length_toBytes, hlength, hoffset, mduSize]
    omega
  refine ⟨⟨{ b.toMdu0Builder with
      buffer := overwrite b.buffer (recordOffset index.toNat) r.toBytes }, b.header⟩, ?_, ?_⟩
  · rw [Mdu0HeaderBuilder.updateFileRecord, if_neg (UInt32.not_le.mpr hindex),
      copyInto_eq_some hrecord]
    rfl
  · exact writesInFileTable_overwrite hrecord (by rw [hoffset, fileTableStart]; omega) hlength

/-- A loaded builder is safe exactly when the bytes count no more records than a table has room for.
The count is read from the bytes and is not checked by the loader. -/
theorem safeAccess_iff (data : Bytes) (maxUserMdus commitmentsPerMdu : UInt64)
    (b : Mdu0HeaderBuilder)
    (hload : Mdu0HeaderBuilder.loadWithCommitments data maxUserMdus commitmentsPerMdu = .ok b) :
    b.SafeAccess ↔ ofLeBytes (slice data (fileTableStart + 8) 4) ≤ 98302 := by
  obtain ⟨hlength, -, rfl⟩ := Mdu0HeaderBuilder.loadWithCommitments_eq_ok.mp hload
  -- the count of the header is read from these bytes
  have hcount : ofLeBytes (slice data (fileTableStart + 8) 4) =
      (bufferHeader data hlength).recordCount.toNat := by
    have hfield := FileTableHeader.slice_count (bufferHeader data hlength)
    rw [toBytes_bufferHeader, slice_slice (by decide)] at hfield
    rw [hfield, ofLeBytes_leBytes (by exact UInt32.toNat_lt _)]
  rw [hcount]
  constructor
  -- a record behind the last one would be outside the table
  · intro h
    by_contra hmany
    have hindex : (98302 : UInt32) < (bufferHeader data hlength).recordCount := by
      rw [UInt32.lt_iff_toNat_lt]
      exact Nat.lt_of_not_le hmany
    exact absurd ((getFileRecord_isSome_iff hlength 98302).mp (h.get 98302 hindex)) (by decide)
  · intro hfew
    have hroom : ∀ index < (bufferHeader data hlength).recordCount, index.toNat < 98302 := by
      intro index hindex
      exact Nat.lt_of_lt_of_le (UInt32.lt_iff_toNat_lt.mp hindex) hfew
    refine ⟨fun index hindex => inFileTable_iff.mpr (hroom index hindex),
      fun index hindex => (getFileRecord_isSome_iff hlength index).mpr (hroom index hindex),
      fun index hindex => ?_,
      fun index hindex r => updateFileRecord_safe hlength hindex (hroom index hindex) r,
      appendFileRecord_safe hlength⟩
    rw [Mdu0HeaderBuilder.nilMdu0GetRecord, if_neg (UInt32.not_le.mpr hindex), Option.isSome_map]
    exact (getFileRecord_isSome_iff hlength index).mpr (hroom index hindex)

/-- The bytes of an empty MDU #0, with another number of records in the header. -/
def countedMdu0 (count : UInt32) : Bytes :=
  overwrite (Mdu0Builder.newWithCommitments 1 64).buffer (fileTableStart + 8)
    (leBytes 4 count.toNat)

/-- These bytes are loaded, with this number of records. -/
theorem load_countedMdu0 (count : UInt32) :
    ∃ b, Mdu0HeaderBuilder.loadWithCommitments (countedMdu0 count) 1 64 = .ok b ∧
      b.header.recordCount = count ∧ b.buffer.length = mduSize := by
  have hnew := Mdu0Builder.lists_new 1 64
  have hroom : fileTableStart + 8 + (leBytes 4 count.toNat).length ≤
      (Mdu0Builder.newWithCommitments 1 64).buffer.length := by
    rw [length_leBytes, hnew.length]
    decide
  have hlength : (countedMdu0 count).length = mduSize := (length_overwrite hroom).trans hnew.length
  have hmagic : slice (countedMdu0 count) fileTableStart 4 = magicNilf :=
    (slice_overwrite_of_disjoint hroom (Or.inl (by decide))).trans hnew.magic
  refine ⟨_, Mdu0HeaderBuilder.loadWithCommitments_eq_ok.mpr ⟨hlength, hmagic, rfl⟩, ?_, hlength⟩
  have hself := slice_overwrite_self hroom
  have hfield := FileTableHeader.slice_count (bufferHeader (countedMdu0 count) hlength)
  rw [toBytes_bufferHeader, slice_slice (by decide)] at hfield
  rw [length_leBytes] at hself
  have hbytes := hfield.symm.trans hself
  have hvalue := congrArg ofLeBytes hbytes
  rw [ofLeBytes_leBytes (by exact UInt32.toNat_lt _),
    ofLeBytes_leBytes (by exact UInt32.toNat_lt _)] at hvalue
  exact UInt32.toNat_inj.mp hvalue

/-- A loaded table of five records. -/
theorem safeAccess_iff_five :
    ∃ b, Mdu0HeaderBuilder.loadWithCommitments (countedMdu0 5) 1 64 = .ok b ∧
    (b.SafeAccess ↔ ofLeBytes (slice (countedMdu0 5) (fileTableStart + 8) 4) ≤ 98302) := by
  obtain ⟨b, hload, -⟩ := load_countedMdu0 5
  exact ⟨b, hload, safeAccess_iff (countedMdu0 5) 1 64 b hload⟩

/-- Bytes that count one record too many are loaded, and the last record panics. -/
theorem countedMdu0_panics :
    ∃ b, Mdu0HeaderBuilder.loadWithCommitments (countedMdu0 98303) 1 64 = .ok b ∧
    98302 < b.header.recordCount ∧ b.getFileRecord 98302 = none ∧ b.nilMdu0GetRecord 98302 = none ∧
      b.updateFileRecord 98302 (fileRecord [0x61] 1 0 (by decide)) = none := by
  obtain ⟨b, hload, hcount, hlength⟩ := load_countedMdu0 98303
  have hlt : (98302 : UInt32) < b.header.recordCount := by
    rw [hcount]
    decide
  have hget : b.getFileRecord 98302 = none := by
    rw [← Option.not_isSome_iff_eq_none, getFileRecord_isSome_iff hlength]
    decide
  refine ⟨b, hload, hlt, hget, ?_, ?_⟩
  · rw [Mdu0HeaderBuilder.nilMdu0GetRecord, if_neg (UInt32.not_le.mpr hlt), hget]
    rfl
  · rw [Mdu0HeaderBuilder.updateFileRecord, if_neg (UInt32.not_le.mpr hlt), copyInto, if_neg]
    · rfl
    · rw [FileRecordV1.length_toBytes, hlength, recordOffset_add]
      decide

end Loaded

end NilStore.Core
