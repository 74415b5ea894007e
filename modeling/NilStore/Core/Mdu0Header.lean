import NilStore.Core.FileSlots

/-!
# `NilStore.Core.Mdu0Header`: the builder of MDU #0 with its header

`Mdu0Builder` of `nil_core/src/builder.rs` keeps the header of the file table twice: in its buffer,
and as a field, from which the functions take the number of records. Here it has both. A slice of
the buffer that is out of range panics, which is `none`, and a function that returns an error
returns the builder as it is by then.

`Mdu0HeaderBuilder.Holds` says which records a builder holds, and that the two headers agree. Each
function keeps it, and does to the buffer what it does in `NilStore.Core.FileTable`.
-/

set_option autoImplicit false

namespace NilStore.Core

open NilStore.Lib

/-- `FileTableHeader`. -/
structure FileTableHeader where
  magic : Bytes
  version : UInt8
  pad1 : UInt8
  recordSize : UInt16
  recordCount : UInt32
  reserved : Bytes
  magic_length : magic.length = 4
  reserved_length : reserved.length = 116
deriving DecidableEq

/-- `FileTableHeader::default`. It is the header of an empty table. -/
def FileTableHeader.default : FileTableHeader where
  magic := magicNilf
  version := 1
  pad1 := 0
  recordSize := 64
  recordCount := 0
  reserved := List.replicate 116 0
  magic_length := rfl
  reserved_length := List.length_replicate

/-- `FileTableHeader::to_bytes`. It has 128 bytes. -/
def FileTableHeader.toBytes (header : FileTableHeader) : Bytes :=
  header.magic ++ [header.version, header.pad1] ++ leBytes 2 header.recordSize.toNat ++
    leBytes 4 header.recordCount.toNat ++ header.reserved

/-- `FileTableHeader::from_bytes`, on a slice of 128 bytes. -/
def FileTableHeader.fromBytes (bytes : Bytes) (h : bytes.length = 128) : FileTableHeader where
  magic := slice bytes 0 4
  version := bytes[4]
  pad1 := bytes[5]
  recordSize := UInt16.ofNat (ofLeBytes (slice bytes 6 2))
  recordCount := UInt32.ofNat (ofLeBytes (slice bytes 8 4))
  reserved := slice bytes 12 116
  magic_length := length_slice (by omega)
  reserved_length := length_slice (by omega)

/-- `Mdu0Builder`, with the field `header`. -/
structure Mdu0HeaderBuilder extends Mdu0Builder where
  header : FileTableHeader

/-- `buffer[offset..offset + bytes.len()].copy_from_slice(bytes)`. -/
def copyInto (buffer : Bytes) (offset : Nat) (bytes : Bytes) : Option Bytes :=
  if offset + bytes.length ≤ buffer.length then some (copyFromSlice buffer offset bytes) else none

namespace Mdu0HeaderBuilder

/-- `Mdu0Builder::flush_header`. The header goes into the buffer, and is not changed. -/
def flushHeader (b : Mdu0HeaderBuilder) : Option Mdu0HeaderBuilder := do
  let buffer ← copyInto b.buffer fileTableStart b.header.toBytes
  return { b with buffer := buffer }

/-- `Mdu0Builder::new_with_commitments`. The header is flushed at once. -/
def newWithCommitments (maxUserMdus commitmentsPerMdu : UInt64) : Option Mdu0HeaderBuilder :=
  flushHeader {
    buffer := List.replicate mduSize 0
    witnessMduCount := witnessMduCountOf maxUserMdus commitmentsPerMdu
    maxUserMdus := maxUserMdus
    commitmentsPerMdu := effectiveCommitments commitmentsPerMdu
    header := { FileTableHeader.default with recordSize := 64, recordCount := 0 } }

/-- `Mdu0Builder::load_with_commitments`. The header is the one that the bytes have. -/
def loadWithCommitments (data : Bytes) (maxUserMdus commitmentsPerMdu : UInt64) :
    Except String Mdu0HeaderBuilder :=
  if h : data.length = mduSize then
    let header := FileTableHeader.fromBytes (slice data fileTableStart fileTableHeaderSize)
      (length_slice (by rw [h]; decide))
    if header.magic ≠ magicNilf then .error "invalid magic"
    else .ok {
      buffer := data
      witnessMduCount := witnessMduCountOf maxUserMdus commitmentsPerMdu
      maxUserMdus := maxUserMdus
      commitmentsPerMdu := effectiveCommitments commitmentsPerMdu
      header := header }
  else .error "invalid MDU size"

/-- `Mdu0Builder::bytes`. The header is flushed once more before the buffer is given out. -/
def bytes (b : Mdu0HeaderBuilder) : Option Bytes := b.flushHeader.map fun b => b.buffer

/-- `Mdu0Builder::set_root`. The header is not flushed. -/
def setRoot (b : Mdu0HeaderBuilder) (index : UInt64) (root : Bytes) :
    Option (Mdu0HeaderBuilder × Except String Unit) :=
  let offset := rootTableStart + index * rootSize
  if offset + rootSize > rootTableEnd then some (b, .error "root index out of bounds")
  else do
    let buffer ← copyInto b.buffer offset.toNat root
    return ({ b with buffer := buffer }, .ok ())

/-- `Mdu0Builder::get_file_record`. The count is not looked at. -/
def getFileRecord (b : Mdu0HeaderBuilder) (index : UInt32) : Option FileRecordV1 :=
  b.toMdu0Builder.getFileRecord index.toNat

/-- `nil_mdu0_get_record`. The count of the header is the bound here. -/
def nilMdu0GetRecord (b : Mdu0HeaderBuilder) (index : UInt32) : Option (Except Int FileRecordV1) :=
  if index ≥ b.header.recordCount then some (.error (-2)) else (b.getFileRecord index).map .ok

/-- `Mdu0Builder::append_file_record`. The header is flushed with the new count. -/
def appendFileRecord (b : Mdu0HeaderBuilder) (r : FileRecordV1) :
    Option (Mdu0HeaderBuilder × Except String Unit) :=
  let index := b.header.recordCount
  let offset := recordOffset index.toNat
  if offset + fileRecordSize > fileTableEnd then some (b, .error "file table full")
  else do
    let buffer ← copyInto b.buffer offset r.toBytes
    let header := { b.header with recordCount := b.header.recordCount + 1 }
    let b ← flushHeader { b with buffer := buffer, header := header }
    return (b, .ok ())

/-- `Mdu0Builder::update_file_record`. The header stays, and so does its copy in the buffer. -/
def updateFileRecord (b : Mdu0HeaderBuilder) (index : UInt32) (r : FileRecordV1) :
    Option (Mdu0HeaderBuilder × Except String Unit) :=
  if index ≥ b.header.recordCount then some (b, .error "index out of bounds")
  else do
    let buffer ← copyInto b.buffer (recordOffset index.toNat) r.toBytes
    return ({ b with buffer := buffer }, .ok ())

/-- The loop of `find_free_slot_and_insert`: the first tombstone with room for a file of this
length. -/
def searchSlots (b : Mdu0HeaderBuilder) (requiredLen : UInt64) (slots : List Nat) :
    Option (Option (UInt32 × FileRecordV1)) :=
  match slots with
  | [] => some none
  | i :: rest => do
      let existing ← b.getFileRecord (UInt32.ofNat i)
      if existing.isTombstone ∧ existing.fileLength ≥ requiredLen then
        return some (UInt32.ofNat i, existing)
      else searchSlots b requiredLen rest

/-- `Mdu0Builder::find_free_slot_and_insert`. The room that is left in a slot becomes a tombstone at
the end of the table. -/
def findFreeSlotAndInsert (b : Mdu0HeaderBuilder) (r : FileRecordV1) :
    Option (Mdu0HeaderBuilder × Except String UInt32) := do
  let requiredLen := r.fileLength
  match ← b.searchSlots requiredLen (List.range b.header.recordCount.toNat) with
  | some (i, existing) =>
      let (b, updated) ← b.updateFileRecord i { r with startOffset := existing.startOffset }
      match updated with
      | .error e => return (b, .error e)
      | .ok () =>
          let leftover := existing.fileLength - requiredLen
          if leftover > 0 then
            let (b, appended) ← b.appendFileRecord (leftoverTombstone existing requiredLen)
            match appended with
            | .error e => return (b, .error e)
            | .ok () => return (b, .ok i)
          else return (b, .ok i)
  | none =>
      let (b, appended) ← b.appendFileRecord r
      match appended with
      | .error e => return (b, .error e)
      | .ok () => return (b, .ok (b.header.recordCount - 1))

end Mdu0HeaderBuilder

/-! ### The bytes of a header -/

/-- A field between what comes before it and what comes after it. -/
theorem slice_append_append (front field back : Bytes) :
    slice (front ++ field ++ back) front.length field.length = field := by
  rw [slice, List.append_assoc, List.drop_left, List.take_left]

/-- Two fields side by side. -/
theorem slice_append_slice (l : Bytes) (o n m : Nat) :
    slice l o n ++ slice l (o + n) m = slice l o (n + m) := by
  rw [slice, slice, slice, List.take_add, List.drop_drop]

section Header

variable {header : FileTableHeader} {bytes : Bytes}

/-- The header takes 128 bytes, whatever it says. -/
@[simp] theorem FileTableHeader.length_toBytes (header : FileTableHeader) :
    header.toBytes.length = 128 := by
  simp [FileTableHeader.toBytes, header.magic_length, header.reserved_length]

/-- The bytes of a header that was read are the bytes it was read from. -/
theorem FileTableHeader.toBytes_fromBytes (h : bytes.length = 128) :
    (FileTableHeader.fromBytes bytes h).toBytes = bytes := by
  -- a number of as many bytes as the field has is written back as the field
  have hnumber : ∀ field : Bytes, ∀ n, field.length = n → leBytes n (ofLeBytes field) = field := by
    intro field n hn
    subst hn
    exact leBytes_ofLeBytes field
  have hlt : ∀ field : Bytes, ∀ n, field.length = n → ofLeBytes field < 256 ^ n := by
    intro field n hn
    have hlt := ofBeBytes_lt field.reverse
    rwa [List.length_reverse, hn] at hlt
  have hsize : (slice bytes 6 2).length = 2 := length_slice (by omega)
  have hcount : (slice bytes 8 4).length = 4 := length_slice (by omega)
  have hsizeField : leBytes 2 (UInt16.ofNat (ofLeBytes (slice bytes 6 2))).toNat =
      slice bytes 6 2 := by
    rw [UInt16.toNat_ofNat_of_lt' (hlt _ 2 hsize), hnumber _ 2 hsize]
  have hcountField : leBytes 4 (UInt32.ofNat (ofLeBytes (slice bytes 8 4))).toNat =
      slice bytes 8 4 := by
    rw [UInt32.toNat_ofNat_of_lt' (hlt _ 4 hcount), hnumber _ 4 hcount]
  have hpair : [bytes[4], bytes[5]] = slice bytes 4 2 := by
    rw [slice, List.drop_eq_getElem_cons (by omega), List.drop_eq_getElem_cons (by omega)]
    rfl
  rw [FileTableHeader.toBytes, FileTableHeader.fromBytes]
  simp only [hsizeField, hcountField, hpair]
  rw [slice_append_slice bytes 0 4 2, slice_append_slice bytes 0 6 2,
    slice_append_slice bytes 0 8 4,
    slice_append_slice bytes 0 12 116, slice, List.drop_zero, List.take_of_length_le h.le]

/-- The fields before the count. -/
def FileTableHeader.front (header : FileTableHeader) : Bytes :=
  header.magic ++ [header.version, header.pad1] ++ leBytes 2 header.recordSize.toNat

/-- The magic, the version and the record size stand in the first 8 bytes. -/
@[simp] theorem FileTableHeader.length_front (header : FileTableHeader) :
    header.front.length = 8 := by
  simp [FileTableHeader.front, header.magic_length]

/-- The count is the one part of the header that a call rewrites; it stands between two that
stay. -/
theorem FileTableHeader.toBytes_eq (header : FileTableHeader) :
    header.toBytes = header.front ++ leBytes 4 header.recordCount.toNat ++ header.reserved := rfl

/-- The magic stands at the start. -/
theorem FileTableHeader.slice_magic (header : FileTableHeader) :
    slice header.toBytes 0 4 = header.magic := by
  have hfield := slice_append_append [] header.magic ([header.version, header.pad1] ++
    leBytes 2 header.recordSize.toNat ++ leBytes 4 header.recordCount.toNat ++ header.reserved)
  rw [List.nil_append, List.length_nil, header.magic_length] at hfield
  rw [← hfield, FileTableHeader.toBytes]
  simp only [List.append_assoc]

/-- The count stands in its place. -/
theorem FileTableHeader.slice_count (header : FileTableHeader) :
    slice header.toBytes 8 4 = leBytes 4 header.recordCount.toNat := by
  have hfield :=
    slice_append_append header.front (leBytes 4 header.recordCount.toNat) header.reserved
  rwa [FileTableHeader.length_front, length_leBytes] at hfield

/-- Where a buffer has the header, writing the whole header with another count changes the four
bytes of the count alone. So a builder that flushes its own header does what one does that only
writes the count. -/
theorem overwrite_header {buffer : Bytes}
    (hsynced : slice buffer fileTableStart 128 = header.toBytes) (count : UInt32) :
    overwrite buffer fileTableStart { header with recordCount := count }.toBytes =
      overwrite buffer (fileTableStart + 8) (leBytes 4 count.toNat) := by
  -- what is before the count is in the buffer already
  have hfront : slice buffer fileTableStart 8 = header.front := by
    have hfield :=
      slice_append_append [] header.front (leBytes 4 header.recordCount.toNat ++ header.reserved)
    rw [List.nil_append, List.length_nil, header.length_front, ← List.append_assoc,
      ← header.toBytes_eq, ← hsynced, slice_slice (by decide)] at hfield
    exact hfield
  -- and so is what is behind it
  have hback : slice buffer (fileTableStart + 12) 116 = header.reserved := by
    have hfield :=
      slice_append_append (header.front ++ leBytes 4 header.recordCount.toNat) header.reserved []
    rw [List.append_nil, List.length_append, header.length_front, length_leBytes,
      header.reserved_length, ← header.toBytes_eq, ← hsynced, slice_slice (by decide)] at hfield
    exact hfield
  have htake : buffer.take (fileTableStart + 8) = buffer.take fileTableStart ++ header.front := by
    rw [List.take_add, ← hfront, slice]
  have hdrop : buffer.drop (fileTableStart + 12) =
      header.reserved ++ buffer.drop (fileTableStart + 128) := by
    have hsplit := List.take_append_drop 116 (buffer.drop (fileTableStart + 12))
    rw [List.drop_drop] at hsplit
    rw [← hback]
    exact hsplit.symm
  rw [overwrite, overwrite, FileTableHeader.length_toBytes, length_leBytes, htake,
    Nat.add_assoc, hdrop, FileTableHeader.toBytes_eq]
  simp only [List.append_assoc]
  rfl

end Header

/-! ### What a builder holds -/

/-- The builder holds these records, and its header is the one in the buffer. -/
structure Mdu0HeaderBuilder.Holds (b : Mdu0HeaderBuilder) (records : List FileRecordV1) : Prop where
  lists : b.toMdu0Builder.Lists records
  synced : slice b.buffer fileTableStart 128 = b.header.toBytes

/-- A slice in range is written. -/
theorem copyInto_eq_some {buffer bytes : Bytes} {offset : Nat}
    (h : offset + bytes.length ≤ buffer.length) :
    copyInto buffer offset bytes = some (overwrite buffer offset bytes) := if_pos h

section Holds

variable {b : Mdu0HeaderBuilder} {records : List FileRecordV1} {r : FileRecordV1}

/-- Both headers count the records. -/
theorem Mdu0HeaderBuilder.Holds.recordCount_eq (h : b.Holds records) :
    b.header.recordCount.toNat = records.length := by
  have hfield : slice b.buffer (fileTableStart + 8) 4 = leBytes 4 b.header.recordCount.toNat := by
    rw [← b.header.slice_count, ← h.synced, slice_slice (by decide)]
  have hcount := h.lists.count
  rwa [hfield, ofLeBytes_leBytes (by exact b.header.recordCount.toNat_lt)] at hcount

/-- The count the builder keeps is the count in its buffer. -/
theorem Mdu0HeaderBuilder.Holds.recordCount_eq_buffer (h : b.Holds records) :
    b.toMdu0Builder.recordCount = b.header.recordCount := by
  apply UInt32.toNat_inj.mp
  rw [h.lists.recordCount_eq, h.recordCount_eq]

/-- Flushing writes what is there already. -/
theorem Mdu0HeaderBuilder.Holds.flushHeader (h : b.Holds records) : b.flushHeader = some b := by
  have hroom : fileTableStart + b.header.toBytes.length ≤ b.buffer.length := by
    rw [FileTableHeader.length_toBytes, h.lists.length]
    decide
  have hsame : overwrite b.buffer fileTableStart b.header.toBytes = b.buffer := by
    have hsplit := List.take_append_drop 128 (b.buffer.drop fileTableStart)
    rw [List.drop_drop] at hsplit
    rw [overwrite, FileTableHeader.length_toBytes, ← h.synced, slice, List.append_assoc, hsplit,
      List.take_append_drop]
  rw [Mdu0HeaderBuilder.flushHeader, copyInto_eq_some hroom, hsame]
  rfl

/-- Writing the header back leaves the buffer as it is: it is already there. -/
theorem Mdu0HeaderBuilder.Holds.bytes (h : b.Holds records) : b.bytes = some b.buffer := by
  rw [Mdu0HeaderBuilder.bytes, h.flushHeader]
  rfl

/-- A write that spares the header. -/
theorem Mdu0HeaderBuilder.Holds.synced_overwrite (h : b.Holds records) {offset : Nat}
    {piece : Bytes} (hroom : offset + piece.length ≤ b.buffer.length)
    (hdisjoint : fileTableStart + 128 ≤ offset ∨ offset + piece.length ≤ fileTableStart) :
    slice (overwrite b.buffer offset piece) fileTableStart 128 = b.header.toBytes := by
  rw [slice_overwrite_of_disjoint hroom hdisjoint, h.synced]

/-- A new builder holds nothing. -/
theorem Mdu0HeaderBuilder.holds_new (maxUserMdus commitmentsPerMdu : UInt64) :
    ∃ b, newWithCommitments maxUserMdus commitmentsPerMdu = some b ∧ b.Holds [] ∧
      b.toMdu0Builder = Mdu0Builder.newWithCommitments maxUserMdus commitmentsPerMdu := by
  have hroom : fileTableStart + emptyFileTableHeader.length ≤
      (List.replicate mduSize (0 : UInt8)).length := by
    rw [length_emptyFileTableHeader, List.length_replicate]
    decide
  have hbytes : { FileTableHeader.default with recordSize := 64, recordCount := 0 }.toBytes =
      emptyFileTableHeader := by decide
  have hself := slice_overwrite_self hroom
  rw [length_emptyFileTableHeader] at hself
  refine ⟨⟨Mdu0Builder.newWithCommitments maxUserMdus commitmentsPerMdu, FileTableHeader.default⟩,
    ?_, ⟨Mdu0Builder.lists_new _ _, ?_⟩, rfl⟩
  · rw [newWithCommitments, Mdu0HeaderBuilder.flushHeader]
    simp only [hbytes]
    rw [copyInto_eq_some hroom]
    rfl
  · exact hself.trans hbytes.symm

/-- The header of the bytes of a buffer. -/
def bufferHeader (data : Bytes) (h : data.length = mduSize) : FileTableHeader :=
  FileTableHeader.fromBytes (slice data fileTableStart fileTableHeaderSize)
    (length_slice (by rw [h]; decide))

/-- The header read off a buffer of one MDU is the 128 bytes at the start of its file table. -/
theorem toBytes_bufferHeader {data : Bytes} (h : data.length = mduSize) :
    (bufferHeader data h).toBytes = slice data fileTableStart 128 :=
  FileTableHeader.toBytes_fromBytes _

/-- The magic of that header is the table's first 4 bytes. -/
theorem magic_bufferHeader {data : Bytes} (h : data.length = mduSize) :
    (bufferHeader data h).magic = slice data fileTableStart 4 := by
  rw [← FileTableHeader.slice_magic, toBytes_bufferHeader, slice_slice (by decide)]
  rfl

/-- What is loaded: the bytes, and their header, which has the right magic. -/
theorem Mdu0HeaderBuilder.loadWithCommitments_eq_ok {data : Bytes}
    {maxUserMdus commitmentsPerMdu : UInt64} :
    loadWithCommitments data maxUserMdus commitmentsPerMdu = .ok b ↔
      ∃ h : data.length = mduSize, slice data fileTableStart 4 = magicNilf ∧
        b = ⟨⟨data, witnessMduCountOf maxUserMdus commitmentsPerMdu, maxUserMdus,
          effectiveCommitments commitmentsPerMdu⟩, bufferHeader data h⟩ := by
  rw [loadWithCommitments]
  -- the three refusals: the size, the magic, and nothing else
  by_cases h : data.length = mduSize
  · have hmagic := magic_bufferHeader h
    rw [dif_pos h]
    show (if (bufferHeader data h).magic ≠ magicNilf then Except.error "invalid magic" else _) = _ ↔
      _
    rw [hmagic]
    by_cases hnilf : slice data fileTableStart 4 = magicNilf
    · rw [if_neg (not_not.mpr hnilf)]
      constructor
      · intro hok
        exact ⟨h, hnilf, (Except.ok.inj hok).symm⟩
      · rintro ⟨-, -, rfl⟩
        rfl
    · rw [if_pos hnilf]
      constructor
      · intro hok
        cases hok
      · rintro ⟨-, hmagic, -⟩
        exact absurd hmagic hnilf
  · rw [dif_neg h]
    constructor
    · intro hok
      cases hok
    · rintro ⟨hlength, -⟩
      exact absurd hlength h

/-- The records are in the buffer alone. -/
theorem Mdu0HeaderBuilder.Holds.of_buffer (h : b.Holds records) {header : FileTableHeader}
    (hsynced : slice b.buffer fileTableStart 128 = header.toBytes)
    (witnessMduCount maxUserMdus commitmentsPerMdu : UInt64) :
    Mdu0HeaderBuilder.Holds
        ⟨⟨b.buffer, witnessMduCount, maxUserMdus, commitmentsPerMdu⟩, header⟩ records ∧
      (⟨⟨b.buffer, witnessMduCount, maxUserMdus, commitmentsPerMdu⟩, header⟩ :
        Mdu0HeaderBuilder).buffer =
        b.buffer :=
  ⟨⟨h.lists.of_buffer rfl, hsynced⟩, rfl⟩

/-- What a builder holds is loaded from its buffer. -/
theorem Mdu0HeaderBuilder.Holds.load (h : b.Holds records)
    (maxUserMdus commitmentsPerMdu : UInt64) :
    ∃ b', loadWithCommitments b.buffer maxUserMdus commitmentsPerMdu = .ok b' ∧ b'.Holds records ∧
      b'.buffer = b.buffer := by
  have hsynced := toBytes_bufferHeader h.lists.length
  exact ⟨_, loadWithCommitments_eq_ok.mpr ⟨h.lists.length, h.lists.magic, rfl⟩,
    h.of_buffer hsynced.symm _ _ _⟩

/-- The records are read. -/
theorem Mdu0HeaderBuilder.Holds.getFileRecord (h : b.Holds records) {i : UInt32}
    (hr : records[i.toNat]? = some r) :
    b.getFileRecord i = some r := by
  have hi := (List.getElem?_eq_some_iff.mp hr).1
  have hle := h.lists.length_le
  have hfits : recordOffset i.toNat + fileRecordSize ≤ b.buffer.length := by
    rw [recordOffset_add, fileRecordSize, h.lists.length, mduSize]
    omega
  rw [Mdu0HeaderBuilder.getFileRecord, Mdu0Builder.getFileRecord, dif_pos hfits]
  simp only [h.lists.record _ r hr, FileRecordV1.fromBytes_toBytes]

/-- A record is appended while there is room: the call succeeds, the record is the last one, and the
roots stay. The header that the builder keeps and the header in the buffer stay the same. -/
theorem Mdu0HeaderBuilder.Holds.append (h : b.Holds records) (r : FileRecordV1)
    (hroom : records.length < 98302) :
    ∃ b', b.appendFileRecord r = some (b', .ok ()) ∧ b'.Holds (records ++ [r]) ∧
      ∀ i < 65536, b'.getRoot i = b.getRoot i := by
  have hoffset : recordOffset records.length = 2097280 + 64 * records.length := recordOffset_add _
  have hfits : ¬recordOffset records.length + fileRecordSize > fileTableEnd := by
    rw [hoffset, fileRecordSize, fileTableEnd]
    omega
  have hrecord : recordOffset records.length + r.toBytes.length ≤ b.buffer.length := by
    rw [FileRecordV1.length_toBytes, h.lists.length, hoffset, mduSize]
    omega
  -- the record is behind the header, so the buffer still has it
  have hsynced := h.synced_overwrite hrecord (Or.inl (by rw [hoffset, fileTableStart]; omega))
  have hheader := overwrite_header hsynced (b.header.recordCount + 1)
  have hflush : fileTableStart +
      { b.header with recordCount := b.header.recordCount + 1 }.toBytes.length ≤
      (overwrite b.buffer (recordOffset records.length) r.toBytes).length := by
    rw [FileTableHeader.length_toBytes, length_overwrite hrecord, h.lists.length]
    decide
  -- Without its own header the builder does the same.
  have hplain : b.toMdu0Builder.appendFileRecord r = .ok { b.toMdu0Builder with
      buffer :=
        overwrite (overwrite b.buffer (recordOffset records.length) r.toBytes) fileTableStart
        { b.header with recordCount := b.header.recordCount + 1 }.toBytes } := by
    rw [Mdu0Builder.appendFileRecord, h.recordCount_eq_buffer]
    simp only [h.recordCount_eq, if_neg hfits]
    rw [hheader]
    rfl
  obtain ⟨lists, hroots, -⟩ := h.lists.append hplain
  refine ⟨⟨_, { b.header with recordCount := b.header.recordCount + 1 }⟩, ?_, ⟨lists, ?_⟩, hroots⟩
  · rw [Mdu0HeaderBuilder.appendFileRecord]
    simp only [h.recordCount_eq, if_neg hfits, copyInto_eq_some hrecord]
    simp only [Option.bind_eq_bind, Option.bind_some, Mdu0HeaderBuilder.flushHeader,
      copyInto_eq_some hflush]
    rfl
  · have hself := slice_overwrite_self hflush
    rwa [FileTableHeader.length_toBytes] at hself

/-- A full table stays as it is. -/
theorem Mdu0HeaderBuilder.Holds.append_full (h : b.Holds records) (r : FileRecordV1)
    (hfull : ¬records.length < 98302) :
      b.appendFileRecord r = some (b, .error "file table full") := by
  have hfull : recordOffset b.header.recordCount.toNat + fileRecordSize > fileTableEnd := by
    rw [h.recordCount_eq, recordOffset_add, fileRecordSize, fileTableEnd]
    omega
  rw [Mdu0HeaderBuilder.appendFileRecord]
  simp only [if_pos hfull]

/-- A record below the count is replaced, and the roots stay. -/
theorem Mdu0HeaderBuilder.Holds.update (h : b.Holds records) {i : UInt32} (r : FileRecordV1)
    (hi : i.toNat < records.length) :
    ∃ b', b.updateFileRecord i r = some (b', .ok ()) ∧ b'.Holds (records.set i.toNat r) ∧
      ∀ j < 65536, b'.getRoot j = b.getRoot j := by
  have hle := h.lists.length_le
  have hoffset : recordOffset i.toNat = 2097280 + 64 * i.toNat := recordOffset_add _
  -- the index is below the count that the builder keeps
  have hindex : ¬i ≥ b.header.recordCount := by
    refine UInt32.not_le.mpr (UInt32.lt_iff_toNat_lt.mpr ?_)
    rwa [h.recordCount_eq]
  have hrecord : recordOffset i.toNat + r.toBytes.length ≤ b.buffer.length := by
    rw [FileRecordV1.length_toBytes, h.lists.length, hoffset, mduSize]
    omega
  have hplain : b.toMdu0Builder.updateFileRecord i r = .ok { b.toMdu0Builder with
      buffer := overwrite b.buffer (recordOffset i.toNat) r.toBytes } := by
    rw [Mdu0Builder.updateFileRecord, h.recordCount_eq_buffer, if_neg hindex]
    rfl
  obtain ⟨-, lists⟩ := h.lists.update hplain
  refine ⟨⟨_, b.header⟩, ?_, ⟨lists, ?_⟩, fun j hj => ?_⟩
  · rw [Mdu0HeaderBuilder.updateFileRecord, if_neg hindex, copyInto_eq_some hrecord]
    rfl
  · exact h.synced_overwrite hrecord (Or.inl (by rw [hoffset, fileTableStart]; omega))
  · exact slice_overwrite_of_disjoint hrecord (Or.inl (by rw [hoffset]; omega))

/-- There is no record to replace at the count and after it. -/
theorem Mdu0HeaderBuilder.Holds.update_out (h : b.Holds records) {i : UInt32} (r : FileRecordV1)
    (hi : ¬i.toNat < records.length) :
    b.updateFileRecord i r = some (b, .error "index out of bounds") := by
  have hindex : i ≥ b.header.recordCount := by
    refine UInt32.le_iff_toNat_le.mpr ?_
    rw [h.recordCount_eq]
    omega
  rw [Mdu0HeaderBuilder.updateFileRecord, if_pos hindex]

/-- Where a root stands. -/
theorem rootOffset_eq (index : UInt64) (hindex : index.toNat < 2 ^ 58) :
    (rootTableStart + index * rootSize).toNat = 32 * index.toNat ∧
      (rootTableStart + index * rootSize + rootSize > rootTableEnd ↔ ¬index.toNat < 65536) := by
  have hoffset : (rootTableStart + index * rootSize).toNat = 32 * index.toNat := by
    rw [UInt64.toNat_add, UInt64.toNat_mul]
    simp only [rootTableStart, rootSize, UInt64.reduceToNat]
    omega
  have hend : (rootTableStart + index * rootSize + rootSize).toNat = 32 * index.toNat + 32 := by
    rw [UInt64.toNat_add, hoffset]
    simp only [rootSize, UInt64.reduceToNat]
    omega
  refine ⟨hoffset, ?_⟩
  show rootTableEnd < rootTableStart + index * rootSize + rootSize ↔ _
  rw [UInt64.lt_iff_toNat_lt, hend]
  simp only [rootTableEnd, UInt64.reduceToNat]
  omega

/-- A root is set, and the records and the other roots stay. -/
theorem Mdu0HeaderBuilder.Holds.setRoot (h : b.Holds records) {index : UInt64}
    (hindex : index.toNat < 65536) {root : Bytes} (hroot : root.length = 32) :
    ∃ b', b.setRoot index root = some (b', .ok ()) ∧ b'.Holds records ∧
      ∀ j, b'.getRoot j = if j = index.toNat then root else b.getRoot j := by
  obtain ⟨hoffset, hend⟩ := rootOffset_eq index (by omega)
  have hplace : 32 * index.toNat + root.length ≤ b.buffer.length := by
    rw [hroot, h.lists.length, mduSize]
    omega
  obtain ⟨lists, hroots⟩ := h.lists.setRoot hindex hroot
  refine ⟨⟨_, b.header⟩, ?_, ⟨lists, ?_⟩, hroots⟩
  · rw [Mdu0HeaderBuilder.setRoot]
    simp only [if_neg (hend.not.mpr (not_not.mpr hindex)), hoffset, copyInto_eq_some hplace]
    rfl
  · exact h.synced_overwrite hplace (Or.inr (by rw [fileTableStart]; omega))

/-- There are no roots after the table. -/
theorem Mdu0HeaderBuilder.setRoot_out (b : Mdu0HeaderBuilder) {index : UInt64}
    (hindex : index.toNat < 2 ^ 58) (hout : ¬index.toNat < 65536) (root : Bytes) :
    b.setRoot index root = some (b, .error "root index out of bounds") := by
  rw [Mdu0HeaderBuilder.setRoot]
  simp only [if_pos ((rootOffset_eq index hindex).2.mpr hout)]

end Holds

end NilStore.Core
