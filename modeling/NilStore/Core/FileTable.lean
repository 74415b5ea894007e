import NilStore.Core.Mdu0
import NilStore.Lib.GoString
import NilStore.Lib.Layout
import NilStore.Lib.Tx

/-!
# `NilStore.Core.FileTable`: the file table of MDU #0

`nil_core/src/layout.rs`, and the functions of `nil_core/src/builder.rs` and `nil_core/src/ffi.rs`
for records of files. The table follows the roots: a header of 128 bytes with the number of records,
and then the records, 64 bytes each. The builder keeps a copy of the header, which it writes back
after each change, so here the header is read from the buffer.

`Mdu0Builder.Lists` says which records a buffer holds. The functions keep it (`Lists.setRoot`,
`Lists.append`), and with it the buffer reads back as these records (`Lists.records`).
-/

set_option autoImplicit false

namespace NilStore.Core

open NilStore.Lib

/-- `FILE_TABLE_END`. The table reaches to the end of the MDU. -/
def fileTableEnd : Nat := 8388608

/-- `FILE_TABLE_HEADER_SIZE`. The records start behind the header. -/
def fileTableHeaderSize : Nat := 128

/-- `FILE_RECORD_SIZE`. All records have this size. -/
def fileRecordSize : Nat := 64

/-- `MAGIC_NILF`. The four letters are the first bytes of the table. -/
def magicNilf : Bytes := [0x4e, 0x49, 0x4c, 0x46]

/-! ### Lengths and flags -/

/-- The bits of the length. -/
def lengthMask : UInt64 := 0x00FFFFFFFFFFFFFF

/-- `pack_length_and_flags`. The flags are the highest byte, and a longer length is cut. -/
def packLengthAndFlags (length : UInt64) (flags : UInt8) : UInt64 :=
  (flags.toUInt64 <<< 56) ||| (length &&& lengthMask)

/-- `unpack_length_and_flags`, as `UnpackLengthAndFlags` of the Go bindings. -/
def unpackLengthAndFlags (val : UInt64) : UInt64 × UInt8 :=
  (val &&& lengthMask, (val >>> 56).toUInt8)

/-- A length below `2 ^ 56` comes back. -/
theorem unpack_pack_zero {length : UInt64} (h : length.toNat < 2 ^ 56) :
    unpackLengthAndFlags (packLengthAndFlags length 0) = (length, 0) := by
  have hmask : length &&& lengthMask = length := by
    apply UInt64.toNat_inj.mp
    show length.toNat &&& (2 ^ 56 - 1) = length.toNat
    rw [Nat.and_two_pow_sub_one_eq_mod, Nat.mod_eq_of_lt h]
  have hshift : length >>> 56 = 0 := by
    apply UInt64.toNat_inj.mp
    show length.toNat >>> 56 = 0
    rw [Nat.shiftRight_eq_div_pow, Nat.div_eq_of_lt h]
  have hpack : packLengthAndFlags length 0 = length := by
    show (0 : UInt64) <<< 56 ||| (length &&& lengthMask) = length
    rw [hmask, UInt64.zero_shiftLeft, UInt64.zero_or]
  rw [hpack, unpackLengthAndFlags, hmask, hshift]
  rfl

/-! ### Records -/

/-- `FileRecordV1`. The path has 40 bytes, which a shorter one fills up with zeros. -/
structure FileRecordV1 where
  startOffset : UInt64
  lengthAndFlags : UInt64
  timestamp : UInt64
  path : Bytes
  path_length : path.length = 40
deriving DecidableEq

/-- `FileRecordV1::to_bytes`. The numbers are written with the lowest byte first. -/
def FileRecordV1.toBytes (r : FileRecordV1) : Bytes :=
  leBytes 8 r.startOffset.toNat ++ leBytes 8 r.lengthAndFlags.toNat ++
    leBytes 8 r.timestamp.toNat ++ r.path

/-- `FileRecordV1::from_bytes`, on an array of 64 bytes. -/
def FileRecordV1.fromBytes (bytes : Bytes) (h : bytes.length = 64) : FileRecordV1 where
  startOffset := UInt64.ofNat (ofLeBytes (slice bytes 0 8))
  lengthAndFlags := UInt64.ofNat (ofLeBytes (slice bytes 8 8))
  timestamp := UInt64.ofNat (ofLeBytes (slice bytes 16 8))
  path := slice bytes 24 40
  path_length := length_slice (by omega)

/-- The length of the file. The flags share the word with it. -/
def FileRecordV1.fileLength (r : FileRecordV1) : UInt64 := (unpackLengthAndFlags r.lengthAndFlags).1

/-- A record whose path starts with a zero byte is a tombstone. -/
def FileRecordV1.isTombstone (r : FileRecordV1) : Bool := r.path.head? == some 0

/-- A record takes 64 bytes, whatever it says. -/
@[simp] theorem FileRecordV1.length_toBytes (r : FileRecordV1) : r.toBytes.length = 64 := by
  simp [FileRecordV1.toBytes, r.path_length]

/-- A record is read back from its bytes: three numbers of eight bytes, little-endian, and the forty
bytes of the path. -/
theorem FileRecordV1.fromBytes_toBytes (r : FileRecordV1) :
    FileRecordV1.fromBytes r.toBytes r.length_toBytes = r := by
  have hnumber : ∀ x : UInt64, UInt64.ofNat (ofLeBytes (leBytes 8 x.toNat)) = x := by
    intro x
    rw [ofLeBytes_leBytes (by exact x.toNat_lt), UInt64.ofNat_toNat]
  -- a field that stands between others is cut out of them
  have hfield : ∀ (front field back : Bytes),
      slice (front ++ field ++ back) front.length field.length = field := by
    intro front field back
    rw [slice, List.append_assoc, List.drop_left, List.take_left]
  obtain ⟨startOffset, lengthAndFlags, timestamp, path, hpath⟩ := r
  -- each of the four fields, at its offset
  have hstart : slice
      (FileRecordV1.toBytes ⟨startOffset, lengthAndFlags, timestamp, path, hpath⟩) 0 8 =
      leBytes 8 startOffset.toNat := by
    simpa [FileRecordV1.toBytes] using hfield [] (leBytes 8 startOffset.toNat)
      (leBytes 8 lengthAndFlags.toNat ++ leBytes 8 timestamp.toNat ++ path)
  have hlength : slice
      (FileRecordV1.toBytes ⟨startOffset, lengthAndFlags, timestamp, path, hpath⟩) 8 8 =
      leBytes 8 lengthAndFlags.toNat := by
    simpa [FileRecordV1.toBytes] using hfield (leBytes 8 startOffset.toNat)
      (leBytes 8 lengthAndFlags.toNat) (leBytes 8 timestamp.toNat ++ path)
  have htime : slice
      (FileRecordV1.toBytes ⟨startOffset, lengthAndFlags, timestamp, path, hpath⟩) 16 8 =
      leBytes 8 timestamp.toNat := by
    simpa [FileRecordV1.toBytes] using hfield
      (leBytes 8 startOffset.toNat ++ leBytes 8 lengthAndFlags.toNat)
        (leBytes 8 timestamp.toNat) path
  have hname : slice
      (FileRecordV1.toBytes ⟨startOffset, lengthAndFlags, timestamp, path, hpath⟩) 24 40 =
      path := by
    simpa [FileRecordV1.toBytes, hpath] using hfield (leBytes 8 startOffset.toNat ++
      leBytes 8 lengthAndFlags.toNat ++ leBytes 8 timestamp.toNat) path []
  simp only [FileRecordV1.fromBytes, hstart, hlength, htime, hname, hnumber]

/-! ### The builder -/

/-- `header.record_count`. It is read from the buffer here, where the source keeps it in a field as
well. -/
def Mdu0Builder.recordCount (b : Mdu0Builder) : UInt32 :=
  UInt32.ofNat (ofLeBytes (slice b.buffer (fileTableStart + 8) 4))

/-- Where a record starts. -/
def recordOffset (index : Nat) : Nat :=
  fileTableStart + fileTableHeaderSize + index * fileRecordSize

/-- `Mdu0Builder::get_file_record`. There is no record where the slice of the buffer would panic. -/
def Mdu0Builder.getFileRecord (b : Mdu0Builder) (index : Nat) : Option FileRecordV1 :=
  if h : recordOffset index + fileRecordSize ≤ b.buffer.length then
    some (FileRecordV1.fromBytes (slice b.buffer (recordOffset index) fileRecordSize)
      (length_slice h))
  else none

/-- `Mdu0Builder::append_file_record`. Of the header only the count changes. -/
def Mdu0Builder.appendFileRecord (b : Mdu0Builder) (r : FileRecordV1) : Except String Mdu0Builder :=
  let offset := recordOffset b.recordCount.toNat
  if offset + fileRecordSize > fileTableEnd then .error "file table full"
  else
    let buffer := copyFromSlice b.buffer offset r.toBytes
    .ok { b with buffer :=
      copyFromSlice buffer (fileTableStart + 8) (leBytes 4 (b.recordCount + 1).toNat) }

/-- `Mdu0Builder::load_with_commitments`. Only the size and the magic are checked. -/
def Mdu0Builder.loadWithCommitments (data : Bytes) (maxUserMdus commitmentsPerMdu : UInt64) :
    Except String Mdu0Builder :=
  if data.length ≠ mduSize then .error "invalid MDU size"
  else if slice data fileTableStart 4 ≠ magicNilf then .error "invalid magic"
  else .ok ⟨data, witnessMduCountOf maxUserMdus commitmentsPerMdu, maxUserMdus,
    effectiveCommitments commitmentsPerMdu⟩

/-- The records below the count, in their order, as a loop over `nil_mdu0_get_record` meets them.
There are none where the loop would panic. -/
def Mdu0Builder.records (b : Mdu0Builder) : Option (List FileRecordV1) :=
  (List.range b.recordCount.toNat).mapM b.getFileRecord

/-- `Mdu0Builder::get_root`, for an index in the table. -/
def Mdu0Builder.getRoot (b : Mdu0Builder) (index : Nat) : Bytes := slice b.buffer (32 * index) 32

/-! ### Appending a file -/

/-- The bytes of a C string. They end before the first zero. -/
def cString (text : Bytes) : Bytes := text.takeWhile (· ≠ 0)

/-- `CStr::to_str` takes the bytes. A path that is not UTF-8 is refused. -/
def isUtf8 (bytes : Bytes) : Bool := bytes.toByteArray.validateUTF8

/-- The record of a file: the path is padded with zeros, and there are no flags. -/
def fileRecord (path : Bytes) (size startOffset : UInt64) (h : path.length ≤ 40) :
    FileRecordV1 where
  startOffset := startOffset
  lengthAndFlags := packLengthAndFlags size 0
  timestamp := 0
  path := path ++ List.replicate (40 - path.length) 0
  path_length := by
    rw [List.length_append, List.length_replicate]
    omega

/-- `nil_mdu0_append_file`. The path is checked before the table is touched. -/
def nilMdu0AppendFile (b : Mdu0Builder) (path : Bytes) (size startOffset : UInt64) :
    Except Int Mdu0Builder :=
  let path := cString path
  if ¬isUtf8 path then .error (-2)
  else if h : path.length ≤ 40 then
    (b.appendFileRecord (fileRecord path size startOffset h)).mapError fun _ => -4
  else .error (-3)

/-! ### What a buffer holds -/

/-- The buffer holds these records. -/
structure Mdu0Builder.Lists (b : Mdu0Builder) (records : List FileRecordV1) : Prop where
  length : b.buffer.length = mduSize
  magic : slice b.buffer fileTableStart 4 = magicNilf
  count : ofLeBytes (slice b.buffer (fileTableStart + 8) 4) = records.length
  room : recordOffset records.length ≤ fileTableEnd
  record : ∀ i r, records[i]? = some r → slice b.buffer (recordOffset i) fileRecordSize = r.toBytes

/-- A root that was never set. -/
def zeroRoot : Bytes := List.replicate 32 0

/-- The byte a record starts at, as one number: the header's 128 bytes behind the start of the
table. -/
theorem recordOffset_add (i : Nat) : recordOffset i = 2097280 + 64 * i := by
  rw [recordOffset, fileTableStart, fileTableHeaderSize, fileRecordSize]
  omega

/-- The header of an empty table already has its 128 bytes. -/
@[simp] theorem length_emptyFileTableHeader : emptyFileTableHeader.length = 128 := by
  simp [emptyFileTableHeader]

section

variable {b b' : Mdu0Builder} {records : List FileRecordV1}

/-- A table has at most 98302 records. -/
theorem Mdu0Builder.Lists.length_le (h : b.Lists records) : records.length ≤ 98302 := by
  have hroom := h.room
  rw [recordOffset_add, fileTableEnd] at hroom
  omega

/-- The count in the header is the number of records listed. -/
theorem Mdu0Builder.Lists.recordCount_eq (h : b.Lists records) :
    b.recordCount.toNat = records.length := by
  have hle := h.length_le
  rw [Mdu0Builder.recordCount, h.count]
  exact UInt32.toNat_ofNat_of_lt' (show records.length < 2 ^ 32 by omega)

/-- The records are read back. -/
theorem Mdu0Builder.Lists.records_eq (h : b.Lists records) : b.records = some records := by
  have hget : ∀ i r, records[i]? = some r → b.getFileRecord i = some r := by
    intro i r hr
    have hi := (List.getElem?_eq_some_iff.mp hr).1
    have hle := h.length_le
    have hfits : recordOffset i + fileRecordSize ≤ b.buffer.length := by
      rw [recordOffset_add, fileRecordSize, h.length, mduSize]
      omega
    rw [Mdu0Builder.getFileRecord, dif_pos hfits]
    simp only [h.record i r hr, FileRecordV1.fromBytes_toBytes]
  rw [Mdu0Builder.records, h.recordCount_eq]
  exact mapM_range_eq_some records hget

/-- A new builder has no records: its buffer is zeros, and an empty header at the start of the
table. -/
theorem Mdu0Builder.lists_new (maxUserMdus commitmentsPerMdu : UInt64) :
    (Mdu0Builder.newWithCommitments maxUserMdus commitmentsPerMdu).Lists [] := by
  have hroom : fileTableStart + emptyFileTableHeader.length ≤
      (List.replicate mduSize (0 : UInt8)).length := by
    rw [length_emptyFileTableHeader, List.length_replicate]
    decide
  have hheader := slice_overwrite_self hroom
  rw [length_emptyFileTableHeader] at hheader
  have hfield : ∀ {p n : Nat}, p + n ≤ 128 →
      slice (Mdu0Builder.newWithCommitments maxUserMdus commitmentsPerMdu).buffer
        (fileTableStart + p) n =
        slice emptyFileTableHeader p n := by
    intro p n hp
    rw [← slice_slice hp]
    exact congrArg (slice · p n) hheader
  -- the length, the magic, the count, the room; and there is no record to be read
  refine ⟨?_, ?_, ?_, by decide, ?_⟩
  · exact (length_overwrite hroom).trans List.length_replicate
  · exact (hfield (p := 0) (by omega)).trans (by decide)
  · rw [hfield (by omega)]
    decide
  · intro i r hr
    cases hr

/-- A new builder has no roots. -/
theorem Mdu0Builder.getRoot_new (maxUserMdus commitmentsPerMdu : UInt64) {i : Nat}
    (hi : i < 65536) :
    (Mdu0Builder.newWithCommitments maxUserMdus commitmentsPerMdu).getRoot i = zeroRoot := by
  have hroom : fileTableStart + emptyFileTableHeader.length ≤
      (List.replicate mduSize (0 : UInt8)).length := by
    rw [length_emptyFileTableHeader, List.length_replicate]
    decide
  show slice (overwrite (List.replicate mduSize 0) fileTableStart emptyFileTableHeader)
    (32 * i) 32 = _
  rw [slice_overwrite_of_disjoint hroom (Or.inl (by rw [fileTableStart]; omega)), slice,
    List.drop_replicate, List.take_replicate, zeroRoot]
  congr 1
  rw [mduSize]
  omega

/-- What a root is set to, and where. The bound on the index keeps the product in the source from
wrapping around; from `2 ^ 58` on it does, and the test on the end of the table can pass by
mistake. -/
theorem Mdu0Builder.setRoot_eq_ok {index : UInt64} {root : Bytes} (hindex : index.toNat < 2 ^ 58) :
    b.setRoot index root = .ok b' ↔
      index.toNat < 65536 ∧
        b' = { b with buffer := overwrite b.buffer (32 * index.toNat) root } := by
  -- the offset and the end, as the source computes them in 64 bits
  have hoffset : (rootTableStart + index * rootSize).toNat = 32 * index.toNat := by
    rw [UInt64.toNat_add, UInt64.toNat_mul]
    simp only [rootTableStart, rootSize, UInt64.reduceToNat]
    omega
  have hend : (rootTableStart + index * rootSize + rootSize).toNat = 32 * index.toNat + 32 := by
    rw [UInt64.toNat_add, hoffset]
    simp only [rootSize, UInt64.reduceToNat]
    omega
  -- so the test of the source is the test on the index
  have hroom : rootTableStart + index * rootSize + rootSize > rootTableEnd ↔
      ¬index.toNat < 65536 := by
    show rootTableEnd < rootTableStart + index * rootSize + rootSize ↔ _
    rw [UInt64.lt_iff_toNat_lt, hend]
    simp only [rootTableEnd, UInt64.reduceToNat]
    omega
  rw [Mdu0Builder.setRoot]
  simp only [hroom, hoffset]
  by_cases hlt : index.toNat < 65536
  · rw [if_neg (not_not.mpr hlt)]
    constructor
    · intro h
      exact ⟨hlt, (Except.ok.inj h).symm⟩
    · rintro ⟨-, rfl⟩
      rfl
  · rw [if_pos hlt]
    constructor
    · intro h
      cases h
    · intro h
      exact absurd h.1 hlt

/-- A root that is set leaves the records, and the other roots, as they were. -/
theorem Mdu0Builder.Lists.setRoot (h : b.Lists records) {i : Nat} (hi : i < 65536) {root : Bytes}
    (hroot : root.length = 32) :
    Mdu0Builder.Lists { b with buffer := overwrite b.buffer (32 * i) root } records ∧
      ∀ j, Mdu0Builder.getRoot { b with buffer := overwrite b.buffer (32 * i) root } j =
        if j = i then root else b.getRoot j := by
  have hroom : 32 * i + root.length ≤ b.buffer.length := by
    rw [hroot, h.length, mduSize]
    omega
  -- the table of files is behind the last root
  have hafter : ∀ o n, 2097152 ≤ o →
      slice (overwrite b.buffer (32 * i) root) o n = slice b.buffer o n := fun o n ho =>
    slice_overwrite_of_disjoint hroom (Or.inr (by omega))
  refine ⟨⟨(length_overwrite hroom).trans h.length, ?_, ?_, h.room, fun j r hr => ?_⟩, fun j => ?_⟩
  · exact (hafter _ _ le_rfl).trans h.magic
  · have hcount := hafter (fileTableStart + 8) 4 (by rw [fileTableStart]; omega)
    rw [hcount]
    exact h.count
  · have hrecord := hafter (recordOffset j) fileRecordSize (by rw [recordOffset_add]; omega)
    rw [hrecord]
    exact h.record j r hr
  -- the root that was set, and the others, which it does not overlap
  · show slice (overwrite b.buffer (32 * i) root) (32 * j) 32 = _
    by_cases hj : j = i
    · subst hj
      rw [if_pos rfl]
      have hself := slice_overwrite_self hroom
      rwa [hroot] at hself
    · rw [if_neg hj]
      exact slice_overwrite_of_disjoint hroom (by omega)

/-- A record is appended while there is room, and leaves the other records and the roots as they
were. -/
theorem Mdu0Builder.Lists.append (h : b.Lists records) {r : FileRecordV1}
    (happend : b.appendFileRecord r = .ok b') :
    b'.Lists (records ++ [r]) ∧ (∀ i < 65536, b'.getRoot i = b.getRoot i) ∧
      b'.witnessMduCount = b.witnessMduCount := by
  have hle := h.length_le
  rw [Mdu0Builder.appendFileRecord] at happend
  simp only [h.recordCount_eq] at happend
  split at happend
  · cases happend
  · rename_i hfits
    cases happend
    rw [recordOffset_add, fileRecordSize, fileTableEnd] at hfits
    -- the record is written first, and then the count
    set front := overwrite b.buffer (recordOffset records.length) r.toBytes with hfront
    have hroom : recordOffset records.length + r.toBytes.length ≤ b.buffer.length := by
      rw [FileRecordV1.length_toBytes, h.length, recordOffset_add, mduSize]
      omega
    have hlength : front.length = mduSize := (length_overwrite hroom).trans h.length
    have hcount : (b.recordCount + 1).toNat = records.length + 1 := by
      rw [UInt32.toNat_add, h.recordCount_eq]
      show (records.length + 1) % 2 ^ 32 = _
      omega
    have hroom' : fileTableStart + 8 + (leBytes 4 (b.recordCount + 1).toNat).length ≤
        front.length := by
      rw [length_leBytes, hlength]
      decide
    -- a field that meets neither the new record nor the count
    have hother : ∀ o n, (o + n ≤ fileTableStart + 8 ∨ fileTableStart + 12 ≤ o) →
        o + n ≤ recordOffset records.length →
        slice (overwrite front (fileTableStart + 8) (leBytes 4 (b.recordCount + 1).toNat)) o n =
          slice b.buffer o n := by
      intro o n hcount hbefore
      rw [slice_overwrite_of_disjoint hroom' (by rwa [length_leBytes]), hfront,
        slice_overwrite_of_disjoint hroom (Or.inl hbefore)]
    have hstart : recordOffset records.length = 2097280 + 64 * records.length := recordOffset_add _
    refine ⟨⟨(length_overwrite hroom').trans hlength, ?_, ?_, ?_, fun i s hs => ?_⟩,
      fun i hi => ?_, rfl⟩
    · exact (hother fileTableStart 4 (Or.inl (by omega))
        (by rw [hstart, fileTableStart]; omega)).trans
        h.magic
    -- the count has gone up by one
    · have hself := slice_overwrite_self hroom'
      rw [length_leBytes, hcount] at hself
      show ofLeBytes (slice (overwrite front (fileTableStart + 8)
        (leBytes 4 (b.recordCount + 1).toNat)) (fileTableStart + 8) 4) = _
      rw [hcount, hself, ofLeBytes_leBytes (show records.length + 1 < 4294967296 by omega),
        List.length_append, List.length_singleton]
    · rw [List.length_append, List.length_singleton, recordOffset_add, fileTableEnd]
      omega
    -- an old record is before the new one, which is where it was written
    · show slice (overwrite front (fileTableStart + 8) (leBytes 4 (b.recordCount + 1).toNat))
        (recordOffset i) fileRecordSize = _
      rcases Nat.lt_or_ge i records.length with hi | hi
      · rw [hother _ _ (Or.inr (by rw [recordOffset_add, fileTableStart]; omega))
          (by rw [recordOffset_add, fileRecordSize, hstart]; omega)]
        rw [List.getElem?_append_left hi] at hs
        exact h.record i s hs
      · have hi' : i = records.length := by
          have := (List.getElem?_eq_some_iff.mp hs).1
          rw [List.length_append, List.length_singleton] at this
          omega
        subst hi'
        rw [List.getElem?_append_right (Nat.le_refl _), Nat.sub_self] at hs
        cases hs
        have hself := slice_overwrite_self hroom
        rw [FileRecordV1.length_toBytes] at hself
        rw [slice_overwrite_of_disjoint hroom' (Or.inr (by
          rw [length_leBytes, recordOffset_add, fileTableStart]; omega))]
        exact hself
    · refine hother (32 * i) 32 (Or.inl (by rw [fileTableStart]; omega)) ?_
      rw [hstart]
      omega

/-- The records are in the buffer alone. -/
theorem Mdu0Builder.Lists.of_buffer (h : b.Lists records) (hbuffer : b'.buffer = b.buffer) :
    b'.Lists records := by
  refine ⟨?_, ?_, ?_, h.room, fun i r hr => ?_⟩
  · rw [hbuffer]
    exact h.length
  · rw [hbuffer]
    exact h.magic
  · rw [hbuffer]
    exact h.count
  · rw [hbuffer]
    exact h.record i r hr

/-- What was built is loaded again. -/
theorem Mdu0Builder.Lists.load (h : b.Lists records) (maxUserMdus commitmentsPerMdu : UInt64) :
    Mdu0Builder.loadWithCommitments b.buffer maxUserMdus commitmentsPerMdu =
      .ok ⟨b.buffer, witnessMduCountOf maxUserMdus commitmentsPerMdu, maxUserMdus,
        effectiveCommitments commitmentsPerMdu⟩ := by
  have hlength := h.length
  have hmagic := h.magic
  unfold Mdu0Builder.loadWithCommitments
  split
  · contradiction
  · split
    · contradiction
    · rfl

end

/-! ### The record of a file -/

/-- A path that does not start with a zero byte. -/
theorem isTombstone_fileRecord {path : Bytes} (size startOffset : UInt64) (h : path.length ≤ 40) :
    (fileRecord path size startOffset h).isTombstone = false ↔ path ≠ [] ∧ path.head? ≠ some 0 := by
  rw [FileRecordV1.isTombstone, fileRecord]
  cases path with
  | nil => simp [List.replicate_succ]
  | cons x path => simp

/-- The length of a file below `2 ^ 56` is in its record. -/
theorem fileLength_fileRecord {path : Bytes} {size : UInt64} (startOffset : UInt64)
    (h : path.length ≤ 40) (hsize : size.toNat < 2 ^ 56) :
    (fileRecord path size startOffset h).fileLength = size := by
  rw [FileRecordV1.fileLength, fileRecord, unpack_pack_zero hsize]

end NilStore.Core
