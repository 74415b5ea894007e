import NilStore.Core.FileTable
import NilStore.Lib.Utf8
import NilStore.Website.UseFetch

/-!
# `NilStore.Website.NilfsLocal`: the file table as the browser reads it

`parseNilfsFilesFromMdu0` of `nil-website/src/lib/nilfsLocal.ts`. It reads the bytes of MDU #0 by
itself. A path ends at its first zero byte, is decoded as UTF-8 with replacements, and is trimmed.
Entries without a path or with length zero are left out. A number is the nearest one with 53 bits.

On a buffer that holds records, this is a walk over the records (`parseNilfsFilesFromMdu0_eq`).
-/

set_option autoImplicit false

namespace NilStore.Website

open NilStore.Lib NilStore.Core

/-- `new TextDecoder().decode`: a byte order mark at the start is dropped. -/
def textDecode (bytes : Bytes) : Str :=
  if bytes.take 3 = [0xEF, 0xBB, 0xBF] then decodeUtf8 (bytes.drop 3) else decodeUtf8 bytes

/-- `parseNullTerminatedUtf8`. What stands behind the first zero byte is not decoded. -/
def parseNullTerminatedUtf8 (bytes : Bytes) : Str := textDecode (bytes.takeWhile (· ≠ 0))

/-- `NilfsFileEntry`: a file of the table, with its numbers as the page has them. -/
structure NilfsFileEntry where
  path : Str
  sizeBytes : Nat
  startOffset : Nat
  flags : Nat
deriving DecidableEq

/-- `unpackLengthAndFlags`. The length goes through a binary64 number, the flags are one byte. -/
def unpackLengthAndFlags (lengthAndFlags : Nat) : Nat × Nat :=
  (toBinary64 (lengthAndFlags % 2 ^ 56), lengthAndFlags / 2 ^ 56 % 256)

/-- The entry of a record, if it is one: the body of the loop. -/
def parseRecord (mdu0 : Bytes) (off : Nat) : Option NilfsFileEntry :=
  let startOffset := toBinary64 (ofLeBytes (Lib.slice mdu0 off 8))
  let (length, flags) := unpackLengthAndFlags (ofLeBytes (Lib.slice mdu0 (off + 8) 8))
  let path := trim (parseNullTerminatedUtf8 (Lib.slice mdu0 (off + 24) 40))
  -- a tombstone
  if path = [] then none
  else if length ≤ 0 then none
  else some ⟨path, length, startOffset, flags⟩

/-- `parseNilfsFilesFromMdu0`. The loop ends where a record would leave the buffer. -/
def parseNilfsFilesFromMdu0 (mdu0 : Bytes) : List NilfsFileEntry :=
  if mdu0.length ≠ mduSize then []
  else if parseNullTerminatedUtf8 (Lib.slice mdu0 fileTableStart 4) ≠ "NILF".toList then []
  else
    let recordCount := ofLeBytes (Lib.slice mdu0 (fileTableStart + 8) 4)
    let fits := (List.range recordCount).takeWhile fun i =>
      recordOffset i + fileRecordSize ≤ mdu0.length
    fits.filterMap fun i => parseRecord mdu0 (recordOffset i)

/-! ### On a buffer that holds records -/

/-- The entry of a record. It is what the page sees of a record of the table. -/
def recordEntry (r : FileRecordV1) : Option NilfsFileEntry :=
  let path := trim (parseNullTerminatedUtf8 r.path)
  if path = [] then none
  else if toBinary64 r.fileLength.toNat ≤ 0 then none
  else some ⟨path, toBinary64 r.fileLength.toNat, toBinary64 r.startOffset.toNat,
    r.lengthAndFlags.toNat / 2 ^ 56 % 256⟩

/-- The length of a file is what stands below the flags. -/
theorem toNat_fileLength (r : FileRecordV1) :
    r.fileLength.toNat = r.lengthAndFlags.toNat % 2 ^ 56 := by
  show r.lengthAndFlags.toNat &&& (2 ^ 56 - 1) = _
  exact Nat.and_two_pow_sub_one_eq_mod _ _

/-- A number of 8 bytes. -/
theorem toNat_ofLeBytes {b : Bytes} (h : b.length = 8) :
    (UInt64.ofNat (ofLeBytes b)).toNat = ofLeBytes b := by
  refine UInt64.toNat_ofNat_of_lt' ?_
  have hlt := ofBeBytes_lt b.reverse
  rw [List.length_reverse, h] at hlt
  exact hlt

/-- Parsing the bytes of a record gives its entry. The browser reads the numbers from their own
places, as the builder wrote them. -/
theorem parseRecord_eq {buffer : Bytes} {off : Nat} {r : FileRecordV1}
    (h : Lib.slice buffer off 64 = r.toBytes) : parseRecord buffer off = recordEntry r := by
  -- a field of the buffer is one of the record
  have hfield : ∀ {p m : Nat}, p + m ≤ 64 →
      Lib.slice buffer (off + p) m = Lib.slice r.toBytes p m := by
    intro p m hp
    rw [← h, slice_slice hp]
  have hlength : ∀ {p : Nat}, p + 8 ≤ 64 → (Lib.slice r.toBytes p 8).length = 8 := by
    intro p hp
    exact length_slice (by rw [FileRecordV1.length_toBytes]; exact hp)
  have hread := FileRecordV1.fromBytes_toBytes r
  have hstart : ofLeBytes (Lib.slice r.toBytes 0 8) = r.startOffset.toNat := by
    rw [← toNat_ofLeBytes (hlength (by omega))]
    exact congrArg (fun r => r.startOffset.toNat) hread
  have hflags : ofLeBytes (Lib.slice r.toBytes 8 8) = r.lengthAndFlags.toNat := by
    rw [← toNat_ofLeBytes (hlength (by omega))]
    exact congrArg (fun r => r.lengthAndFlags.toNat) hread
  have hpath : Lib.slice r.toBytes 24 40 = r.path := congrArg FileRecordV1.path hread
  have hfirst := hfield (p := 0) (m := 8) (by omega)
  rw [Nat.add_zero] at hfirst
  rw [parseRecord, recordEntry, hfirst, hfield (by omega), hfield (by omega), hstart, hflags, hpath,
    toNat_fileLength]
  rfl

/-- A walk over the indices of a list is one over the list. -/
theorem filterMap_range {α β : Type} {f : Nat → Option β} {g : α → Option β} (l : List α)
    (h : ∀ i x, l[i]? = some x → f i = g x) :
      (List.range l.length).filterMap f = l.filterMap g := by
  induction l using List.reverseRecOn with
  | nil => rfl
  | append_singleton l x ih =>
      have hfront := ih fun i y hy => h i y <| by
        rw [List.getElem?_append_left (List.getElem?_eq_some_iff.mp hy).1]
        exact hy
      have hlast := h l.length x (by simp)
      rw [List.length_append, List.length_singleton, List.range_succ, List.filterMap_append, hfront,
        List.filterMap_append]
      simp only [List.filterMap_cons, List.filterMap_nil, hlast]

/-- The entries are those of the records. -/
theorem parseNilfsFilesFromMdu0_eq {b : Mdu0Builder} {records : List FileRecordV1}
    (h : b.Lists records) : parseNilfsFilesFromMdu0 b.buffer = records.filterMap recordEntry := by
  have hmagic : parseNullTerminatedUtf8 (Lib.slice b.buffer fileTableStart 4) = "NILF".toList := by
    rw [h.magic]
    exact decodeUtf8_utf8 "NILF".toList
  have hle := h.length_le
  have hfits : (List.range records.length).takeWhile
      (fun i => recordOffset i + fileRecordSize ≤ b.buffer.length) = List.range records.length := by
    rw [List.takeWhile_eq_self_iff]
    intro i hi
    have hlt := List.mem_range.mp hi
    rw [decide_eq_true_iff, recordOffset_add, fileRecordSize, h.length, mduSize]
    omega
  rw [parseNilfsFilesFromMdu0, if_neg (not_not.mpr h.length), if_neg (not_not.mpr hmagic)]
  simp only [h.count, hfits]
  exact filterMap_range records fun i r hr => parseRecord_eq (h.record i r hr)

end NilStore.Website
