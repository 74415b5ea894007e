import NilStore.Core.FileTable

/-!
# `NilStore.Core.FileSlots`: records that are replaced

The functions of `nil_core/src/builder.rs` that change a record in its place: `update_file_record`,
with which a file is deleted, and `find_free_slot_and_insert`, which reuses the slot of a deleted
one. With these, `Mdu0Builder.Written` is every builder that a sequence of calls makes, and each
holds some records (`Written.lists`).
-/

set_option autoImplicit false

namespace NilStore.Core

open NilStore.Lib

/-- `Mdu0Builder::update_file_record`. A record is overwritten in its place, and the count stays. -/
def Mdu0Builder.updateFileRecord (b : Mdu0Builder) (index : UInt32) (r : FileRecordV1) :
    Except String Mdu0Builder :=
  if index ≥ b.recordCount then .error "index out of bounds"
  else .ok { b with buffer := copyFromSlice b.buffer (recordOffset index.toNat) r.toBytes }

/-- A tombstone with room for a file of this length. The first one that is found is taken. -/
def Mdu0Builder.freeSlot (b : Mdu0Builder) (requiredLen : UInt64) (i : Nat) :
    Option (UInt32 × FileRecordV1) :=
  (b.getFileRecord i).bind fun existing =>
    if existing.isTombstone ∧ existing.fileLength ≥ requiredLen then some (UInt32.ofNat i, existing)
    else none

/-- The path of a tombstone has the 40 bytes of every path. -/
theorem length_noPath : (List.replicate 40 (0 : UInt8)).length = 40 := List.length_replicate

/-- The tombstone of the room that a file leaves in a slot. -/
def leftoverTombstone (existing : FileRecordV1) (requiredLen : UInt64) : FileRecordV1 where
  startOffset := existing.startOffset + requiredLen
  lengthAndFlags := packLengthAndFlags (existing.fileLength - requiredLen) 0
  timestamp := 0
  path := List.replicate 40 0
  path_length := length_noPath

/-- `Mdu0Builder::find_free_slot_and_insert`. The builder may have changed where the result is an
error. -/
def Mdu0Builder.findFreeSlotAndInsert (b : Mdu0Builder) (r : FileRecordV1) :
    Mdu0Builder × Except String UInt32 :=
  let requiredLen := r.fileLength
  match (List.range b.recordCount.toNat).findSome? (b.freeSlot requiredLen) with
  | some (i, existing) =>
      match b.updateFileRecord i { r with startOffset := existing.startOffset } with
      | .error e => (b, .error e)
      | .ok b =>
          if existing.fileLength - requiredLen > 0 then
            match b.appendFileRecord (leftoverTombstone existing requiredLen) with
            | .error e => (b, .error e)
            | .ok b => (b, .ok i)
          else (b, .ok i)
  | none =>
      match b.appendFileRecord r with
      | .error e => (b, .error e)
      | .ok b => (b, .ok (b.recordCount - 1))

/-- What the calls on a builder make of it. -/
inductive Mdu0Builder.Written : Mdu0Builder → Prop where
  | new (maxUserMdus commitmentsPerMdu : UInt64) :
      Written (Mdu0Builder.newWithCommitments maxUserMdus commitmentsPerMdu)
  | load {b b' : Mdu0Builder} (maxUserMdus commitmentsPerMdu : UInt64) (hb : Written b)
      (h : Mdu0Builder.loadWithCommitments b.buffer maxUserMdus commitmentsPerMdu =
        .ok b') : Written b'
  | setRoot {b b' : Mdu0Builder} {index : UInt64} {root : Bytes} (hb : Written b)
      (hindex : index.toNat < 65536) (hroot : root.length = 32)
      (h : b.setRoot index root = .ok b') : Written b'
  | append {b b' : Mdu0Builder} {r : FileRecordV1} (hb : Written b)
      (h : b.appendFileRecord r = .ok b') : Written b'
  | update {b b' : Mdu0Builder} {index : UInt32} {r : FileRecordV1} (hb : Written b)
      (h : b.updateFileRecord index r = .ok b') : Written b'
  | insert {b : Mdu0Builder} (r : FileRecordV1) (hb : Written b) :
      Written (b.findFreeSlotAndInsert r).1

section

variable {b b' : Mdu0Builder} {records : List FileRecordV1}

/-- A record below the count is replaced in its place. -/
theorem Mdu0Builder.Lists.update (h : b.Lists records) {index : UInt32} {r : FileRecordV1}
    (hupdate : b.updateFileRecord index r = .ok b') :
    index.toNat < records.length ∧ b'.Lists (records.set index.toNat r) := by
  have hle := h.length_le
  rw [Mdu0Builder.updateFileRecord] at hupdate
  split at hupdate
  · cases hupdate
  · rename_i hindex
    cases hupdate
    have hi : index.toNat < records.length := by
      rw [← h.recordCount_eq]
      exact UInt32.lt_iff_toNat_lt.mp (UInt32.not_le.mp hindex)
    -- the record is written at its offset, behind the header and the roots
    generalize index.toNat = i at hi ⊢
    have hstart : recordOffset i = 2097280 + 64 * i := recordOffset_add _
    have hroom : recordOffset i + r.toBytes.length ≤ b.buffer.length := by
      rw [FileRecordV1.length_toBytes, h.length, hstart, mduSize]
      omega
    -- the length, the magic, the count, the room, and each of the records
    refine ⟨hi, (length_overwrite hroom).trans h.length, ?_, ?_, ?_, fun j s hs => ?_⟩
    · refine (slice_overwrite_of_disjoint hroom (Or.inl ?_)).trans h.magic
      rw [hstart, fileTableStart]
      omega
    · have hcount := slice_overwrite_of_disjoint hroom (o := fileTableStart + 8) (n := 4)
        (Or.inl (by rw [hstart, fileTableStart]; omega))
      rw [List.length_set, ← h.count]
      exact congrArg ofLeBytes hcount
    · rw [List.length_set]
      exact h.room
    · show slice (overwrite b.buffer (recordOffset i) r.toBytes) (recordOffset j) fileRecordSize = _
      by_cases hij : i = j
      · subst hij
        rw [List.getElem?_set_self hi] at hs
        cases hs
        have hself := slice_overwrite_self hroom
        rwa [FileRecordV1.length_toBytes] at hself
      · rw [List.getElem?_set_ne hij] at hs
        rw [slice_overwrite_of_disjoint hroom]
        · exact h.record j s hs
        · rw [FileRecordV1.length_toBytes, recordOffset_add, recordOffset_add, fileRecordSize]
          omega

/-- A written builder holds records. -/
theorem Mdu0Builder.Written.lists (h : b.Written) : ∃ records, b.Lists records := by
  induction h with
  | new maxUserMdus commitmentsPerMdu => exact ⟨[], Mdu0Builder.lists_new _ _⟩
  | load maxUserMdus commitmentsPerMdu hb hload ih =>
      obtain ⟨records, hlists⟩ := ih
      rw [hlists.load] at hload
      cases hload
      exact ⟨records, hlists.of_buffer rfl⟩
  | setRoot hb hindex hroot hset ih =>
      obtain ⟨records, hlists⟩ := ih
      obtain ⟨hlt, rfl⟩ := (Mdu0Builder.setRoot_eq_ok (by omega)).mp hset
      exact ⟨records, (hlists.setRoot hlt hroot).1⟩
  | append hb happend ih =>
      obtain ⟨records, hlists⟩ := ih
      exact ⟨_, (hlists.append happend).1⟩
  | update hb hupdate ih =>
      obtain ⟨records, hlists⟩ := ih
      exact ⟨_, (hlists.update hupdate).2⟩
  | insert r hb ih =>
      obtain ⟨records, hlists⟩ := ih
      -- a free slot is used first; where its record was larger, the rest becomes a record of its
      -- own
      rw [Mdu0Builder.findFreeSlotAndInsert]
      split
      · split
        · exact ⟨records, hlists⟩
        · rename_i b₁ hupdate
          obtain ⟨-, hlists₁⟩ := hlists.update hupdate
          split
          -- the rest that was not used is appended, if there is room
          · split
            · exact ⟨_, hlists₁⟩
            · rename_i b₂ happend
              exact ⟨_, (hlists₁.append happend).1⟩
          · exact ⟨_, hlists₁⟩
      · split
        · exact ⟨records, hlists⟩
        · rename_i b₁ happend
          exact ⟨_, (hlists.append happend).1⟩

end

end NilStore.Core
