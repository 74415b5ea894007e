import NilStore.Core.Mdu0Header
import NilStore.Lib.Extents

/-!
# `NilStore.Proofs.FreeSlots`: slots that are reused

`find_free_slot_and_insert` puts a file into the first tombstone that is long enough. What is left
of the tombstone becomes a tombstone of its own at the end of the table. The files and tombstones of
a table occupy extents of the payload, and splitting one of them keeps these disjoint, and what they
cover.

The slot is overwritten before the rest of it is appended. When the table is full by then, the call
returns an error after it has changed the table. When the rest starts at `2 ^ 64` or after it, its
start wraps around. In all other cases the call does what it should (`insertKeeps_iff`).
-/

set_option autoImplicit false

namespace NilStore.Core

open NilStore.Lib

/-- The part of the payload that a file or a tombstone occupies. -/
def FileRecordV1.extent (r : FileRecordV1) : Set Nat :=
  Set.Ico r.startOffset.toNat (r.startOffset.toNat + r.fileLength.toNat)

/-- The extents of a table. -/
def extents (records : List FileRecordV1) : List (Set Nat) := records.map FileRecordV1.extent

/-- A tombstone with room for a file of this length. -/
def FileRecordV1.HasRoom (t : FileRecordV1) (requiredLen : UInt64) : Prop :=
  t.isTombstone ∧ t.fileLength ≥ requiredLen

instance (t : FileRecordV1) (requiredLen : UInt64) : Decidable (t.HasRoom requiredLen) :=
  inferInstanceAs (Decidable (_ ∧ _))

/-- The first of these tombstones, and its place, when the records are counted from `i`. -/
def firstFit (requiredLen : UInt64) (i : Nat) (records : List FileRecordV1) :
    Option (Nat × FileRecordV1) :=
  match records with
  | [] => none
  | t :: rest => if t.HasRoom requiredLen then some (i, t) else firstFit requiredLen (i + 1) rest

section Search

variable {b : Mdu0HeaderBuilder} {records : List FileRecordV1} {requiredLen : UInt64}
    {t : FileRecordV1}

/-- The slot found is a record of the table with enough room. -/
theorem getElem?_of_firstFit {k i : Nat} (h : firstFit requiredLen k records = some (i, t)) :
    ∃ d, i = k + d ∧ records[d]? = some t ∧ t.HasRoom requiredLen := by
  induction records generalizing k with
  | nil => cases h
  | cons s rest ih =>
      rw [firstFit] at h
      split at h
      · rename_i hroom
        cases h
        exact ⟨0, rfl, rfl, hroom⟩
      · obtain ⟨d, rfl, hget, hroom⟩ := ih h
        exact ⟨d + 1, by omega, hget, hroom⟩

/-- The loop finds the first tombstone with room. -/
theorem searchSlots_range' (h : b.Holds records) (requiredLen : UInt64) (k m : Nat)
    (hkm : k + m = records.length) :
    b.searchSlots requiredLen (List.range' k m) =
      some ((firstFit requiredLen k (records.drop k)).map fun (i, t) => (UInt32.ofNat i, t)) := by
  induction m generalizing k with
  | zero => rw [List.drop_of_length_le (by omega)]; rfl
  | succ m ih =>
      have hk : k < records.length := by omega
      have hle := h.lists.length_le
      have hindex : (UInt32.ofNat k).toNat = k :=
        UInt32.toNat_ofNat_of_lt' (show k < 2 ^ 32 by omega)
      have hget : b.getFileRecord (UInt32.ofNat k) = some records[k] :=
        h.getFileRecord (by rw [hindex, List.getElem?_eq_getElem hk])
      rw [List.range'_succ, Mdu0HeaderBuilder.searchSlots, hget,
        List.drop_eq_getElem_cons hk, firstFit]
      show (if records[k].HasRoom requiredLen then _ else _) = _
      by_cases hroom : records[k].HasRoom requiredLen
      · rw [if_pos hroom, if_pos hroom]
        rfl
      · rw [if_neg hroom, if_neg hroom]
        exact ih (k + 1) (by omega)

/-- The search over the buffer is the search over the records. -/
theorem searchSlots_eq (h : b.Holds records) (requiredLen : UInt64) :
    b.searchSlots requiredLen (List.range b.header.recordCount.toNat) =
      some ((firstFit requiredLen 0 records).map fun (i, t) => (UInt32.ofNat i, t)) := by
  rw [h.recordCount_eq, List.range_eq_range', searchSlots_range' h requiredLen 0 _ (Nat.zero_add _),
    List.drop_zero]

end Search

/-! ### What an insertion does -/

section Insert

variable {b : Mdu0HeaderBuilder} {records : List FileRecordV1} {r t : FileRecordV1} {i : Nat}

/-- The new record, in the slot of a tombstone. -/
def FileRecordV1.placed (r t : FileRecordV1) : FileRecordV1 :=
  { r with startOffset := t.startOffset }

/-- A slot that is found can be overwritten. -/
theorem update_firstFit (h : b.Holds records)
    (hfit : firstFit r.fileLength 0 records = some (i, t)) :
    (UInt32.ofNat i).toNat = i ∧ records[i]? = some t ∧ t.HasRoom r.fileLength ∧
      ∃ b', b.updateFileRecord (UInt32.ofNat i) (r.placed t) = some (b', .ok ()) ∧
        b'.Holds (records.set i (r.placed t)) := by
  obtain ⟨d, hd, hget, hroom⟩ := getElem?_of_firstFit hfit
  rw [Nat.zero_add] at hd
  subst hd
  have hi := (List.getElem?_eq_some_iff.mp hget).1
  have hle := h.lists.length_le
  have hindex : (UInt32.ofNat i).toNat = i := UInt32.toNat_ofNat_of_lt' (show i < 2 ^ 32 by omega)
  obtain ⟨b', hupdate, hholds, -⟩ :=
    h.update (i := UInt32.ofNat i) (r.placed t) (by rw [hindex]; exact hi)
  rw [hindex] at hholds
  exact ⟨hindex, hget, hroom, b', hupdate, hholds⟩

/-- Without a tombstone that is long enough the record is appended, if there is room. Its index is
the number of records so far. -/
theorem insert_none (h : b.Holds records) (hfit : firstFit r.fileLength 0 records = none) :
    (records.length < 98302 ∧ ∃ b', b.findFreeSlotAndInsert r =
      some (b', .ok (UInt32.ofNat records.length)) ∧
      b'.Holds (records ++ [r])) ∨
        b.findFreeSlotAndInsert r = some (b, .error "file table full") := by
  have hsearch := searchSlots_eq h r.fileLength
  rw [hfit] at hsearch
  by_cases hroom : records.length < 98302
  · obtain ⟨b', happend, hholds, -⟩ := h.append r hroom
    refine .inl ⟨hroom, b', ?_, hholds⟩
    -- the counter of the header is the index and one
    have hcount : b'.header.recordCount - 1 = UInt32.ofNat records.length := by
      apply UInt32.toNat_inj.mp
      have hnew := hholds.recordCount_eq
      rw [List.length_append, List.length_singleton] at hnew
      rw [UInt32.toNat_sub_of_le _ _
        (UInt32.le_iff_toNat_le.mpr (by rw [hnew]; exact Nat.le_add_left 1 _)), hnew,
        UInt32.toNat_ofNat_of_lt' (show records.length < 2 ^ 32 by omega)]
      rfl
    rw [Mdu0HeaderBuilder.findFreeSlotAndInsert, hsearch, ← hcount]
    simp [happend]
  · refine .inr ?_
    rw [Mdu0HeaderBuilder.findFreeSlotAndInsert, hsearch]
    simp [h.append_full r hroom]

/-- A tombstone of the right length is replaced. -/
theorem insert_exact (h : b.Holds records) (hfit : firstFit r.fileLength 0 records = some (i, t))
    (hexact : t.fileLength = r.fileLength) :
    ∃ b', b.findFreeSlotAndInsert r = some (b', .ok (UInt32.ofNat i)) ∧
      b'.Holds (records.set i (r.placed t)) := by
  obtain ⟨-, -, -, b', hupdate, hholds⟩ := update_firstFit h hfit
  have hsearch := searchSlots_eq h r.fileLength
  rw [hfit] at hsearch
  have hleft : ¬t.fileLength - r.fileLength > 0 := by
    rw [hexact, UInt64.sub_self]
    exact UInt64.lt_irrefl 0
  refine ⟨b', ?_, hholds⟩
  rw [Mdu0HeaderBuilder.findFreeSlotAndInsert, hsearch]
  simp only [Option.bind_eq_bind, Option.bind_some, Option.map_some]
  rw [show b.updateFileRecord (UInt32.ofNat i) { r with startOffset := t.startOffset } =
    some (b', .ok ())
    from hupdate]
  simp only [Option.bind_some, if_neg hleft]
  rfl

/-- Of a longer tombstone the rest is appended, or the table is full and the slot is overwritten all
the same. The update comes before the append, and is not undone. -/
theorem insert_split (h : b.Holds records) (hfit : firstFit r.fileLength 0 records = some (i, t))
    (hlonger : t.fileLength ≠ r.fileLength) :
    (records.length < 98302 ∧ ∃ b', b.findFreeSlotAndInsert r = some (b', .ok (UInt32.ofNat i)) ∧
      b'.Holds (records.set i (r.placed t) ++ [leftoverTombstone t r.fileLength])) ∨
        (¬records.length < 98302 ∧ ∃ b', b.findFreeSlotAndInsert r =
          some (b', .error "file table full") ∧
          b'.Holds (records.set i (r.placed t))) := by
  obtain ⟨-, -, hroom, b', hupdate, hholds⟩ := update_firstFit h hfit
  have hsearch := searchSlots_eq h r.fileLength
  rw [hfit] at hsearch
  -- the tombstone is longer than the file
  have hleft : t.fileLength - r.fileLength > 0 := by
    have hge := UInt64.le_iff_toNat_le.mp hroom.2
    have hne : t.fileLength.toNat ≠ r.fileLength.toNat := hlonger ∘ UInt64.toNat_inj.mp
    refine UInt64.lt_iff_toNat_lt.mpr ?_
    rw [UInt64.toNat_sub_of_le _ _ hroom.2]
    show 0 < _
    omega
  have hlength : (records.set i (r.placed t)).length = records.length := List.length_set
  -- the call returns the index of the slot, or the error of the append
  have hcall : ∀ b₂ result, b'.appendFileRecord (leftoverTombstone t r.fileLength) =
      some (b₂, result) →
      b.findFreeSlotAndInsert r = some (b₂, result.map fun _ => UInt32.ofNat i) := by
    intro b₂ result happend
    rw [Mdu0HeaderBuilder.findFreeSlotAndInsert, hsearch]
    simp only [Option.bind_eq_bind, Option.bind_some, Option.map_some]
    rw [show b.updateFileRecord (UInt32.ofNat i) { r with startOffset := t.startOffset } =
      some (b', .ok ())
      from hupdate]
    simp only [Option.bind_some, if_pos hleft, happend]
    cases result <;> rfl
  by_cases hfull : records.length < 98302
  · obtain ⟨b₂, happend, hholds₂, -⟩ := hholds.append (leftoverTombstone t r.fileLength)
      (by rw [hlength]; exact hfull)
    exact .inl ⟨hfull, b₂, hcall b₂ _ happend, hholds₂⟩
  · have happend :=
      hholds.append_full (leftoverTombstone t r.fileLength) (by rw [hlength]; exact hfull)
    exact .inr ⟨hfull, b', hcall b' _ happend, hholds⟩

end Insert

/-! ### Splitting an extent -/

section Extents

variable {r t : FileRecordV1}

/-- A length has 56 bits. -/
theorem fileLength_lt (r : FileRecordV1) : r.fileLength.toNat < 2 ^ 56 := by
  show r.lengthAndFlags.toNat &&& (2 ^ 56 - 1) < 2 ^ 56
  rw [Nat.and_two_pow_sub_one_eq_mod]
  exact Nat.mod_lt _ (Nat.two_pow_pos 56)

/-- A record placed into a slot covers its bytes from the slot's start. -/
theorem extent_placed (r t : FileRecordV1) : (r.placed t).extent =
    Set.Ico t.startOffset.toNat (t.startOffset.toNat + r.fileLength.toNat) := rfl

/-- The rest of a tombstone has the length that is left. -/
theorem fileLength_leftoverTombstone (hroom : t.HasRoom r.fileLength) :
    (leftoverTombstone t r.fileLength).fileLength.toNat =
      t.fileLength.toNat - r.fileLength.toNat := by
  have hsub := UInt64.toNat_sub_of_le _ _ hroom.2
  have hlt : (t.fileLength - r.fileLength).toNat < 2 ^ 56 := by
    have hlength := fileLength_lt t
    omega
  have hunpack := congrArg Prod.fst (unpack_pack_zero hlt)
  rw [FileRecordV1.fileLength, leftoverTombstone]
  show (unpackLengthAndFlags (packLengthAndFlags (t.fileLength - r.fileLength) 0)).1.toNat = _
  rw [hunpack, hsub]

/-- A tombstone that does not reach the end of the numbers is split in two. -/
theorem extent_split (hroom : t.HasRoom r.fileLength)
    (hfits : t.startOffset.toNat + r.fileLength.toNat < 2 ^ 64) :
    (r.placed t).extent ∪ (leftoverTombstone t r.fileLength).extent = t.extent ∧
      Disjoint (r.placed t).extent (leftoverTombstone t r.fileLength).extent := by
  have hle := UInt64.le_iff_toNat_le.mp hroom.2
  have hstart : (leftoverTombstone t r.fileLength).startOffset.toNat =
      t.startOffset.toNat + r.fileLength.toNat := by
    show (t.startOffset + r.fileLength).toNat = _
    rw [UInt64.toNat_add, Nat.mod_eq_of_lt hfits]
  have hrest : (leftoverTombstone t r.fileLength).extent =
      Set.Ico (t.startOffset.toNat + r.fileLength.toNat)
        (t.startOffset.toNat + t.fileLength.toNat) := by
    rw [FileRecordV1.extent, hstart, fileLength_leftoverTombstone hroom]
    congr 1
    omega
  rw [extent_placed, hrest, FileRecordV1.extent]
  exact ⟨Set.Ico_union_Ico_eq_Ico (by omega) (by omega), Set.Ico_disjoint_Ico_same⟩

/-- The first byte after the file is in the tombstone, but not in its parts, where the rest wraps
around. -/
theorem not_mem_split (hroom : t.HasRoom r.fileLength) (hlonger : t.fileLength ≠ r.fileLength)
    (hwraps : ¬t.startOffset.toNat + r.fileLength.toNat < 2 ^ 64) :
    t.startOffset.toNat + r.fileLength.toNat ∈ t.extent ∧
      t.startOffset.toNat + r.fileLength.toNat ∉ (r.placed t).extent ∧
      t.startOffset.toNat + r.fileLength.toNat ∉ (leftoverTombstone t r.fileLength).extent := by
  have hle := UInt64.le_iff_toNat_le.mp hroom.2
  have hne : t.fileLength.toNat ≠ r.fileLength.toNat := hlonger ∘ UInt64.toNat_inj.mp
  have hshort := fileLength_lt t
  have hstartLt : t.startOffset.toNat < 2 ^ 64 := t.startOffset.toNat_lt
  have hstart : (leftoverTombstone t r.fileLength).startOffset.toNat =
      t.startOffset.toNat + r.fileLength.toNat - 2 ^ 64 := by
    show (t.startOffset + r.fileLength).toNat = _
    rw [UInt64.toNat_add]
    omega
  refine ⟨⟨by omega, by omega⟩, fun hmem => ?_, fun hmem => ?_⟩
  · exact Nat.lt_irrefl _ hmem.2
  · have hend := hmem.2
    rw [hstart, fileLength_leftoverTombstone hroom] at hend
    omega

end Extents

/-! ### The claim -/

/-- An insertion keeps the table: where it reuses a slot, the extents are disjoint and cover what
they did, the other records stay, and the new one has its length and flags; and where it fails,
nothing changes. -/
def InsertKeeps (b : Mdu0HeaderBuilder) (records : List FileRecordV1) (r : FileRecordV1) : Prop :=
  ∃ b' result, b.findFreeSlotAndInsert r = some (b', result) ∧
    (∀ i, result = .ok i → i.toNat < records.length → ∃ records', b'.Holds records' ∧
      (extents records').Pairwise Disjoint ∧
        covered (extents records') = covered (extents records) ∧
      (∀ j < records.length, j ≠ i.toNat → records'[j]? = records[j]?) ∧
      ∃ new, records'[i.toNat]? = some new ∧ new.path = r.path ∧
        unpackLengthAndFlags new.lengthAndFlags = unpackLengthAndFlags r.lengthAndFlags) ∧
    ∀ e, result = .error e → b' = b

/-- The first tombstone that is long enough has the right length, or what is left of it can be
recorded: the table has room for one more record, and the rest starts before `2 ^ 64`. -/
def SplitFits (records : List FileRecordV1) (r : FileRecordV1) : Prop :=
  ∀ i t, firstFit r.fileLength 0 records = some (i, t) → t.fileLength ≠ r.fileLength →
    records.length < 98302 ∧ t.startOffset.toNat + r.fileLength.toNat < 2 ^ 64

section Claim

variable {b : Mdu0HeaderBuilder} {records : List FileRecordV1} {r t : FileRecordV1} {i : Nat}

/-- A builder holds one list of records. -/
theorem Mdu0HeaderBuilder.Holds.unique {records' : List FileRecordV1} (h : b.Holds records)
    (h' : b.Holds records') : records = records' := by
  have heq := h.lists.records_eq
  rw [h'.lists.records_eq] at heq
  exact (Option.some.inj heq).symm

/-- The record in a slot that was overwritten. -/
theorem getElem?_set_append (r t : FileRecordV1) (rest : List FileRecordV1)
    (hi : i < records.length) :
    (records.set i (r.placed t) ++ rest)[i]? = some (r.placed t) ∧
      ∀ j < records.length, j ≠ i → (records.set i (r.placed t) ++ rest)[j]? = records[j]? := by
  constructor
  · rw [List.getElem?_append_left (by rw [List.length_set]; exact hi), List.getElem?_set_self hi]
  · intro j hj hij
    rw [List.getElem?_append_left (by rw [List.length_set]; exact hj),
      List.getElem?_set_ne (Ne.symm hij)]

/-- Reusing a slot replaces its extent and keeps the others. -/
theorem extents_set_append (records : List FileRecordV1) (i : Nat) (r : FileRecordV1)
    (rest : List FileRecordV1) :
    extents (records.set i r ++ rest) = (extents records).set i r.extent ++ extents rest := by
  rw [extents, extents, extents, List.map_append, List.map_set]

/-- Replacing a tombstone by a file of its length leaves the extents as they are. -/
theorem extents_set_placed (hget : records[i]? = some t) (hexact : t.fileLength = r.fileLength) :
    extents (records.set i (r.placed t)) = extents records := by
  obtain ⟨hi, rfl⟩ := List.getElem?_eq_some_iff.mp hget
  have hlt : i < (extents records).length := by simpa [extents] using hi
  have hsame : (r.placed records[i]).extent = (extents records)[i] := by
    rw [extent_placed, ← hexact]
    simp [extents, FileRecordV1.extent]
  have hset := extents_set_append records i (r.placed records[i]) []
  rw [List.append_nil, hsame] at hset
  rw [hset, List.set_getElem_self]
  exact List.append_nil _

/-- Where the rest can be recorded, an insertion keeps the table. What it covers stays covered,
since the rest of the slot is a record again. -/
theorem insertKeeps_of_splitFits (h : b.Holds records)
    (hdisjoint : (extents records).Pairwise Disjoint)
    (hfits : SplitFits records r) : InsertKeeps b records r := by
  have hle := h.lists.length_le
  -- by the first tombstone that is long enough
  cases hfit : firstFit r.fileLength 0 records with
  | none =>
      rcases insert_none h hfit with ⟨-, b', hcall, -⟩ | hcall
      · -- The new record is not in a slot that was there.
        refine ⟨b', _, hcall, fun i hi hlt => ?_, nofun⟩
        cases hi
        rw [UInt32.toNat_ofNat_of_lt' (show records.length < 2 ^ 32 by omega)] at hlt
        exact absurd hlt (Nat.lt_irrefl _)
      · exact ⟨b, _, hcall, nofun, fun _ _ => rfl⟩
  | some found =>
      obtain ⟨i, t⟩ := found
      obtain ⟨hindex, hget, hroom, -⟩ := update_firstFit h hfit
      have hi := (List.getElem?_eq_some_iff.mp hget).1
      by_cases hexact : t.fileLength = r.fileLength
      · obtain ⟨b', hcall, hholds⟩ := insert_exact h hfit hexact
        refine ⟨b', _, hcall, fun j hj _ => ?_, nofun⟩
        cases hj
        have hextents := extents_set_placed hget hexact
        obtain ⟨hself, hother⟩ := getElem?_set_append r t [] hi
        rw [List.append_nil] at hself hother
        rw [hindex]
        exact ⟨_,
          hholds, by rw [hextents]; exact hdisjoint, by rw [hextents], hother, _, hself, rfl, rfl⟩
      · obtain ⟨hroomLeft, hstart⟩ := hfits i t hfit hexact
        rcases insert_split h hfit hexact with ⟨-, b', hcall, hholds⟩ | ⟨hfull, -⟩
        · refine ⟨b', _, hcall, fun j hj _ => ?_, nofun⟩
          cases hj
          -- the slot is the file and the rest, side by side
          obtain ⟨hunion, hparts⟩ := extent_split hroom hstart
          have hlt : i < (extents records).length := by simpa [extents] using hi
          have hmiddle : t.extent = (extents records)[i] := by
            obtain ⟨_, rfl⟩ := List.getElem?_eq_some_iff.mp hget
            simp [extents]
          rw [hmiddle] at hunion
          obtain ⟨hself, hother⟩ := getElem?_set_append r t [leftoverTombstone t r.fileLength] hi
          rw [hindex]
          refine ⟨_, hholds, ?_, ?_, hother, _, hself, rfl, rfl⟩
          · rw [extents_set_append]
            exact pairwise_disjoint_split hlt hunion hparts hdisjoint
          · rw [extents_set_append]
            exact covered_split hlt hunion
        · exact absurd hroomLeft hfull

/-- An insertion keeps a table of disjoint extents exactly when what is left of the slot can be
recorded: there is room for one more record, and the start of the rest can be written. -/
theorem insertKeeps_iff (b : Mdu0HeaderBuilder) (records : List FileRecordV1) (h : b.Holds records)
    (hdisjoint : (extents records).Pairwise Disjoint) (r : FileRecordV1)
    (hpath : r.isTombstone = false) :
    InsertKeeps b records r ↔ SplitFits records r := by
  refine ⟨fun hkeeps i t hfit hlonger => ?_, insertKeeps_of_splitFits h hdisjoint⟩
  obtain ⟨b', result, hcall, hreuse, herror⟩ := hkeeps
  obtain ⟨hindex, hget, hroom, -⟩ := update_firstFit h hfit
  have hi := (List.getElem?_eq_some_iff.mp hget).1
  have hself := getElem?_set_append r t [] hi
  rw [List.append_nil] at hself
  rcases insert_split h hfit hlonger
    with ⟨hroomLeft, b₂, hcall₂, hholds₂⟩ | ⟨hfull, b₂, hcall₂, hholds₂⟩
  · rw [hcall] at hcall₂
    cases hcall₂
    refine ⟨hroomLeft, ?_⟩
    by_contra hwraps
    obtain ⟨records', hholds', -, hcovered, -⟩ := hreuse _ rfl (by rw [hindex]; exact hi)
    obtain rfl := hholds'.unique hholds₂
    obtain ⟨hmem, hfile, hrest⟩ := not_mem_split hroom hlonger hwraps
    have hlt : i < (extents records).length := by simpa [extents] using hi
    have hmiddle : t.extent = (extents records)[i] := by
      obtain ⟨_, rfl⟩ := List.getElem?_eq_some_iff.mp hget
      simp [extents]
    -- The byte was covered by the tombstone, and now by no record.
    have hbyte : t.startOffset.toNat + r.fileLength.toNat ∈ covered (extents records) :=
      ⟨t.extent, hmiddle ▸ List.getElem_mem hlt, hmem⟩
    rw [← hcovered, extents_set_append, covered_append] at hbyte
    rcases hbyte with ⟨s, hs, hin⟩ | ⟨s, hs, hin⟩
    · obtain ⟨j, hj, rfl⟩ := List.getElem_of_mem hs
      rw [List.length_set] at hj
      by_cases hij : i = j
      · subst hij
        rw [List.getElem_set_self] at hin
        exact hfile hin
      · rw [List.getElem_set_ne hij] at hin
        exact Set.disjoint_left.mp (disjoint_of_getElem hdisjoint hlt hj hij) (hmiddle ▸ hmem) hin
    · rw [List.mem_singleton.mp hs] at hin
      exact hrest hin
  -- without room, the call has failed and the slot must be as it was
  · rw [hcall] at hcall₂
    cases hcall₂
    obtain rfl := herror _ rfl
    -- The tombstone is gone.
    have hsame := h.unique hholds₂
    rw [hsame, hself.1] at hget
    have hplaced : r.placed t = t := Option.some.inj hget
    have htomb := hroom.1
    rw [← hplaced] at htomb
    exact absurd (hpath.symm.trans htomb) (by decide)

end Claim

/-! ### Two tables -/

/-- Any records that fit into a table are in some builder. -/
theorem exists_holds (records : List FileRecordV1) (hroom : records.length ≤ 98302) :
    ∃ b : Mdu0HeaderBuilder, b.Holds records := by
  induction records using List.reverseRecOn with
  | nil =>
      obtain ⟨b, -, hempty, -⟩ := Mdu0HeaderBuilder.holds_new 1 64
      exact ⟨b, hempty⟩
  | append_singleton records r ih =>
      rw [List.length_append, List.length_singleton] at hroom
      obtain ⟨b, hholds⟩ := ih (by omega)
      obtain ⟨b', -, hholds', -⟩ := hholds.append r (by omega)
      exact ⟨b', hholds'⟩

/-- A deleted file of 100 bytes. -/
def deletedFile : FileRecordV1 :=
  ⟨0, packLengthAndFlags 100 0, 0, List.replicate 40 0, length_noPath⟩

/-- A file of 30 bytes. -/
def smallFile : FileRecordV1 := fileRecord [0x61] 30 0 (by decide)

/-- An empty file. -/
def emptyFile : FileRecordV1 := fileRecord [0x62] 0 0 (by decide)

/-- A deleted file with room is the first fit. -/
theorem firstFit_deletedFile (rest : List FileRecordV1) :
    firstFit smallFile.fileLength 0 (deletedFile :: rest) = some (0, deletedFile) := by
  rw [firstFit, if_pos]
  decide

/-- A small file is put into the slot of a larger one. -/
theorem insertKeeps_iff_deletedFile : ∃ b : Mdu0HeaderBuilder, b.Holds [deletedFile] ∧
    InsertKeeps b [deletedFile] smallFile := by
  obtain ⟨b, hholds⟩ := exists_holds [deletedFile] (by decide)
  refine ⟨b, hholds, (insertKeeps_iff b [deletedFile] hholds (List.pairwise_singleton _ _) smallFile
    (by decide)).mpr ?_⟩
  intro i t hfit _
  rw [firstFit_deletedFile] at hfit
  cases hfit
  exact ⟨by decide, by decide⟩

/-- A full table with one deleted file. -/
def fullTable : List FileRecordV1 := deletedFile :: List.replicate 98301 emptyFile

/-- The sample table has disjoint extents. -/
theorem disjoint_fullTable : (extents fullTable).Pairwise Disjoint := by
  have hempty : emptyFile.extent = ∅ := Set.Ico_self _
  rw [fullTable, extents, List.map_cons, List.map_replicate, hempty, List.pairwise_cons]
  refine ⟨fun s hs => ?_, List.pairwise_replicate.mpr (Or.inr (Set.disjoint_empty _))⟩
  rw [List.eq_of_mem_replicate hs]
  exact Set.disjoint_empty _

/-- In a full table the insertion fails, and has replaced the deleted file all the same. -/
theorem insert_fullTable : ∃ b : Mdu0HeaderBuilder, b.Holds fullTable ∧
    (extents fullTable).Pairwise Disjoint ∧
    smallFile.isTombstone = false ∧
      ∃ b', b.findFreeSlotAndInsert smallFile = some (b', .error "file table full") ∧
        b.getFileRecord 0 = some deletedFile ∧ b'.getFileRecord 0 = some smallFile := by
  have hlength : fullTable.length = 98302 := by
    rw [fullTable, List.length_cons, List.length_replicate]
  obtain ⟨b, hholds⟩ := exists_holds fullTable hlength.le
  refine ⟨b, hholds, disjoint_fullTable, by decide, ?_⟩
  rcases insert_split hholds (firstFit_deletedFile _) (by decide)
    with ⟨hroom, -⟩ | ⟨-, b', hcall, hholds'⟩
  · rw [hlength] at hroom
    exact absurd hroom (by decide)
  · exact ⟨b', hcall, hholds.getFileRecord rfl, hholds'.getFileRecord rfl⟩

end NilStore.Core
