import NilStore.Gateway.SlabIndex
import NilStore.Website.NilfsLocal

/-!
# `NilStore.Proofs.FileTables`: what the readers make of one table

The gateway and the browser read the records of MDU #0 with loops of their own, and each takes the
last record of a path. The names differ: the gateway takes the bytes up to the zeros at the end, the
browser decodes up to the first zero and trims. So the two agree where every name is plain, and then
the browser leaves out what is empty and rounds what is long.

The totals differ too. The list of files adds up its map, and `GatewaySlab` and the committed size
add up all the records, also those that a later one replaces. `oneTable_iff` says exactly when all
of them agree.
-/

set_option autoImplicit false

namespace NilStore.Gateway

open NilStore.Lib NilStore.Core NilStore.Website

/-! ### One table -/

/-- The table of the browser: the last entry of each path. -/
def browserTable (mdu0 : Bytes) (path : Bytes) : Option (Nat × Nat) :=
  lastValue path ((parseNilfsFilesFromMdu0 mdu0).map fun e =>
    (utf8 e.path, (e.startOffset, e.sizeBytes)))

/-- The numbers of a file. -/
def NilfsFile.numbers (file : NilfsFile) : Nat × Nat := (file.startOffset.toNat, file.length.toNat)

/-- The sum of the lengths of some files. -/
def totalLength (files : List (Bytes × NilfsFile)) : Nat :=
  (files.map fun e => e.2.length.toNat).sum

/-- All the readers have this table, and all the totals are its total. -/
structure OneTable (dir : SlabDir) (files : KVStore Bytes NilfsFile) : Prop where
  loadSlabIndex : ∃ witnessCount, loadSlabIndex dir = .ok ⟨witnessCount, files⟩
  getFileMetaByPath : ∃ witnessCount, ∀ path, getFileMetaByPath dir path =
    (orFail (files.get path) .notExist).map fun file =>
      ⟨file.startOffset, file.length, witnessCount⟩
  resolveFileByPath : ∃ witnessCount, ∀ path, resolveFileByPath dir path =
    (orFail (files.get path) .notExist).map fun file => (1 + witnessCount, file)
  listFiles : ∃ total, gatewayListFiles dir = .ok (files, total) ∧
    total.toNat = totalLength files.entries
  browser : ∀ path, browserTable dir.mdu0 path = (files.get path).map NilfsFile.numbers
  slab : ∃ layout, gatewaySlab dir = .ok layout ∧
    layout.totalSizeBytes.toNat = totalLength files.entries
  committed : ∃ b records, loadRecords dir.mdu0 = .ok (b, records) ∧
    (totalSizeBytesFromMdu0 records).toNat = totalLength files.entries

/-- A name that the browser reads as it is. -/
def PlainName (name : Bytes) : Prop :=
  ∃ s : Str, s ≠ [] ∧ trim s = s ∧ Char.ofNat 0 ∉ s ∧ utf8 s = name

/-- A file that the browser lists, with the numbers that it has. -/
def PlainFile (file : NilfsFile) : Prop :=
  0 < file.length.toNat ∧ toBinary64 file.startOffset.toNat = file.startOffset.toNat ∧
    toBinary64 file.length.toNat = file.length.toNat

/-- The condition for one table. -/
structure Regular (names : List Str) (b : Mdu0Builder) (records : List FileRecordV1) : Prop where
  /-- The names of all the files are plain. -/
  plain : ∀ e ∈ liveFiles records, PlainName e.1
  /-- The files that count are plain. -/
  files : ∀ e ∈ latest (liveFiles records), PlainFile e.2
  /-- Their total is a `uint64`. -/
  total : totalLength (latest (liveFiles records)) < 2 ^ 64
  /-- The replaced records add nothing to it. -/
  replaced : 2 ^ 64 ∣ totalLength (replaced (liveFiles records))
  /-- `inferWitnessCount` and `GatewaySlab` take the layout. -/
  layout : (inferWitnessCount names b records).isOk = true ∧
    (slabMdus names b (userMdusUpTo (maxEnd records))).isOk = true

/-! ### Trimming -/

/-- Trimming drops on the left and then on the right. -/
theorem trim_eq (s : Str) : trim s = (s.dropWhile isTrimmed).rdropWhile isTrimmed := rfl

/-- Trimming once is enough. -/
theorem trim_trim (s : Str) : trim (trim s) = trim s := by
  have hhead : (trim s).dropWhile isTrimmed = trim s := by
    have hagain := List.dropWhile_idempotent isTrimmed s
    obtain ⟨rest, hrest⟩ := List.rdropWhile_prefix isTrimmed (s.dropWhile isTrimmed)
    rw [← trim_eq] at hrest
    cases hcases : trim s with
    | nil => rfl
    | cons c t =>
        rw [hcases] at hrest
        -- the first character is the one that the trimming at the start has left
        rw [← hrest, List.cons_append, List.dropWhile_eq_self_iff] at hagain
        rw [List.dropWhile_eq_self_iff]
        intro hpos
        exact hagain (Nat.succ_pos _)
  rw [trim_eq (trim s), hhead]
  exact List.rdropWhile_idempotent isTrimmed _

/-- A trimmed text does not start with a byte order mark. -/
theorem trim_ne_of_mark {s : Str} : trim (Char.ofNat 0xFEFF :: s) ≠ Char.ofNat 0xFEFF :: s := by
  intro h
  have hlength := congrArg List.length h
  have hdrop : (Char.ofNat 0xFEFF :: s).dropWhile isTrimmed = s.dropWhile isTrimmed :=
    List.dropWhile_cons_of_pos (by decide)
  rw [trim_eq, hdrop, List.length_cons] at hlength
  have hle := (List.rdropWhile_prefix isTrimmed (s.dropWhile isTrimmed)).length_le
  have hle' := (List.dropWhile_sublist isTrimmed (l := s)).length_le
  omega

/-! ### Names -/

/-- A path is its name and zeros. -/
theorem path_eq (r : FileRecordV1) : ∃ n, r.path = recordName r ++ List.replicate n 0 := by
  have hzeros : ∀ x ∈ r.path.rtakeWhile (· = 0), x = 0 := fun x hx => by
    simpa using List.mem_rtakeWhile_imp hx
  refine ⟨(r.path.rtakeWhile (· = 0)).length, ?_⟩
  rw [← List.eq_replicate_of_mem hzeros]
  exact (List.rdropWhile_append_rtakeWhile (p := (· = 0)) (l := r.path)).symm

/-- The browser reads a plain name as it is: it takes the bytes before the first zero, decodes them
and trims the text. -/
theorem trim_parse_of_plain {r : FileRecordV1} {s : Str} (htrim : trim s = s)
    (hzero : Char.ofNat 0 ∉ s) (hname : utf8 s = recordName r) :
    trim (parseNullTerminatedUtf8 r.path) = s := by
  obtain ⟨n, hpath⟩ := path_eq r
  -- a plain name has no zero, so the padding is what is cut
  have hcut : r.path.takeWhile (· ≠ 0) = utf8 s := by
    have hnonzero : ∀ x ∈ utf8 s, decide (x ≠ 0) = true := by
      intro x hx
      rw [decide_eq_true_iff]
      rintro rfl
      exact hzero (zero_mem_utf8 hx)
    rw [hpath, ← hname, List.takeWhile_append_of_pos hnonzero]
    cases n with
    | zero => exact List.append_nil _
    | succ n => exact List.append_nil _
  rw [parseNullTerminatedUtf8, hcut, textDecode]
  split
  · rename_i hmark
    -- the text would start with a byte order mark
    have hsplit := List.take_append_drop 3 (utf8 s)
    have hencoded : String.utf8EncodeChar (Char.ofNat 0xFEFF) = [0xEF, 0xBB, 0xBF] := by decide
    rw [hmark, ← hencoded] at hsplit
    have hs := decodeUtf8_utf8 s
    rw [← hsplit, decodeUtf8_append] at hs
    rw [← hs] at htrim
    exact absurd htrim trim_ne_of_mark
  · rw [decodeUtf8_utf8, htrim]

/-- A path that the browser lists is a plain name, and its file is not empty. What the browser lists
has been cut, decoded and trimmed already. -/
theorem plain_of_recordEntry {r : FileRecordV1} {e : NilfsFileEntry} (h : recordEntry r = some e) :
    PlainName (utf8 e.path) ∧ 0 < e.sizeBytes := by
  rw [recordEntry] at h
  -- an empty name is not listed
  split at h
  · cases h
  · rename_i hne
    split at h
    · cases h
    · rename_i hpos
      cases h
      refine ⟨⟨_, hne, trim_trim _, fun hzero => ?_, rfl⟩, Nat.pos_of_ne_zero fun hzero => ?_⟩
      · -- the characters are those of bytes before the first zero
        have htext : Char.ofNat 0 ∈ parseNullTerminatedUtf8 r.path :=
          (List.dropWhile_sublist isTrimmed).subset
            ((List.rdropWhile_prefix isTrimmed _).subset hzero)
        have hbyte : (0 : UInt8) ∈ r.path.takeWhile (· ≠ 0) := by
          rw [parseNullTerminatedUtf8, textDecode] at htext
          split at htext
          · exact List.mem_of_mem_drop (zero_mem_of_mem_decodeUtf8 htext)
          · exact zero_mem_of_mem_decodeUtf8 htext
        simpa using List.mem_takeWhile_imp hbyte
      · exact hpos (Nat.le_of_eq hzero)

/-- What the browser lists of a file. -/
def browserFile (file : NilfsFile) : Option (Nat × Nat) :=
  if toBinary64 file.length.toNat ≤ 0 then none
  else some (toBinary64 file.startOffset.toNat, toBinary64 file.length.toNat)

/-- Where all the names are plain, the browser lists the files under these, in the order of the
table. It skips records without a name, which are the deleted ones. -/
theorem browser_entries {records : List FileRecordV1}
    (hnames : ∀ e ∈ liveFiles records, PlainName e.1) :
    (records.filterMap recordEntry).map (fun e => (utf8 e.path, (e.startOffset, e.sizeBytes))) =
      (liveFiles records).filterMap fun e => (browserFile e.2).map (e.1, ·) := by
  induction records with
  | nil => rfl
  | cons r records ih =>
      -- a deleted record has no name left
      by_cases htomb : r.isTombstone = true
      · have hlive : liveFiles (r :: records) = liveFiles records := by
          simp [liveFiles, htomb]
        have hentry : recordEntry r = none := by
          have hcut : r.path.takeWhile (· ≠ 0) = [] := by
            rw [FileRecordV1.isTombstone] at htomb
            cases hpath : r.path with
            | nil => rfl
            | cons x path =>
                rw [hpath] at htomb
                simp_all
          have hpath : trim (parseNullTerminatedUtf8 r.path) = [] := by
            rw [parseNullTerminatedUtf8, hcut]
            exact congrArg trim (decodeUtf8_utf8 [])
          rw [recordEntry, if_pos hpath]
        rw [hlive] at hnames ⊢
        rw [List.filterMap_cons, hentry]
        exact ih hnames
      -- a live record has its own name
      · have hlive : liveFiles (r :: records) =
            (recordName r, nilfsFile r) :: liveFiles records := by
          simp [liveFiles, htomb]
        rw [hlive] at hnames ⊢
        obtain ⟨s, hne, htrim, hzero, hname⟩ := hnames _ List.mem_cons_self
        have hpath := trim_parse_of_plain htrim hzero hname
        have hrest := ih fun e he => hnames e (List.mem_cons_of_mem _ he)
        have hentry : (recordEntry r).map (fun e => (utf8 e.path, (e.startOffset, e.sizeBytes))) =
            (browserFile (nilfsFile r)).map (recordName r, ·) := by
          rw [recordEntry, hpath, if_neg hne, browserFile]
          show _ = Option.map _ (if toBinary64 r.fileLength.toNat ≤ 0 then none else _)
          split
          · rfl
          · have hname : utf8 s = recordName r := hname
            rw [← hname]
            rfl
        rw [List.filterMap_cons, List.filterMap_cons]
        -- an empty file is skipped on both sides
        cases hr : recordEntry r with
        | none =>
            rw [hr] at hentry
            rw [← hentry]
            exact hrest
        | some e =>
            rw [hr] at hentry
            rw [← hentry, List.map_cons, hrest]
            rfl

/-! ### The browser -/

/-- A file is plain exactly when the browser keeps its three numbers and it is not empty. -/
theorem plainFile_iff {file : NilfsFile} :
    PlainFile file ↔ browserFile file = some file.numbers ∧ 0 < file.length.toNat := by
  rw [browserFile]
  constructor
  · rintro ⟨hpos, hstart, hlength⟩
    rw [hstart, hlength, if_neg (Nat.not_le.mpr hpos)]
    exact ⟨rfl, hpos⟩
  · rintro ⟨hfile, hpos⟩
    have hround := toBinary64_pos hpos
    rw [if_neg (Nat.not_le.mpr hround)] at hfile
    obtain ⟨hstart, hlength⟩ := Prod.mk.inj (Option.some.inj hfile)
    exact ⟨hpos, hstart, hlength⟩

/-- When the browser has the table of the gateway: the names are plain, and the last file of each
name is not empty and has numbers that a double holds. -/
theorem browser_iff {b : Mdu0Builder} {records : List FileRecordV1} (h : b.Lists records) :
    (∀ path, browserTable b.buffer path =
        (lastValue path (liveFiles records)).map NilfsFile.numbers) ↔
      (∀ e ∈ liveFiles records, PlainName e.1) ∧
        ∀ e ∈ latest (liveFiles records), PlainFile e.2 := by
  have htable : ∀ path, browserTable b.buffer path = lastValue path
      ((records.filterMap recordEntry).map fun e =>
        (utf8 e.path, (e.startOffset, e.sizeBytes))) := by
    intro path
    rw [browserTable, parseNilfsFilesFromMdu0_eq h]
  -- what the browser has is listed, so it has a plain name and is not empty
  have hlisted : ∀ path numbers, browserTable b.buffer path = some numbers →
      PlainName path ∧ 0 < numbers.2 := by
    intro path numbers hpath
    rw [htable] at hpath
    obtain ⟨e, he, hpair⟩ := List.mem_map.mp (mem_of_lastValue hpath)
    obtain ⟨r, -, hr⟩ := List.mem_filterMap.mp he
    cases hpair
    exact plain_of_recordEntry hr
  constructor
  · intro hall
    -- what the gateway has must be listed, so its name is plain
    have hnames : ∀ e ∈ liveFiles records, PlainName e.1 := by
      intro e he
      obtain ⟨file, hfile⟩ := lastValue_isSome he
      have hpath := hall e.1
      rw [hfile] at hpath
      exact (hlisted _ _ hpath).1
    -- and the last file of the name has the numbers that were listed
    refine ⟨hnames, fun e he => ?_⟩
    have hlast := mem_latest.mp he
    have hpath := hall e.1
    rw [hlast] at hpath
    have hpos : 0 < e.2.length.toNat := (hlisted _ _ hpath).2
    have hsome : (browserFile e.2).isSome = true := by
      rw [browserFile, if_neg (Nat.not_le.mpr (toBinary64_pos hpos))]
      rfl
    rw [htable, browser_entries hnames, lastValue_filterMap browserFile hlast hsome] at hpath
    exact plainFile_iff.mpr ⟨hpath, hpos⟩
  · rintro ⟨hnames, hfiles⟩ path
    rw [htable, browser_entries hnames]
    cases hlast : lastValue path (liveFiles records) with
    | none =>
        rw [lastValue_eq_none] at hlast
        refine lastValue_eq_none.mpr fun hmem => hlast ?_
        obtain ⟨e', he', rfl⟩ := List.mem_map.mp hmem
        obtain ⟨e, he, hpair⟩ := List.mem_filterMap.mp he'
        obtain ⟨numbers, -, rfl⟩ := Option.map_eq_some_iff.mp hpair
        exact List.mem_map_of_mem he
    | some file =>
        have hfile := plainFile_iff.mp (hfiles (path, file) (mem_latest.mpr hlast))
        have hsome : (browserFile file).isSome = true := by
          rw [hfile.1]
          rfl
        rw [lastValue_filterMap browserFile hlast hsome, hfile.1]
        rfl

/-! ### The gateway -/

section

variable {b : Mdu0Builder} {records : List FileRecordV1}

/-- The records are loaded. Of the builder only the buffer matters to the readers. -/
theorem loadRecords_eq (h : b.Lists records) :
    ∃ b', b'.buffer = b.buffer ∧ loadRecords b.buffer = .ok (b', records) := by
  obtain ⟨b', hbuffer, hload⟩ : ∃ b', b'.buffer = b.buffer ∧
      loadMdu0Builder b.buffer 1 = .ok b' := by
    refine ⟨⟨b.buffer, witnessMduCountOf 1 64, 1, effectiveCommitments 64⟩, rfl, ?_⟩
    rw [loadMdu0Builder, if_neg (not_not.mpr h.length), h.load]
    rfl
  refine ⟨b', hbuffer, except_bind_ok.mpr ⟨b', hload, except_bind_ok.mpr ⟨records, ?_, rfl⟩⟩⟩
  rw [(h.of_buffer hbuffer).records_eq]
  rfl

/-- The total of the map. -/
theorem toNat_mapTotal (files : List (Bytes × NilfsFile)) :
    (files.foldl (fun total entry => total + entry.2.length) (0 : UInt64)).toNat =
      totalLength files % 2 ^ 64 := by
  rw [toNat_foldl_length (fun entry : Bytes × NilfsFile => entry.2.length)]
  rw [UInt64.toNat_zero, Nat.zero_add, totalLength]

/-- The total over the map is the total over the latest entries: only the order differs. -/
theorem totalLength_perm (l : List (Bytes × NilfsFile)) :
    totalLength (mapOf l).entries = totalLength (latest l) := by
  rw [totalLength, totalLength]
  exact ((entries_mapOf_perm l).map fun e => e.2.length.toNat).sum_eq

/-- The total over all records is that of the latest ones and that of those they replaced. -/
theorem totalLength_split (l : List (Bytes × NilfsFile)) :
    totalLength l = totalLength (latest l) + totalLength (replaced l) :=
  (sum_latest_add_replaced _ l).symm

/-- The total of the records. -/
theorem toNat_totalSizeBytes (records : List FileRecordV1) :
    (totalSizeBytesFromMdu0 records).toNat = totalLength (liveFiles records) % 2 ^ 64 := by
  have hlive := foldl_live (fun (total : UInt64) rec => total + rec.fileLength) 0 records
  rw [totalSizeBytesFromMdu0, hlive, toNat_foldl_length, UInt64.toNat_zero,
    Nat.zero_add, totalLength, liveFiles, List.map_map]
  rfl

/-- `GatewaySlab` has the total that is committed. -/
theorem slabTotal_eq (records : List FileRecordV1) :
    (records.foldl (fun (count, total) rec =>
      if rec.isTombstone then (count, total) else (count + 1, total + rec.fileLength))
      ((0 : UInt32), (0 : UInt64))).2 = totalSizeBytesFromMdu0 records := by
  rw [totalSizeBytesFromMdu0]
  refine (List.foldl_hom Prod.snd fun s rec => ?_).symm
  cases rec.isTombstone <;> rfl

/-- The total of the table and that of the records, as 64-bit numbers. -/
theorem total_iff {files replaced : Nat} :
    files % 2 ^ 64 = files ∧ (files + replaced) % 2 ^ 64 = files ↔
      files < 2 ^ 64 ∧ 2 ^ 64 ∣ replaced := by
  constructor
  · rintro ⟨hfiles, hall⟩
    exact ⟨by omega, by omega⟩
  · rintro ⟨hfiles, hreplaced⟩
    exact ⟨Nat.mod_eq_of_lt hfiles, by omega⟩

/-! ### What each reader gives -/

variable {b' : Mdu0Builder} {dir : SlabDir}

/-- What the slab index answers, once the records are loaded. -/
theorem loadSlabIndex_eq (hload : loadRecords dir.mdu0 = .ok (b', records)) :
    loadSlabIndex dir = (inferWitnessCount dir.names b' records).map fun witnessCount =>
      ⟨witnessCount, mapOf (liveFiles records)⟩ := by
  rw [loadSlabIndex, hload, ← files_eq_mapOf]
  simp only [bind, Except.bind, pure, Except.pure]
  cases inferWitnessCount dir.names b' records <;> rfl

/-- What listing the files answers, once the records are loaded. -/
theorem gatewayListFiles_eq (hload : loadRecords dir.mdu0 = .ok (b', records)) :
    gatewayListFiles dir = .ok (mapOf (liveFiles records),
      (mapOf (liveFiles records)).entries.foldl (fun total entry => total + entry.2.length) 0) := by
  rw [gatewayListFiles, hload, ← files_eq_mapOf]
  rfl

/-- What looking a file up answers, once the records are loaded. -/
theorem getFileMetaByPath_eq (hload : loadRecords dir.mdu0 = .ok (b', records))
    {witnessCount : UInt64}
    (hcount : inferWitnessCount dir.names b' records = .ok witnessCount) (path : Bytes) :
    getFileMetaByPath dir path = (orFail ((mapOf (liveFiles records)).get path) .notExist).map
      fun file => ⟨file.startOffset, file.length, witnessCount⟩ := by
  have hget := map_targetRec records path
  rw [getFileMetaByPath, hload, get_mapOf, ← hget]
  simp only [bind, Except.bind, pure, Except.pure, Except.mapError, hcount]
  cases targetRec records path <;> rfl

/-- What resolving a file answers, once the records are loaded. -/
theorem resolveFileByPath_eq (hload : loadRecords dir.mdu0 = .ok (b', records))
    {witnessCount : UInt64}
    (hcount : inferWitnessCount dir.names b' records = .ok witnessCount) (path : Bytes) :
    resolveFileByPath dir path = (orFail ((mapOf (liveFiles records)).get path) .notExist).map
      fun file => (1 + witnessCount, file) := by
  have hget := map_targetRec records path
  rw [resolveFileByPath, hload, get_mapOf, ← hget]
  simp only [bind, Except.bind, pure, Except.pure, Except.mapError, hcount]
  cases targetRec records path <;> rfl

/-- When the slab's layout is answered, and which total it names. -/
theorem gatewaySlab_eq_ok (hload : loadRecords dir.mdu0 = .ok (b', records)) {n : Nat} :
    (∃ layout, gatewaySlab dir = .ok layout ∧ layout.totalSizeBytes.toNat = n) ↔
      (slabMdus dir.names b' (userMdusUpTo (maxEnd records))).isOk = true ∧
        (totalSizeBytesFromMdu0 records).toNat = n := by
  rw [gatewaySlab, hload, ← slabTotal_eq]
  simp only [bind, Except.bind, pure, Except.pure]
  cases slabMdus dir.names b' (userMdusUpTo (maxEnd records)) with
  | error e =>
      constructor
      · rintro ⟨layout, hlayout, -⟩
        cases hlayout
      · rintro ⟨hok, -⟩
        cases hok
  | ok mdus =>
      constructor
      · rintro ⟨layout, hlayout, htotal⟩
        cases hlayout
        exact ⟨rfl, htotal⟩
      · rintro ⟨-, htotal⟩
        exact ⟨_, rfl, htotal⟩

end

/-- The condition, for a buffer that holds records. The functions of the gateway read the buffer
through one loader, so each of the views is taken from the same records. -/
theorem oneTable_iff_regular (names : List Str) {b : Mdu0Builder} {records : List FileRecordV1}
    (h : b.Lists records) : (∃ files, OneTable ⟨b.buffer, names⟩ files) ↔
      Regular names b records := by
  obtain ⟨b', hbuffer, hload⟩ := loadRecords_eq h
  have hload : loadRecords (SlabDir.mk b.buffer names).mdu0 = .ok (b', records) := hload
  -- the loaded builder has the roots and the records of the buffer
  have hroots : totalRoots b' = totalRoots b := by
    simp only [totalRoots, Mdu0Builder.getRoot, hbuffer]
  have hwitness : inferWitnessCount names b' records = inferWitnessCount names b records := by
    simp only [inferWitnessCount, hroots]
  have hmdus : slabMdus names b' (userMdusUpTo (maxEnd records)) =
      slabMdus names b (userMdusUpTo (maxEnd records)) := by
    simp only [slabMdus, hroots]
  have hlist := gatewayListFiles_eq hload
  have htotal := toNat_mapTotal (mapOf (liveFiles records)).entries
  have hrecords := toNat_totalSizeBytes records
  rw [totalLength_split] at hrecords
  rw [totalLength_perm] at htotal
  constructor
  · rintro ⟨files, hone⟩
    obtain ⟨total, hlist', hsum⟩ := hone.listFiles
    rw [hlist] at hlist'
    obtain ⟨rfl, rfl⟩ := Prod.mk.inj (Except.ok.inj hlist')
    rw [htotal, totalLength_perm] at hsum
    obtain ⟨hslab, hcommitted⟩ := (gatewaySlab_eq_ok hload).mp hone.slab
    rw [hrecords, totalLength_perm] at hcommitted
    -- the two totals are one, so nothing was replaced
    obtain ⟨hlt, hreplaced⟩ := total_iff.mp ⟨hsum, hcommitted⟩
    have hbrowser : ∀ path, browserTable b.buffer path =
        (lastValue path (liveFiles records)).map NilfsFile.numbers := by
      intro path
      rw [← get_mapOf]
      exact hone.browser path
    obtain ⟨hplain, hfiles⟩ := (browser_iff h).mp hbrowser
    -- the index was built, so the witnesses could be counted
    obtain ⟨witnessCount, hindex⟩ := hone.loadSlabIndex
    rw [loadSlabIndex_eq hload] at hindex
    have hcount : (inferWitnessCount names b records).isOk = true := by
      rw [← hwitness]
      cases hcases : inferWitnessCount names b' records with
      | ok w => rfl
      | error e =>
          have hcases : inferWitnessCount (SlabDir.mk b.buffer names).names b' records =
            .error e := hcases
          rw [hcases] at hindex
          cases hindex
    exact ⟨hplain, hfiles, hlt, hreplaced, hcount, hmdus ▸ hslab⟩
  -- and under the condition each of the views succeeds
  · intro hregular
    obtain ⟨hcount, hslab⟩ := hregular.layout
    rw [← hwitness] at hcount
    rw [← hmdus] at hslab
    obtain ⟨witnessCount, hcount⟩ : ∃ w, inferWitnessCount names b' records = .ok w := by
      cases hcases : inferWitnessCount names b' records with
      | ok w => exact ⟨w, rfl⟩
      | error e =>
          rw [hcases] at hcount
          cases hcount
    obtain ⟨hfiles, hall⟩ := total_iff.mpr ⟨hregular.total, hregular.replaced⟩
    have hcommitted : (totalSizeBytesFromMdu0 records).toNat =
        totalLength (mapOf (liveFiles records)).entries := by
      rw [hrecords, hall, totalLength_perm]
    refine ⟨mapOf (liveFiles records), ⟨witnessCount, ?_⟩, ⟨witnessCount, ?_⟩, ⟨witnessCount, ?_⟩,
      ⟨_, hlist, ?_⟩, ?_, ?_, ⟨b', records, hload, hcommitted⟩⟩
    · have hindex := loadSlabIndex_eq hload
      rw [show inferWitnessCount (SlabDir.mk b.buffer names).names b' records =
        .ok witnessCount from
        hcount] at hindex
      exact hindex
    · exact getFileMetaByPath_eq hload hcount
    · exact resolveFileByPath_eq hload hcount
    · rw [htotal, hfiles, totalLength_perm]
    · intro path
      rw [get_mapOf]
      exact (browser_iff h).mpr ⟨hregular.plain, hregular.files⟩ path
    · exact (gatewaySlab_eq_ok hload).mpr ⟨hslab, hcommitted⟩

/-- **When all the readers see one file table**, and all the totals are its total. For every builder
that the program can have written, with any files beside it in the directory, this is so exactly
when its records are `Regular`: plain names and files, a total that fits, nothing added to it by
replaced records, and a layout that is taken. -/
theorem oneTable_iff (names : List Str) (b : Mdu0Builder) (hb : b.Written) :
    ∃ records, b.records = some records ∧
      ((∃ files, OneTable ⟨b.buffer, names⟩ files) ↔ Regular names b records) := by
  obtain ⟨records, h⟩ := hb.lists
  exact ⟨records, h.records_eq, oneTable_iff_regular names h⟩

/-! ### A file that is written twice -/

/-- The file `f`, of some length. -/
def sampleRecord (size startOffset : UInt64) : FileRecordV1 :=
  fileRecord [0x66] size startOffset (by decide)

/-- The file is written with 5 bytes, and then with 7. -/
def writtenTwice : Except String Mdu0Builder := do
  let b ← (Mdu0Builder.newWithCommitments 1 64).appendFileRecord (sampleRecord 5 0)
  b.appendFileRecord (sampleRecord 7 (.ofNat rawMduCapacity))

/-- There is room for a record. -/
theorem append_isOk {b : Mdu0Builder} {records : List FileRecordV1} (h : b.Lists records)
    (hroom : records.length < 98302) (r : FileRecordV1) : ∃ b', b.appendFileRecord r = .ok b' := by
  rw [Mdu0Builder.appendFileRecord, h.recordCount_eq]
  refine ⟨_, if_neg ?_⟩
  rw [recordOffset_add, fileRecordSize, fileTableEnd]
  omega

/-- The builder of a file written twice lists both records. -/
theorem writtenTwice_lists : ∃ b, writtenTwice = .ok b ∧ b.Written ∧
    b.Lists [sampleRecord 5 0, sampleRecord 7 (.ofNat rawMduCapacity)] := by
  have hnew := Mdu0Builder.lists_new 1 64
  obtain ⟨b₁, h₁⟩ := append_isOk hnew (by decide) (sampleRecord 5 0)
  have hlists₁ := (hnew.append h₁).1
  obtain ⟨b₂, h₂⟩ := append_isOk hlists₁ (by decide) (sampleRecord 7 (.ofNat rawMduCapacity))
  exact ⟨b₂, except_bind_ok.mpr ⟨b₁, h₁, h₂⟩, .append (.append (.new 1 64) h₁) h₂,
    (hlists₁.append h₂).1⟩

/-- The committed size counts the file twice. -/
theorem writtenTwice_not_oneTable : ∃ b, writtenTwice = .ok b ∧ b.Written ∧
    ∀ names files, ¬OneTable ⟨b.buffer, names⟩ files := by
  obtain ⟨b, hb, hwritten, hlists⟩ := writtenTwice_lists
  refine ⟨b, hb, hwritten, fun names files hone => ?_⟩
  have hregular := (oneTable_iff_regular names hlists).mp ⟨files, hone⟩
  have hreplaced : totalLength (replaced (liveFiles
      [sampleRecord 5 0, sampleRecord 7 (.ofNat rawMduCapacity)])) = 5 := by decide +kernel
  have hdvd := hregular.replaced
  rw [hreplaced] at hdvd
  exact absurd hdvd (by decide)

/-- The files `f` and `g`, of 5 and of 7 bytes. -/
def twoRecords : List FileRecordV1 :=
  [sampleRecord 5 0, fileRecord [0x67] 7 (.ofNat rawMduCapacity) (by decide)]

/-- A slab with one witness MDU and an MDU for each file. -/
def twoFileNames : List Str :=
  ["mdu_0.bin".toList, "mdu_1.bin".toList, "mdu_2.bin".toList, "mdu_3.bin".toList]

/-- The files are written one after the other, and no root is set. -/
theorem twoRecords_lists : ∃ b : Mdu0Builder, b.Written ∧ b.Lists twoRecords ∧
    totalRoots b = 0 := by
  have hnew := Mdu0Builder.lists_new 1 64
  obtain ⟨b₁, h₁⟩ := append_isOk hnew (by decide) (sampleRecord 5 0)
  obtain ⟨hlists₁, hroots₁, -⟩ := hnew.append h₁
  obtain ⟨b₂, h₂⟩ :=
    append_isOk hlists₁ (by decide) (fileRecord [0x67] 7 (.ofNat rawMduCapacity) (by decide))
  obtain ⟨hlists₂, hroots₂, -⟩ := hlists₁.append h₂
  refine ⟨b₂, .append (.append (.new 1 64) h₁) h₂, hlists₂, List.countP_eq_zero.mpr fun i hi => ?_⟩
  have hlt := List.mem_range.mp hi
  rw [hroots₂ i hlt, hroots₁ i hlt, Mdu0Builder.getRoot_new 1 64 hlt]
  decide

/-- The sample table is regular: two names of one letter, and files of 5 and 7 bytes in two MDUs. -/
theorem regular_twoRecords {b : Mdu0Builder} (hroots : totalRoots b = 0) :
    Regular twoFileNames b twoRecords where
  plain := by
    have hnames : (liveFiles twoRecords).map (·.1) = [[0x66], [0x67]] := by decide +kernel
    intro e he
    have hmem := List.mem_map_of_mem (f := (·.1)) he
    rw [hnames] at hmem
    -- the first name, and the second
    rcases List.mem_cons.mp hmem with h | h
    · exact ⟨['f'], by decide, by decide, by decide, h ▸ by decide⟩
    · exact ⟨['g'], by decide, by decide, by decide, List.mem_singleton.mp h ▸ by decide⟩
  files := by
    have hfiles : (latest (liveFiles twoRecords)).map (fun e =>
        (e.2.startOffset.toNat, e.2.length.toNat)) =
        [(0, 5), (rawMduCapacity, 7)] := by decide +kernel
    intro e he
    have hmem := List.mem_map_of_mem (f := fun e => (e.2.startOffset.toNat, e.2.length.toNat)) he
    rw [hfiles] at hmem
    -- the first file, and the second
    rcases List.mem_cons.mp hmem with h | h
    · obtain ⟨hstart, hlength⟩ := Prod.mk.inj h
      rw [PlainFile, hstart, hlength]
      exact ⟨by decide, toBinary64_eq_self (by decide), toBinary64_eq_self (by decide)⟩
    · obtain ⟨hstart, hlength⟩ := Prod.mk.inj (List.mem_singleton.mp h)
      rw [PlainFile, hstart, hlength]
      exact ⟨by decide, toBinary64_eq_self (by decide), toBinary64_eq_self (by decide)⟩
  total := by
    have htotal : totalLength (latest (liveFiles twoRecords)) = 12 := by decide +kernel
    rw [htotal]
    decide
  replaced := by
    have hreplaced : totalLength (replaced (liveFiles twoRecords)) = 0 := by decide +kernel
    rw [hreplaced]
    exact dvd_zero _
  layout := by
    have huser : userMdusUpTo (maxEnd (twoRecords.filter fun rec => !rec.isTombstone)) = 2 ∧
        userMdusUpTo (maxEnd twoRecords) = 2 := by decide +kernel
    rw [inferWitnessCount, slabMdus, hroots, huser.1, huser.2]
    decide +kernel

/-- Two files of different names are one table for all the readers. -/
theorem oneTable_iff_twoRecords : ∃ b : Mdu0Builder, b.Written ∧ b.records = some twoRecords ∧
    ∃ files, OneTable ⟨b.buffer, twoFileNames⟩ files := by
  obtain ⟨b, hwritten, hlists, hroots⟩ := twoRecords_lists
  obtain ⟨records, hrecords, hiff⟩ := oneTable_iff twoFileNames b hwritten
  have hsame : records = twoRecords := Option.some.inj (hrecords.symm.trans hlists.records_eq)
  subst hsame
  exact ⟨b, hwritten, hrecords, hiff.mpr (regular_twoRecords hroots)⟩

end NilStore.Gateway
