import NilStore.Gateway.Mode2Ingest

/-!
# `NilStore.Proofs.SlabAppend`: an append keeps the files

The user MDUs of a slab come after its witness MDUs, so where they are depends on how many witness
MDUs there are. `mode2BuildArtifactsAppend` does not read this number from the slab. It computes it
from the end of the last file, which can be less than the user MDUs that the slab was built for: an
empty file takes an MDU and has no bytes. So a build that looks in another place must find no shards
there, and fail (`copied_shards`).

`Mode2Slab.Good` is what every built slab has, and `HoldsFile` says that a file is in the table with
its length, and that the shards of its MDUs are the ones made of it. A build adds its file
(`append_holds`) and keeps the others (`append_keeps`).
-/

set_option autoImplicit false

namespace NilStore.Gateway

open NilStore.Lib NilStore.Core NilStore.Chain

/-! ### Slabs and their files -/

/-- The files that count for the end of a slab. -/
def liveRecords (records : List FileRecordV1) : List FileRecordV1 :=
  records.filter fun rec => !rec.isTombstone

/-- What a built slab is like. -/
structure Mode2Slab.Good (stripe : StripeParams) (slab : Mode2Slab) (records : List FileRecordV1) :
    Prop where
  lists : ∃ b : Mdu0Builder, b.buffer = slab.mdu0 ∧ b.Lists records
  used : (userMdusUpTo (maxEnd (liveRecords records))).toNat ≤ slab.userShards.length
  bound : slab.userShards.length ≤ 65536
  witness : slab.witnessMdus.length =
    (witnessMduCountOf (UInt64.ofNat slab.userShards.length) stripe.leafCount).toNat
  slots : ∀ shards ∈ slab.userShards, shards.length = stripe.slotCount.toNat

/-- The name under which a path is recorded. -/
def recordPath (fileRecordPath : Bytes) : Bytes := cString (truncateRecordPath fileRecordPath)

/-- The file is the last one of its name, and its MDUs have the shards that are made of it. -/
def HoldsFile (crypto : SlabCrypto) (stripe : StripeParams) (slab : Mode2Slab)
    (records : List FileRecordV1) (name file : Bytes) : Prop :=
  ∃ start : Nat,
    lastValue name (liveFiles records) =
      some ⟨UInt64.ofNat (start * rawMduCapacity), UInt64.ofNat file.length⟩ ∧
    start * rawMduCapacity + file.length ≤ 65536 * rawMduCapacity ∧
    ∀ i, i * rawMduCapacity < file.length →
      ∃ mdu wanted, expandChunk crypto stripe wanted file i = .ok mdu ∧
      slab.userShards[start + i]? = some mdu.shards

/-! ### Ends and MDUs -/

/-- The capacity as a 64-bit number. -/
theorem rawMduCapacityU64_toNat : rawMduCapacityU64.toNat = rawMduCapacity := rfl

/-- The user MDUs up to an end, where there are any. The source rounds up by adding before it
divides, and the sum may wrap. -/
theorem userMdusUpTo_eq {fileEnd : UInt64} (h : userMdusUpTo fileEnd ≠ 0) :
    (userMdusUpTo fileEnd).toNat = (fileEnd.toNat + (rawMduCapacity - 1)) / rawMduCapacity := by
  have hlt := fileEnd.toNat_lt
  rw [userMdusUpTo] at h ⊢
  split at h
  · rename_i hpos
    -- the sum that is divided
    have hsum : (fileEnd + rawMduCapacityU64 - 1).toNat =
        (fileEnd.toNat + (rawMduCapacity - 1)) % 2 ^ 64 := by
      have hpos := UInt64.lt_iff_toNat_lt.mp hpos
      rw [UInt64.toNat_sub, UInt64.toNat_add, rawMduCapacityU64_toNat, rawMduCapacity]
      rw [UInt64.toNat_zero] at hpos
      rw [UInt64.toNat_one]
      omega
    have hquotient : ((fileEnd + rawMduCapacityU64 - 1) / rawMduCapacityU64).toNat =
        (fileEnd.toNat + (rawMduCapacity - 1)) % 2 ^ 64 / rawMduCapacity := by
      rw [UInt64.toNat_div, hsum, rawMduCapacityU64_toNat]
    rw [if_pos hpos, hquotient]
    -- a sum that wraps around is less than one MDU
    have hne : (fileEnd.toNat + (rawMduCapacity - 1)) % 2 ^ 64 / rawMduCapacity ≠ 0 := by
      intro hzero
      exact h (UInt64.toNat_inj.mp (hquotient.trans hzero))
    rw [rawMduCapacity] at hne ⊢
    omega
  · exact absurd rfl h

/-- A file takes its length in MDUs, rounded up, and at least one. Its length is that of a slice, so
it is far from the wrap. -/
theorem userMdusOfFile_toNat {n : Nat} (h : n < 2 ^ 63) :
    (userMdusOfFile (UInt64.ofNat n)).toNat =
      max 1 ((n + (rawMduCapacity - 1)) / rawMduCapacity) := by
  have hn : (UInt64.ofNat n).toNat = n := UInt64.toNat_ofNat_of_lt' (show n < 2 ^ 64 by omega)
  rw [userMdusOfFile]
  -- an empty file takes one MDU
  by_cases hzero : n = 0
  · subst hzero
    rfl
  · have hpos : UInt64.ofNat n > 0 := by
      apply UInt64.lt_iff_toNat_lt.mpr
      rw [hn, UInt64.toNat_zero]
      omega
    -- the sum does not wrap
    have hquotient : ((UInt64.ofNat n + rawMduCapacityU64 - 1) / rawMduCapacityU64).toNat =
        (n + (rawMduCapacity - 1)) / rawMduCapacity := by
      rw [UInt64.toNat_div, UInt64.toNat_sub, UInt64.toNat_add, hn, rawMduCapacityU64_toNat,
        rawMduCapacity, UInt64.toNat_one]
      omega
    have hquotient_pos : 0 < (n + (rawMduCapacity - 1)) / rawMduCapacity := by
      rw [rawMduCapacity]
      omega
    have hne : (UInt64.ofNat n + rawMduCapacityU64 - 1) / rawMduCapacityU64 ≠ 0 := by
      intro hzero
      rw [hzero] at hquotient
      rw [UInt64.toNat_zero] at hquotient
      omega
    rw [if_pos hpos, if_neg hne, hquotient]
    omega

/-- The end of a file is at most the end of the slab. The loop keeps the larger end. -/
theorem le_maxEnd {records : List FileRecordV1} {rec : FileRecordV1} (h : rec ∈ records) :
    (rec.startOffset + rec.fileLength).toNat ≤ (maxEnd records).toNat := by
  -- for any start of the loop
  have hfold : ∀ (l : List FileRecordV1) (m : UInt64),
      m.toNat ≤ (l.foldl (fun maxEnd rec =>
        let fileEnd := rec.startOffset + rec.fileLength
        if fileEnd > maxEnd then fileEnd else maxEnd) m).toNat ∧
      ∀ rec ∈ l, (rec.startOffset + rec.fileLength).toNat ≤ (l.foldl (fun maxEnd rec =>
        let fileEnd := rec.startOffset + rec.fileLength
        if fileEnd > maxEnd then fileEnd else maxEnd) m).toNat := by
    intro l
    induction l with
    | nil => exact fun m => ⟨le_rfl, nofun⟩
    | cons r l ih =>
        intro m
        rw [List.foldl_cons]
        -- one step keeps the start and has the new end
        have hstep : m.toNat ≤
              (if r.startOffset + r.fileLength > m then r.startOffset + r.fileLength
              else m).toNat ∧
            (r.startOffset + r.fileLength).toNat ≤ (if r.startOffset + r.fileLength > m then
              r.startOffset + r.fileLength else m).toNat := by
          split
          · rename_i hgt
            exact ⟨(UInt64.lt_iff_toNat_lt.mp hgt).le, le_rfl⟩
          · rename_i hle
            exact ⟨le_rfl, Nat.not_lt.mp fun hlt => hle (UInt64.lt_iff_toNat_lt.mpr hlt)⟩
        obtain ⟨hstart, hrest⟩ := ih (if r.startOffset + r.fileLength > m then
          r.startOffset + r.fileLength else m)
        refine ⟨hstep.1.trans hstart, fun rec hrec => ?_⟩
        rcases List.mem_cons.mp hrec with rfl | hrec
        · exact hstep.2.trans hstart
        · exact hrest rec hrec
  exact (hfold records 0).2 rec h

/-- One more record. -/
theorem maxEnd_append (records : List FileRecordV1) (rec : FileRecordV1) :
    (maxEnd (records ++ [rec])).toNat =
      max (maxEnd records).toNat (rec.startOffset + rec.fileLength).toNat := by
  rw [maxEnd, maxEnd, List.foldl_append, List.foldl_cons, List.foldl_nil]
  generalize records.foldl _ (0 : UInt64) = m
  show (if rec.startOffset + rec.fileLength > m then rec.startOffset + rec.fileLength
    else m).toNat = _
  split
  · rename_i hgt
    exact (max_eq_right (UInt64.lt_iff_toNat_lt.mp hgt).le).symm
  · rename_i hle
    exact (max_eq_left (Nat.not_lt.mp fun hlt => hle (UInt64.lt_iff_toNat_lt.mpr hlt))).symm

/-! ### Loops over a range -/

/-- The results of a loop over a range. -/
theorem range_mapM_eq_ok {ε α : Type} {f : Nat → Except ε α} {n : Nat} {l : List α}
    (h : (List.range n).mapM f = .ok l) : l.length = n ∧ ∀ i x, l[i]? = some x → f i = .ok x := by
  have hpairs := forall₂_of_mapM_eq_ok h
  have hlength := hpairs.length_eq
  rw [List.length_range] at hlength
  refine ⟨hlength.symm, fun i x hx => ?_⟩
  obtain ⟨hi, rfl⟩ := List.getElem?_eq_some_iff.mp hx
  have hpair := hpairs.get (i := i) (by rw [List.length_range]; omega) hi
  simpa using hpair

/-- The same for a loop of options. The results are those of the numbers, in their order. -/
theorem range_mapM_eq_some {α : Type} {f : Nat → Option α} {n : Nat} {l : List α}
    (h : (List.range n).mapM f = some l) : l.length = n ∧ ∀ i x, l[i]? = some x → f i = some x := by
  -- by the bound of the range; the last number is done last
  induction n generalizing l with
  | zero =>
      cases h
      exact ⟨rfl, nofun⟩
  | succ n ih =>
      rw [List.range_succ, List.mapM_append] at h
      simp only [List.mapM_cons, List.mapM_nil, Option.bind_eq_bind, Option.pure_def,
        Option.bind_eq_some_iff, Option.some.injEq] at h
      obtain ⟨front, hfront, last, ⟨x, hx, hlast⟩, rfl⟩ := h
      obtain ⟨hlength, hget⟩ := ih hfront
      obtain ⟨y, rfl, rfl⟩ := hlast
      refine ⟨by simp [hlength], fun i z hz => ?_⟩
      rcases Nat.lt_or_ge i front.length with hi | hi
      · rw [List.getElem?_append_left hi] at hz
        exact hget i z hz
      · rw [List.getElem?_append_right hi] at hz
        have hi' : i = front.length := by
          have hlt := (List.getElem?_eq_some_iff.mp hz).1
          rw [List.length_singleton] at hlt
          omega
        rw [hi', Nat.sub_self] at hz
        cases hz
        rw [hi', hlength]
        exact hx

/-! ### The table of a buffer -/

/-- Bytes that are read as a record are the bytes of the record. The numbers are of eight bytes
each, and the path is taken as it is. -/
theorem toBytes_fromBytes {bytes : Bytes} (h : bytes.length = 64) :
    (FileRecordV1.fromBytes bytes h).toBytes = bytes := by
  -- each number is written as it was read
  have hnumber : ∀ o, o + 8 ≤ 64 →
      leBytes 8 (UInt64.ofNat (ofLeBytes (Lib.slice bytes o 8))).toNat = Lib.slice bytes o 8 := by
    intro o ho
    have hlength : (Lib.slice bytes o 8).length = 8 := length_slice (by omega)
    have hlt : ofLeBytes (Lib.slice bytes o 8) < 256 ^ 8 := by
      have hlt := ofBeBytes_lt (Lib.slice bytes o 8).reverse
      rwa [List.length_reverse, hlength] at hlt
    have hback := leBytes_ofLeBytes (Lib.slice bytes o 8)
    rw [hlength] at hback
    rw [UInt64.toNat_ofNat_of_lt' hlt, hback]
  rw [FileRecordV1.toBytes, FileRecordV1.fromBytes]
  show leBytes 8 (UInt64.ofNat (ofLeBytes (Lib.slice bytes 0 8))).toNat ++
    leBytes 8 (UInt64.ofNat (ofLeBytes (Lib.slice bytes 8 8))).toNat ++
    leBytes 8 (UInt64.ofNat (ofLeBytes (Lib.slice bytes 16 8))).toNat ++ Lib.slice bytes 24 40 =
      bytes
  rw [hnumber 0 (by omega), hnumber 8 (by omega), hnumber 16 (by omega)]
  -- the four fields are next to each other
  have hjoin : ∀ o n m, Lib.slice bytes o n ++ Lib.slice bytes (o + n) m =
      Lib.slice bytes o (n + m) := by
    intro o n m
    rw [Lib.slice, Lib.slice, Lib.slice, List.take_add, List.drop_drop]
  rw [hjoin 0 8 8, hjoin 0 16 8, hjoin 0 24 40, Lib.slice, List.drop_zero]
  exact List.take_of_length_le h.le

/-- A builder that was loaded and whose records are read holds them. The magic and the length were
checked, and the count is that of the header. -/
theorem lists_of_load {data : Bytes} {maxUserMdus commitmentsPerMdu : UInt64} {b : Mdu0Builder}
    {records : List FileRecordV1}
    (hload : Mdu0Builder.loadWithCommitments data maxUserMdus commitmentsPerMdu = .ok b)
    (hrecords : b.records = some records) : b.buffer = data ∧ b.Lists records := by
  rw [Mdu0Builder.loadWithCommitments] at hload
  split at hload
  · cases hload
  · rename_i hlength
    split at hload
    · cases hload
    · rename_i hmagic
      cases hload
      rw [Mdu0Builder.records] at hrecords
      obtain ⟨hcount, hget⟩ := range_mapM_eq_some hrecords
      -- each record is read from its own place
      have hslice : ∀ i r, records[i]? = some r → recordOffset i + fileRecordSize ≤ data.length ∧
          Lib.slice data (recordOffset i) fileRecordSize = r.toBytes := by
        intro i r hr
        have hrec := hget i r hr
        rw [Mdu0Builder.getFileRecord] at hrec
        split at hrec
        · rename_i hfits
          cases hrec
          exact ⟨hfits, (toBytes_fromBytes _).symm⟩
        · cases hrec
      -- length, magic, count, room, and records
      refine ⟨rfl, not_not.mp hlength, not_not.mp hmagic, ?_, ?_, fun i r hr => (hslice i r hr).2⟩
      · rw [hcount, Mdu0Builder.recordCount]
        have hlt := ofBeBytes_lt (Lib.slice data (fileTableStart + 8) 4).reverse
        rw [List.length_reverse, length_slice (by rw [not_not.mp hlength]; decide)] at hlt
        exact (UInt32.toNat_ofNat_of_lt' hlt).symm
      · -- the last record is read from the buffer
        rcases Nat.eq_zero_or_pos records.length with hzero | hpos
        · rw [hzero]
          decide
        · have hlast := (hslice (records.length - 1) _ (List.getElem?_eq_getElem (by omega))).1
          rw [not_not.mp hlength, recordOffset_add, fileRecordSize, mduSize] at hlast
          rw [recordOffset_add, fileTableEnd]
          omega

/-! ### Roots and records -/

section

variable {b b' : Mdu0Builder} {records : List FileRecordV1}

/-- A root that was set has 32 bytes. -/
theorem cryptoFfiSetRoot_ok {index : UInt64} {root : Bytes}
    (h : cryptoFfiSetRoot b index root = .ok b') :
    root.length = 32 ∧ b.setRoot index root = .ok b' := by
  rw [cryptoFfiSetRoot] at h
  split at h
  · cases h
  · rename_i hlength
    exact ⟨not_not.mp hlength, mapError_eq_ok.mp h⟩

/-- Roots that are set are in the table, and leave the records as they were. -/
theorem setRoots_ok {index : UInt64} {roots : List Bytes} (hindex : index.toNat ≤ 65536)
    (hlists : b.Lists records) (h : setRoots b index roots = .ok b') :
    b'.Lists records ∧ index.toNat + roots.length ≤ 65536 := by
  induction roots generalizing b index with
  | nil =>
      cases h
      exact ⟨hlists, by rw [List.length_nil]; omega⟩
  | cons root roots ih =>
      rw [setRoots, except_bind_ok] at h
      obtain ⟨b₁, hset, h⟩ := h
      obtain ⟨hroot, hset⟩ := cryptoFfiSetRoot_ok hset
      obtain ⟨hlt, rfl⟩ := (Mdu0Builder.setRoot_eq_ok (by omega)).mp hset
      have hnext : (index + 1).toNat = index.toNat + 1 := by
        rw [UInt64.toNat_add, UInt64.toNat_one]
        omega
      obtain ⟨hlists', hle⟩ := ih (by omega) (hlists.setRoot hlt hroot).1 h
      rw [List.length_cons]
      exact ⟨hlists', by omega⟩

/-- The same where the start is only known not to be huge: the first root is in the table. -/
theorem setRoots_ok_of_ne {index : UInt64} {roots : List Bytes} (hindex : index.toNat < 2 ^ 58)
    (hroots : roots ≠ []) (hlists : b.Lists records) (h : setRoots b index roots = .ok b') :
    b'.Lists records ∧ index.toNat + roots.length ≤ 65536 := by
  cases roots with
  | nil => exact absurd rfl hroots
  | cons root roots =>
      have hfirst := h
      rw [setRoots, except_bind_ok] at hfirst
      obtain ⟨b₁, hset, -⟩ := hfirst
      have hlt := ((Mdu0Builder.setRoot_eq_ok hindex).mp (cryptoFfiSetRoot_ok hset).2).1
      exact setRoots_ok (by omega) hlists h

/-- An appended file has a record at the end. -/
theorem nilMdu0AppendFile_ok {path : Bytes} {size startOffset : UInt64} (hlists : b.Lists records)
    (h : nilMdu0AppendFile b path size startOffset = .ok b') :
    ∃ hle : (cString path).length ≤ 40,
      b'.Lists (records ++ [fileRecord (cString path) size startOffset hle]) := by
  rw [nilMdu0AppendFile] at h
  split at h
  · cases h
  · split at h
    · rename_i hle
      exact ⟨hle, (hlists.append (mapError_eq_ok.mp h)).1⟩
    · cases h

end

/-- A name has no zero byte. -/
theorem zero_notMem_cString (text : Bytes) : (0 : UInt8) ∉ cString text := by
  intro hzero
  have himp := List.mem_takeWhile_imp hzero
  simp at himp

/-- A record is found under its name. -/
theorem recordName_fileRecord {path : Bytes} (size startOffset : UInt64) (hle : path.length ≤ 40)
    (hzero : (0 : UInt8) ∉ path) : recordName (fileRecord path size startOffset hle) = path := by
  rw [recordName, fileRecord]
  show ((path ++ List.replicate (40 - path.length) 0).reverse.dropWhile (· = 0)).reverse = path
  rw [List.reverse_append, List.reverse_replicate, List.dropWhile_append]
  have hzeros : (List.replicate (40 - path.length) (0 : UInt8)).dropWhile (fun x =>
      decide (x = 0)) = [] := by
    simp
  have hpath : path.reverse.dropWhile (fun x => decide (x = 0)) = path.reverse := by
    rw [List.dropWhile_eq_self_iff]
    intro hpos hhead
    simp only [decide_eq_true_eq] at hhead
    exact hzero (List.mem_reverse.mp (hhead ▸ List.getElem_mem hpos))
  simp [hzeros, hpath]

/-- The file of a record that is not a tombstone. -/
theorem liveFiles_append (records : List FileRecordV1) {rec : FileRecordV1}
    (h : rec.isTombstone = false) :
    liveFiles (records ++ [rec]) = liveFiles records ++ [(recordName rec, nilfsFile rec)] := by
  simp [liveFiles, List.filter_append, h]

/-- The last value, with one more at the end. -/
theorem lastValue_append_singleton {κ ν : Type} [LinearOrder κ] (k : κ) (l : List (κ × ν))
    (e : κ × ν) :
    lastValue k (l ++ [e]) = if e.1 = k then some e.2 else lastValue k l := by
  induction l with
  | nil =>
      show (lastValue k []).or (if e.1 = k then some e.2 else none) = _
      split <;> rfl
  | cons x l ih =>
      rw [List.cons_append, lastValue, ih, lastValue]
      split <;> rfl

/-! ### Witness counts -/

/-- The commitments of so few MDUs are counted exactly. -/
theorem witnessMduCountOf_toNat {n : Nat} {commitmentsPerMdu : UInt64} (hn : n ≤ 65536)
    (hc : commitmentsPerMdu.toNat ≤ 768) :
    (witnessMduCountOf (UInt64.ofNat n) commitmentsPerMdu).toNat =
      ceilDivPow2 (n * (effectiveCommitments commitmentsPerMdu).toNat * 48) 23 := by
  have heff : (effectiveCommitments commitmentsPerMdu).toNat ≤ 768 := by
    rw [effectiveCommitments]
    split
    · decide
    · exact hc
  have hprod : n * (effectiveCommitments commitmentsPerMdu).toNat ≤ 65536 * 768 :=
    Nat.mul_le_mul hn heff
  have htotal : (UInt64.ofNat n * effectiveCommitments commitmentsPerMdu * 48).toNat =
      n * (effectiveCommitments commitmentsPerMdu).toNat * 48 := by
    rw [UInt64.toNat_mul, UInt64.toNat_mul, UInt64.toNat_ofNat_of_lt' (show n < 2 ^ 64 by omega)]
    show n * (effectiveCommitments commitmentsPerMdu).toNat % 2 ^ 64 * 48 % 2 ^ 64 = _
    omega
  rw [witnessMduCountOf, htotal, toBinary64_eq_self (by omega)]
  refine UInt64.toNat_ofNat_of_lt' ?_
  rw [ceilDivPow2]
  show _ < 2 ^ 64
  omega

/-- More MDUs have more commitments. -/
theorem witnessMduCountOf_mono {n m : Nat} {commitmentsPerMdu : UInt64} (hnm : n ≤ m)
    (hm : m ≤ 65536) (hc : commitmentsPerMdu.toNat ≤ 768) :
    (witnessMduCountOf (UInt64.ofNat n) commitmentsPerMdu).toNat ≤
      (witnessMduCountOf (UInt64.ofNat m) commitmentsPerMdu).toNat := by
  rw [witnessMduCountOf_toNat (hnm.trans hm) hc, witnessMduCountOf_toNat hm hc,
    ceilDivPow2, ceilDivPow2]
  have hprod : n * (effectiveCommitments commitmentsPerMdu).toNat * 48 ≤
      m * (effectiveCommitments commitmentsPerMdu).toNat * 48 :=
    Nat.mul_le_mul_right _ (Nat.mul_le_mul_right _ hnm)
  omega

/-- A witness count is never huge. -/
theorem witnessMduCountOf_lt (maxUserMdus commitmentsPerMdu : UInt64) :
    (witnessMduCountOf maxUserMdus commitmentsPerMdu).toNat < 2 ^ 58 := by
  rw [witnessMduCountOf]
  have hle := toBinary64_le (maxUserMdus * effectiveCommitments commitmentsPerMdu * 48).toNat_lt
  have hlt := (maxUserMdus * effectiveCommitments commitmentsPerMdu * 48).toNat_lt
  show (UInt64.ofNat
    (ceilDivPow2 (toBinary64 (maxUserMdus * effectiveCommitments commitmentsPerMdu * 48).toNat)
    23)).toNat < 2 ^ 58
  generalize toBinary64 (maxUserMdus * effectiveCommitments commitmentsPerMdu * 48).toNat =
    total at hle ⊢
  rw [ceilDivPow2, UInt64.toNat_ofNat_of_lt' (show _ < 2 ^ 64 by omega)]
  omega

/-! ### What a build leaves -/

/-- The record of a file that is added behind some MDUs. -/
def addedRecord (file fileRecordPath : Bytes) (start : Nat)
    (h : (recordPath fileRecordPath).length ≤ 40) : FileRecordV1 :=
  fileRecord (recordPath fileRecordPath) (UInt64.ofNat file.length)
    (UInt64.ofNat (start * rawMduCapacity)) h

/-- A build has put the file in its slab, behind the MDUs that were there. -/
structure Added (crypto : SlabCrypto) (stripe : StripeParams) (slab : Mode2Slab)
    (records : List FileRecordV1) (oldShards : List (List Bytes)) (file fileRecordPath : Bytes) :
      Prop where
  path_length : (recordPath fileRecordPath).length ≤ 40
  lists : ∃ b : Mdu0Builder, b.buffer = slab.mdu0 ∧
    b.Lists (records ++ [addedRecord file fileRecordPath oldShards.length path_length])
  mdus : ∃ wanted mdus, (List.range (userMdusOfFile (UInt64.ofNat file.length)).toNat).mapM
      (expandChunk crypto stripe wanted file) = .ok mdus ∧
    slab.userShards = oldShards ++ mdus.map (·.shards)
  slots : ∀ shards ∈ oldShards, shards.length = stripe.slotCount.toNat
  oldEnd : (maxEnd (liveRecords records)).toNat ≤ oldShards.length * rawMduCapacity
  bound : slab.userShards.length ≤ 65536
  witness : slab.witnessMdus.length =
    (witnessMduCountOf (UInt64.ofNat slab.userShards.length) stripe.leafCount).toNat

/-- A commitment is to the builder and the shards that it is given. -/
theorem commitSlab_ok {crypto : SlabCrypto} {builder : Mdu0Builder}
    {witnessMdus witnessRoots userRoots : List Bytes} {userShards : List (List Bytes)}
    {root : Bytes} {slab : Mode2Slab}
    (h : commitSlab crypto builder witnessMdus witnessRoots userRoots userShards =
      .ok (root, slab)) :
    root.length = 48 ∧ slab.mdu0 = builder.buffer ∧ slab.witnessMdus = witnessMdus ∧
      slab.userShards = userShards := by
  simp only [commitSlab, except_bind_ok, rejectIf_eq_ok] at h
  obtain ⟨mdu0Root, -, ⟨commitment, manifestBlob⟩, -, u, hchecked, h⟩ := h
  cases h
  rw [not_or, not_not] at hchecked
  exact ⟨hchecked.1, rfl, rfl, rfl⟩

/-- A shard for each slot. -/
theorem expandChunk_slots {crypto : SlabCrypto} {stripe : StripeParams} {wanted : Option Nat}
    {file : Bytes}
    {i : Nat} {mdu : UserMdu} (h : expandChunk crypto stripe wanted file i = .ok mdu) :
    mdu.shards.length = stripe.slotCount.toNat := by
  simp only [expandChunk, except_bind_ok, rejectIf_eq_ok] at h
  obtain ⟨⟨witnessFlat, shards⟩, -, -, -, root, -, -, hshards, h⟩ := h
  cases h
  rw [List.length_take]
  omega

/-- The witness MDUs that were built are as many as asked for. -/
theorem buildWitnessMdus_length {witnessCount : UInt64} {witnessBytes : Bytes} {mdus : List Bytes}
    (h : buildWitnessMdus witnessCount witnessBytes = .ok mdus) :
      mdus.length = witnessCount.toNat :=
  (range_mapM_eq_ok h).1

/-- A file has one user MDU at least. -/
theorem userMdusOfFile_pos (fileSize : UInt64) : 0 < (userMdusOfFile fileSize).toNat := by
  have hne : userMdusOfFile fileSize ≠ 0 := by
    rw [userMdusOfFile]
    split
    · simp only []
      split
      · decide
      · rename_i hne
        exact hne
    · decide
  exact Nat.pos_of_ne_zero fun hzero => hne (UInt64.toNat_inj.mp hzero)

/-- The first build. Nothing is there before it, and the file is the only record. -/
theorem mode2BuildArtifacts_ok {crypto : SlabCrypto} {stripe : StripeParams}
    {file fileRecordPath : Bytes}
    {res : Mode2IngestResult}
    (h : mode2BuildArtifacts crypto stripe file fileRecordPath = .ok res) :
    res.manifestRoot.length = 48 ∧ Added crypto stripe res.slab [] [] file fileRecordPath := by
  -- the steps of the build, in their order
  simp only [mode2BuildArtifacts, except_bind_ok, orFail_eq_ok, mapError_eq_ok] at h
  obtain ⟨-, -, mdus, hmdus, b₁, hroots, -, -, witnessMdus, hwitness, witnessRoots,
    hwroots, b₂, hroots',
    b₃, happend, records, -, ⟨root, slab⟩, hcommit, h⟩ := h
  cases h
  obtain ⟨hroot, hmdu0, hwitnessMdus, hshards⟩ := commitSlab_ok hcommit
  have hmdusLength : mdus.length = (userMdusOfFile (UInt64.ofNat file.length)).toNat :=
    (range_mapM_eq_ok hmdus).1
  have hne : mdus.map (·.root) ≠ [] := by
    intro hnil
    have hlength := congrArg List.length hnil
    rw [List.length_map, hmdusLength, List.length_nil] at hlength
    exact (userMdusOfFile_pos _).ne' hlength
  -- both loops and the record go into the builder
  obtain ⟨hlists₁, hbound⟩ := setRoots_ok_of_ne (witnessMduCountOf_lt _ _) hne
    (Mdu0Builder.lists_new _ _) hroots
  obtain ⟨hlists₂, -⟩ := setRoots_ok (Nat.zero_le _) hlists₁ hroots'
  obtain ⟨hle, hlists₃⟩ := nilMdu0AppendFile_ok hlists₂ happend
  have hshardsLength : slab.userShards.length = mdus.length := by
    rw [hshards, List.length_map]
  refine ⟨hroot, hle, ⟨b₃, hmdu0.symm, hlists₃⟩,
    ⟨none, mdus, hmdus, hshards⟩, by simp, Nat.zero_le _, ?_, ?_⟩
  · show slab.userShards.length ≤ 65536
    rw [List.length_map] at hbound
    omega
  · show slab.witnessMdus.length =
      (witnessMduCountOf (UInt64.ofNat slab.userShards.length) stripe.leafCount).toNat
    rw [hwitnessMdus, buildWitnessMdus_length hwitness, hshardsLength, hmdusLength,
      UInt64.ofNat_toNat]
    rfl

/-- What an append has taken from the slab that it read. -/
structure Copied (stripe : StripeParams) (old : Mode2Slab) (records : List FileRecordV1)
    (oldShards : List (List Bytes)) : Prop where
  lists : ∃ b : Mdu0Builder, b.buffer = old.mdu0 ∧ b.Lists records
  nonempty : 0 < oldShards.length
  length : oldShards.length = (userMdusUpTo (maxEnd (liveRecords records))).toNat
  shards : ∀ j shards, oldShards[j]? = some shards → copyShards stripe old
    (1 + (witnessMduCountOf (UInt64.ofNat oldShards.length) stripe.leafCount).toNat + j) =
      .ok shards

/-- The foreign call loads what the core loads. -/
theorem loadMdu0BuilderWithCommitments_ok {data : Bytes} {maxUserMdus commitmentsPerMdu : UInt64}
    {b : Mdu0Builder}
    (h : loadMdu0BuilderWithCommitments data maxUserMdus commitmentsPerMdu = .ok b) :
    Mdu0Builder.loadWithCommitments data maxUserMdus commitmentsPerMdu = .ok b := by
  rw [loadMdu0BuilderWithCommitments] at h
  split at h
  · cases h
  · exact mapError_eq_ok.mp h

/-- An append. It reads the old table, copies the shards it covers, and builds the table again
around the new file. -/
theorem mode2BuildArtifactsAppend_ok {crypto : SlabCrypto} {stripe : StripeParams} {old : Mode2Slab}
    {file fileRecordPath : Bytes} {res : Mode2IngestResult}
    (h : mode2BuildArtifactsAppend crypto stripe old file fileRecordPath = .ok res) :
    res.manifestRoot.length = 48 ∧ ∃ records oldShards, Copied stripe old records oldShards ∧
      Added crypto stripe res.slab records oldShards file fileRecordPath := by
  -- the steps of the append, in their order
  simp only [mode2BuildArtifactsAppend, except_bind_ok, orFail_eq_ok, mapError_eq_ok,
    rejectIf_eq_ok] at h
  obtain ⟨-, -, tmpBuilder, htmp, records, hrecords, -, holdUserMdus, oldShards, holdShards,
    oldWitnessBytes, -, b₀, hload, -, hwitnessCount, b₁, happend, records', -, mdus, hmdus, -, -,
    oldUserRoots, holdUserRoots, witnessMdus, hwitness, witnessRoots, -, b₂, hroots, b₃, hroots',
    ⟨root, slab⟩, hcommit, h⟩ := h
  cases h
  obtain ⟨hroot, hmdu0, hwitnessMdus, hshards⟩ := commitSlab_ok hcommit
  obtain ⟨hbuffer, hlists⟩ := lists_of_load (loadMdu0BuilderWithCommitments_ok htmp) hrecords
  have hlive : (records.filter fun rec => !rec.isTombstone) = liveRecords records := rfl
  simp only [hlive] at holdUserMdus holdShards hload happend holdUserRoots hwitness hroots'
  set oldUserMdus := userMdusUpTo (maxEnd (liveRecords records)) with holdUserMdus_def
  set newUserMdus := userMdusOfFile (UInt64.ofNat file.length) with hnewUserMdus_def
  -- the old shards, the new MDUs and the old roots, each as many as were asked for
  obtain ⟨holdLength, holdGet⟩ := range_mapM_eq_ok holdShards
  change oldShards.length = oldUserMdus.toNat at holdLength
  have hmdusLength : mdus.length = newUserMdus.toNat := (range_mapM_eq_ok hmdus).1
  have hrootsLength : oldUserRoots.length = oldUserMdus.toNat := (range_mapM_eq_ok holdUserRoots).1
  -- the loaded builder has the table that was read
  have hload := loadMdu0BuilderWithCommitments_ok hload
  rw [← hbuffer, hlists.load] at hload
  cases hload
  obtain ⟨hle, hlists₁⟩ := nilMdu0AppendFile_ok (by exact hlists.of_buffer rfl) happend
  obtain ⟨hlists₂, -⟩ := setRoots_ok (Nat.zero_le _) hlists₁ hroots
  have hne : oldUserRoots ++ mdus.map (·.root) ≠ [] := by
    intro hnil
    have hlength := congrArg List.length hnil
    rw [List.length_append, List.length_map, hmdusLength, List.length_nil] at hlength
    have hpos : 0 < newUserMdus.toNat := userMdusOfFile_pos _
    omega
  obtain ⟨hlists₃, hbound⟩ := setRoots_ok_of_ne (witnessMduCountOf_lt _ _) hne hlists₂ hroots'
  rw [List.length_append, List.length_map, hmdusLength, hrootsLength] at hbound
  have hbound : oldUserMdus.toNat + newUserMdus.toNat ≤ 65536 := by omega
  have htotal : oldUserMdus + newUserMdus = UInt64.ofNat slab.userShards.length := by
    rw [hshards, List.length_append, List.length_map, holdLength, hmdusLength, UInt64.ofNat_add,
      UInt64.ofNat_toNat, UInt64.ofNat_toNat]
  have hoffset : oldUserMdus * rawMduCapacityU64 =
      UInt64.ofNat (oldShards.length * rawMduCapacity) := by
    rw [holdLength, UInt64.ofNat_mul, UInt64.ofNat_toNat]
    rfl
  -- the end of the old files is where the new one starts
  have hstart := userMdusUpTo_eq holdUserMdus
  rw [← holdUserMdus_def, ← holdLength] at hstart
  rw [hoffset] at hlists₃
  refine ⟨hroot, records, oldShards, ⟨⟨tmpBuilder, hbuffer, hlists⟩, ?_, holdLength, ?_⟩, hle,
    ⟨b₃, hmdu0.symm, hlists₃⟩, ⟨_, mdus, hmdus, hshards⟩, ?_, ?_, ?_, ?_⟩
  · rw [holdLength]
    exact Nat.pos_of_ne_zero fun hzero => holdUserMdus (UInt64.toNat_inj.mp hzero)
  · intro j shards hj
    have hcopied := holdGet j shards hj
    rwa [← UInt64.ofNat_toNat (x := oldUserMdus), ← holdLength] at hcopied
  · intro shards hmem
    obtain ⟨j, hj⟩ := List.mem_iff_getElem?.mp hmem
    have hcopied := holdGet j shards hj
    rw [copyShards] at hcopied
    exact (range_mapM_eq_ok hcopied).1
  · rw [hstart, rawMduCapacity]
    omega
  · show slab.userShards.length ≤ 65536
    rw [hshards, List.length_append, List.length_map, holdLength, hmdusLength]
    exact hbound
  · show slab.witnessMdus.length = _
    rw [hwitnessMdus, buildWitnessMdus_length hwitness, htotal]

/-! ### The added file -/

section

variable {crypto : SlabCrypto} {stripe : StripeParams} {slab old : Mode2Slab}
  {records : List FileRecordV1} {oldShards : List (List Bytes)} {file fileRecordPath : Bytes}

/-- A file end inside the MDUs needs no more of them. -/
theorem userMdusUpTo_le {fileEnd : UInt64} {n : Nat} (h : fileEnd.toNat ≤ n * rawMduCapacity) :
    (userMdusUpTo fileEnd).toNat ≤ n := by
  by_cases hzero : userMdusUpTo fileEnd = 0
  · rw [hzero]
    exact Nat.zero_le n
  · rw [userMdusUpTo_eq hzero, rawMduCapacity]
    rw [rawMduCapacity] at h
    omega

/-- How many MDUs the build has added, and for which bytes. -/
theorem Added.mdus_length (h : Added crypto stripe slab records oldShards file fileRecordPath)
    (hfile : file.length < 2 ^ 63) :
    slab.userShards.length =
      oldShards.length + max 1 ((file.length + (rawMduCapacity - 1)) / rawMduCapacity) := by
  obtain ⟨wanted, mdus, hmdus, hshards⟩ := h.mdus
  rw [hshards, List.length_append, List.length_map, (range_mapM_eq_ok hmdus).1,
    userMdusOfFile_toNat hfile]

/-- The added file ends in the slab. -/
theorem Added.end_le (h : Added crypto stripe slab records oldShards file fileRecordPath)
    (hfile : file.length < 2 ^ 63) :
    oldShards.length * rawMduCapacity + file.length ≤ slab.userShards.length * rawMduCapacity := by
  rw [h.mdus_length hfile, rawMduCapacity]
  omega

/-- A file that was added fits behind the ones before it. -/
theorem Added.file_fits (h : Added crypto stripe slab records oldShards file fileRecordPath)
    (hfile : file.length < 2 ^ 63) :
    oldShards.length * rawMduCapacity + file.length ≤ 65536 * rawMduCapacity :=
  (h.end_le hfile).trans (Nat.mul_le_mul_right _ h.bound)

/-- The numbers in the added record. The file is no longer than a slice can be, and it fits after
the old MDUs. -/
theorem Added.record_numbers (h : Added crypto stripe slab records oldShards file fileRecordPath)
    (hfile : file.length < 2 ^ 63) :
    (addedRecord file fileRecordPath oldShards.length h.path_length).fileLength =
        UInt64.ofNat file.length ∧
      ((addedRecord file fileRecordPath oldShards.length h.path_length).startOffset +
        (addedRecord file fileRecordPath oldShards.length h.path_length).fileLength).toNat =
        oldShards.length * rawMduCapacity + file.length := by
  have hfits := h.file_fits hfile
  rw [rawMduCapacity] at hfits
  have hsize : (UInt64.ofNat file.length).toNat = file.length :=
    UInt64.toNat_ofNat_of_lt' (show file.length < 2 ^ 64 by omega)
  have hstart : (UInt64.ofNat (oldShards.length * rawMduCapacity)).toNat =
      oldShards.length * rawMduCapacity :=
    UInt64.toNat_ofNat_of_lt' (show _ < 2 ^ 64 by rw [rawMduCapacity]; omega)
  have hlength : (addedRecord file fileRecordPath oldShards.length h.path_length).fileLength =
      UInt64.ofNat file.length := fileLength_fileRecord _ _ (by omega)
  refine ⟨hlength, ?_⟩
  rw [hlength, UInt64.toNat_add]
  show ((UInt64.ofNat (oldShards.length * rawMduCapacity)).toNat +
    (UInt64.ofNat file.length).toNat) %
    2 ^ 64 = _
  rw [hstart, hsize, rawMduCapacity]
  omega

/-- A file whose name is not empty is no tombstone. -/
theorem isTombstone_addedRecord (file : Bytes) {fileRecordPath : Bytes} (start : Nat)
    (h : (recordPath fileRecordPath).length ≤ 40) (hname : recordPath fileRecordPath ≠ []) :
    (addedRecord file fileRecordPath start h).isTombstone = false := by
  refine (isTombstone_fileRecord _ _ h).mpr ⟨hname, fun hhead => ?_⟩
  exact zero_notMem_cString _ (List.mem_of_head? hhead)

/-- The files of the new table: those of the old one, and the added file. -/
theorem Added.liveFiles_eq (h : Added crypto stripe slab records oldShards file fileRecordPath)
    (hfile : file.length < 2 ^ 63) (hname : recordPath fileRecordPath ≠ []) :
    liveFiles (records ++ [addedRecord file fileRecordPath oldShards.length h.path_length]) =
      liveFiles records ++ [(recordPath fileRecordPath,
        ⟨UInt64.ofNat (oldShards.length * rawMduCapacity), UInt64.ofNat file.length⟩)] := by
  have hrecord : recordName (addedRecord file fileRecordPath oldShards.length h.path_length) =
      recordPath fileRecordPath := recordName_fileRecord _ _ _ (zero_notMem_cString _)
  have hnumbers : nilfsFile (addedRecord file fileRecordPath oldShards.length h.path_length) =
      ⟨UInt64.ofNat (oldShards.length * rawMduCapacity), UInt64.ofNat file.length⟩ := by
    rw [nilfsFile, (h.record_numbers hfile).1]
    rfl
  rw [liveFiles_append records (isTombstone_addedRecord file _ h.path_length hname),
    hrecord, hnumbers]

/-- A built slab is a good one. What `Added` says of the old part and of the new one is joined
here. -/
theorem Added.good (h : Added crypto stripe slab records oldShards file fileRecordPath)
    (hfile : file.length < 2 ^ 63) (hname : recordPath fileRecordPath ≠ []) :
    slab.Good stripe
      (records ++ [addedRecord file fileRecordPath oldShards.length h.path_length]) := by
  refine ⟨h.lists, ?_, h.bound, h.witness, ?_⟩
  · -- the end is that of the old files, or that of the added one
    have hlive : liveRecords
        (records ++ [addedRecord file fileRecordPath oldShards.length h.path_length]) =
        liveRecords records ++
          [addedRecord file fileRecordPath oldShards.length h.path_length] := by
      simp [liveRecords, List.filter_append, isTombstone_addedRecord file _ h.path_length hname]
    have hend := h.end_le hfile
    have hold := h.oldEnd
    have hlength := h.mdus_length hfile
    apply userMdusUpTo_le
    rw [hlive, maxEnd_append, (h.record_numbers hfile).2]
    refine max_le (hold.trans (Nat.mul_le_mul_right _ ?_)) hend
    omega
  · intro shards hmem
    obtain ⟨wanted, mdus, hmdus, hshards⟩ := h.mdus
    rw [hshards, List.mem_append] at hmem
    -- the shards are old ones or new ones
    rcases hmem with hmem | hmem
    · exact h.slots shards hmem
    · obtain ⟨mdu, hmdu, rfl⟩ := List.mem_map.mp hmem
      obtain ⟨i, -, hexpand⟩ := (mem_of_mapM_eq_ok hmdus).1 mdu hmdu
      exact expandChunk_slots hexpand

/-- A built slab holds its file. -/
theorem Added.holds (h : Added crypto stripe slab records oldShards file fileRecordPath)
    (hfile : file.length < 2 ^ 63) (hname : recordPath fileRecordPath ≠ []) :
    HoldsFile crypto stripe slab
      (records ++ [addedRecord file fileRecordPath oldShards.length h.path_length])
      (recordPath fileRecordPath) file := by
  refine ⟨oldShards.length, ?_, h.file_fits hfile, fun i hi => ?_⟩
  · rw [h.liveFiles_eq hfile hname, lastValue_append_singleton, if_pos rfl]
  · obtain ⟨wanted, mdus, hmdus, hshards⟩ := h.mdus
    obtain ⟨hlength, hget⟩ := range_mapM_eq_ok hmdus
    have hlt : i < mdus.length := by
      rw [hlength, userMdusOfFile_toNat hfile, rawMduCapacity]
      rw [rawMduCapacity] at hi
      omega
    refine ⟨mdus[i], wanted, hget i _ (List.getElem?_eq_getElem hlt), ?_⟩
    rw [hshards, List.getElem?_append_right (Nat.le_add_right _ _), Nat.add_sub_cancel_left,
      List.getElem?_map, List.getElem?_eq_getElem hlt]
    rfl

/-! ### The files that were there -/

/-- The table that an append reads is the table of the slab. -/
theorem Copied.records_eq {oldRecords : List FileRecordV1} (h : Copied stripe old records oldShards)
    (hgood : old.Good stripe oldRecords) : oldRecords = records := by
  obtain ⟨b, hbuffer, hlists⟩ := h.lists
  obtain ⟨b', hbuffer', hlists'⟩ := hgood.lists
  have hread := (hlists'.of_buffer (hbuffer.trans hbuffer'.symm)).records_eq
  rw [hlists.records_eq] at hread
  exact (Option.some.inj hread).symm

/-- The copied MDUs are where the append has looked for them. -/
theorem Copied.witness_eq (h : Copied stripe old records oldShards)
    (hgood : old.Good stripe records)
    (hleaf : stripe.leafCount.toNat ≤ 768) (hslots : 0 < stripe.slotCount.toNat) :
    (witnessMduCountOf (UInt64.ofNat oldShards.length) stripe.leafCount).toNat =
      old.witnessMdus.length := by
  have hused := hgood.used
  rw [← h.length] at hused
  have hle := witnessMduCountOf_mono hused hgood.bound hleaf
  rw [← hgood.witness] at hle
  -- with fewer witness MDUs there would be no shards where the copy of the first MDU starts
  refine Nat.le_antisymm hle (Nat.not_lt.mp fun hlt => ?_)
  have hcopy := h.shards 0 _ (List.getElem?_eq_getElem h.nonempty)
  rw [copyShards] at hcopy
  obtain ⟨hlength, hget⟩ := range_mapM_eq_ok hcopy
  have hslot := hget 0 _ (List.getElem?_eq_getElem (by omega))
  rw [orFail_eq_ok, Mode2Slab.slotFile, if_pos (by omega)] at hslot
  cases hslot

/-- The shards are copied as they are. -/
theorem Copied.shards_eq (h : Copied stripe old records oldShards) (hgood : old.Good stripe records)
    (hleaf : stripe.leafCount.toNat ≤ 768) {j : Nat} (hj : j < oldShards.length) :
    oldShards[j]? = old.userShards[j]? := by
  have hused := hgood.used
  rw [← h.length] at hused
  have hcopy := h.shards j _ (List.getElem?_eq_getElem hj)
  rw [copyShards] at hcopy
  obtain ⟨hlength, hget⟩ := range_mapM_eq_ok hcopy
  have hold : old.userShards[j].length = stripe.slotCount.toNat :=
    hgood.slots _ (List.getElem_mem (by omega))
  rw [List.getElem?_eq_getElem hj, List.getElem?_eq_getElem (by omega)]
  congr 1
  refine List.ext_getElem? fun slot => ?_
  rcases Nat.lt_or_ge slot stripe.slotCount.toNat with hslot | hslot
  · have hfile := hget slot _ (List.getElem?_eq_getElem (by omega))
    rw [orFail_eq_ok, h.witness_eq hgood hleaf (by omega), Mode2Slab.slotFile,
      if_neg (by omega), Nat.add_sub_cancel_left, List.getElem?_eq_getElem (by omega)] at hfile
    rw [List.getElem?_eq_getElem (by omega)]
    exact hfile.symm
  · rw [List.getElem?_eq_none (by omega), List.getElem?_eq_none (by omega)]

/-- An append keeps the other files. Their records stay in the table, and the MDUs that they point
to are copied. -/
theorem Added.keeps (h : Added crypto stripe slab records oldShards file fileRecordPath)
    (hcopied : Copied stripe old records oldShards) (hfile : file.length < 2 ^ 63)
    (hname : recordPath fileRecordPath ≠ []) (hgood : old.Good stripe records)
    (hleaf : stripe.leafCount.toNat ≤ 768) {name oldFile : Bytes}
    (hother : name ≠ recordPath fileRecordPath)
    (hholds : HoldsFile crypto stripe old records name oldFile) :
    HoldsFile crypto stripe slab
      (records ++ [addedRecord file fileRecordPath oldShards.length h.path_length])
        name oldFile := by
  obtain ⟨start, hlast, hfits, hshards⟩ := hholds
  refine ⟨start, ?_, hfits, fun i hi => ?_⟩
  -- the record of the name is still the last one
  · rw [h.liveFiles_eq hfile hname, lastValue_append_singleton, if_neg hother.symm, hlast]
  · obtain ⟨mdu, wanted, hexpand, hget⟩ := hshards i hi
    refine ⟨mdu, wanted, hexpand, ?_⟩
    -- the MDU is before the end of the table that was read, so it was copied
    have hcopy : start + i < oldShards.length := by
      obtain ⟨rec, hrec, hnumbers⟩ : ∃ rec ∈ liveRecords records, nilfsFile rec =
          ⟨UInt64.ofNat (start * rawMduCapacity), UInt64.ofNat oldFile.length⟩ := by
        have hmem := mem_of_lastValue hlast
        rw [liveFiles, List.mem_map] at hmem
        obtain ⟨rec, hrec, heq⟩ := hmem
        exact ⟨rec, hrec, (Prod.ext_iff.mp heq).2⟩
      have hend := le_maxEnd hrec
      rw [nilfsFile, NilfsFile.mk.injEq] at hnumbers
      rw [rawMduCapacity] at hfits hnumbers hi
      have hlt : start * 8126464 < 2 ^ 64 :=
        lt_of_le_of_lt ((Nat.le_add_right _ _).trans hfits) (by decide)
      have hlt' : oldFile.length < 2 ^ 64 :=
        lt_of_le_of_lt ((Nat.le_add_left _ _).trans hfits) (by decide)
      have hstart : (UInt64.ofNat (start * 8126464)).toNat = start * 8126464 :=
        UInt64.toNat_ofNat_of_lt' hlt
      have hsize : (UInt64.ofNat oldFile.length).toNat = oldFile.length :=
        UInt64.toNat_ofNat_of_lt' hlt'
      rw [hnumbers.1, hnumbers.2, UInt64.toNat_add, hstart, hsize] at hend
      have hne : userMdusUpTo (maxEnd (liveRecords records)) ≠ 0 := by
        intro hzero
        have hpos := hcopied.nonempty
        rw [hcopied.length, hzero] at hpos
        exact absurd hpos (by decide)
      rw [hcopied.length, userMdusUpTo_eq hne, rawMduCapacity]
      omega
    obtain ⟨wanted', mdus, -, hall⟩ := h.mdus
    rw [hall, List.getElem?_append_left hcopy, hcopied.shards_eq hgood hleaf hcopy]
    exact hget

end

end NilStore.Gateway
