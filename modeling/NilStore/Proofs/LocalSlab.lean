import NilStore.Lib.Decimal
import NilStore.Lib.Runs
import NilStore.Website.OpfsFetch

/-!
# `NilStore.Proofs.LocalSlab`: the layout that the browser infers

The browser learns how many witness MDUs a slab has from the number of MDU files in the directory. A
slab is saved over the one before it, and nothing removes an MDU. So after every run the directory
has as many MDUs as the largest slab that was ever saved in it (`Holds`), and `inferred_layout` says
what is inferred from that: the layout of the last slab exactly when no slab before it was larger.
-/

set_option autoImplicit false

namespace NilStore.Website

open NilStore.Lib NilStore.Core

/-! ### Names -/

/-- Different MDUs have different file names. -/
theorem mduName_injective : Function.Injective mduName := by
  intro i j h
  have hdecimal := List.append_cancel_left (List.append_cancel_right h)
  exact Int.ofNat.inj (decimal_injective hdecimal)

/-- The number of an MDU name. -/
theorem bigInt_decimal (k : Nat) : bigInt (decimal k) = k := by
  have hfold : bigInt (decimal k) = Nat.ofDigitChars 10 (decimal k) 0 := by
    rw [bigInt, Nat.ofDigitChars_eq_foldl]
    congr 1
    funext n c
    rw [Nat.mul_comm]
  rw [hfold, decimal_natCast, Nat.ofDigitChars_ten_toDigits]

/-- What is between the beginning and the end of a name has to be digits. -/
theorem parseMduIndex_middle (middle : Str) :
    parseMduIndex ("mdu_".toList ++ middle ++ ".bin".toList) =
      if middle ≠ [] ∧ middle.all Char.isDigit then
        if isFinite (JsNumber.ofRat (bigInt middle) false)
          then some (JsNumber.ofRat (bigInt middle) false)
        else none
      else none := by
  have hprefix : hasPrefix ("mdu_".toList ++ middle ++ ".bin".toList) "mdu_".toList = true := by
    rw [hasPrefix, List.isPrefixOf_iff_prefix, List.append_assoc]
    exact List.prefix_append _ _
  have hdrop : ("mdu_".toList ++ middle ++ ".bin".toList).drop 4 = middle ++ ".bin".toList := by
    rw [List.append_assoc]
    rfl
  have hlength : (middle ++ ".bin".toList).length - 4 = middle.length := by
    rw [List.length_append]
    exact Nat.add_sub_cancel _ _
  rw [parseMduIndex, if_pos hprefix]
  simp only [hdrop, hlength, List.drop_left, List.take_left, true_and]

/-- The name of an MDU is read back. -/
theorem parseMduIndex_mduName {k : Nat} (h : k < 2 ^ 53) :
    parseMduIndex (mduName k) = some (.finite k) := by
  have hdigits : (decimal (k : Int)).all Char.isDigit = true :=
    List.all_eq_true.mpr fun c hc => isDigit_of_mem_decimal hc
  have hfinite : JsNumber.ofRat (k : ℚ) false = .finite k := by
    have hle : (k : ℚ) < 2 ^ 1024 :=
      lt_trans (by exact_mod_cast h : (k : ℚ) < 2 ^ 53) (pow_lt_pow_right₀ one_lt_two (by decide))
    rw [JsNumber.ofRat, nearestDouble_natCast h, if_neg (not_le.mpr hle)]
    rfl
  rw [mduName, parseMduIndex_middle, if_pos ⟨decimal_ne_nil k, hdigits⟩, bigInt_decimal, hfinite]
  rfl

/-- A name with another beginning is no MDU's. -/
theorem parseMduIndex_noPrefix {name : Str} (h : hasPrefix name "mdu_".toList = false) :
    parseMduIndex name = none := by
  rw [parseMduIndex, h]
  rfl

/-- The name of a shard is no MDU's: its middle has an underscore. -/
theorem parseMduIndex_shard (mduIndex slot : Nat) :
    parseMduIndex ("mdu_".toList ++ decimal mduIndex ++ "_slot_".toList ++ decimal slot ++
      ".bin".toList) =
      none := by
  have hmiddle : "mdu_".toList ++ decimal mduIndex ++ "_slot_".toList ++ decimal slot ++
      ".bin".toList =
      "mdu_".toList ++ (decimal mduIndex ++ "_slot_".toList ++ decimal slot) ++ ".bin".toList := by
    simp only [List.append_assoc]
  rw [hmiddle, parseMduIndex_middle, if_neg]
  rintro ⟨-, hall⟩
  have hdigit := List.all_eq_true.mp hall '_' (by simp)
  cases hdigit

/-! ### The directory after a run -/

/-- How many MDUs the largest slab had that the page has saved. -/
def mostMdus : List DirEvent → Nat
  | [] => 0
  | .persist _ _ mdus _ :: rest => max mdus.length (mostMdus rest)
  | _ :: rest => mostMdus rest

/-- The most MDUs of two histories is the larger of both. -/
theorem mostMdus_append (es fs : List DirEvent) :
    mostMdus (es ++ fs) = max (mostMdus es) (mostMdus fs) := by
  induction es with
  | nil => simp [mostMdus]
  | cons e es ih => cases e <;> simp [mostMdus, ih, max_assoc]

/-- The MDUs of the directory are those with an index below `m`. -/
structure Holds (dir : DealDirectory) (m : Nat) : Prop where
  only : ∀ name, (dir.get name).isSome → (parseMduIndex name).isSome → ∃ k < m, name = mduName k
  all : ∀ k < m, (dir.get (mduName k)).isSome

section Holds

variable {dir : DealDirectory} {m : Nat}

/-- A file that is no MDU may be written. -/
theorem Holds.set_other (h : Holds dir m) {name : Str} (hname : parseMduIndex name = none)
    (hsmall : m ≤ 2 ^ 53) (data : Bytes) : Holds (dir.set name data) m where
  only := by
    intro other hother hparse
    by_cases hsame : other = name
    · rw [hsame, hname] at hparse
      cases hparse
    · rw [KVStore.get_set_ne _ hsame] at hother
      exact h.only other hother hparse
  all := by
    intro k hk
    have hne : mduName k ≠ name := by
      rintro rfl
      rw [parseMduIndex_mduName (by omega)] at hname
      cases hname
    rw [KVStore.get_set_ne _ hne]
    exact h.all k hk

/-- A file that is no MDU may be deleted. -/
theorem Holds.remove_other (h : Holds dir m) {name : Str} (hname : parseMduIndex name = none)
    (hsmall : m ≤ 2 ^ 53) : Holds (dir.remove name) m where
  only := by
    intro other hother hparse
    rw [KVStore.get_remove] at hother
    split at hother
    · cases hother
    · exact h.only other hother hparse
  all := by
    intro k hk
    have hne : mduName k ≠ name := by
      rintro rfl
      rw [parseMduIndex_mduName (by omega)] at hname
      cases hname
    rw [KVStore.get_remove, if_neg hne]
    exact h.all k hk

/-- Writing the MDUs of a slab, one after the other, under the names of their indexes. What has
another name stays. -/
theorem get_writeMdus (dir : DealDirectory) (mdus : List Bytes) :
    (∀ (k : Nat) (data : Bytes), mdus[k]? = some data →
      (mdus.zipIdx.foldl (fun dir e => writeMdu dir e.2 e.1) dir).get (mduName k) = some data) ∧
    ∀ name, (∀ k < mdus.length, name ≠ mduName k) →
      (mdus.zipIdx.foldl (fun dir e => writeMdu dir e.2 e.1) dir).get name = dir.get name := by
  -- by the MDUs; the last one is written last
  induction mdus using List.reverseRecOn with
  | nil => simp
  | append_singleton mdus last ih =>
      obtain ⟨hwritten, hother⟩ := ih
      rw [List.zipIdx_append, List.foldl_append]
      simp only [List.zipIdx_cons, List.zipIdx_nil, List.foldl_cons, List.foldl_nil,
        Nat.zero_add, writeMdu]
      constructor
      · intro k data hk
        -- the last one is asked for, or an earlier one
        by_cases hlast : k = mdus.length
        · subst hlast
          rw [KVStore.get_set_self]
          simpa using hk
        · have hlt : k < mdus.length := by
            have hbound := (List.getElem?_eq_some_iff.mp hk).1
            rw [List.length_append, List.length_singleton] at hbound
            omega
          rw [KVStore.get_set_ne _ fun heq => hlast (mduName_injective heq)]
          rw [List.getElem?_append_left hlt] at hk
          exact hwritten k data hk
      · intro name hname
        rw [List.length_append, List.length_singleton] at hname
        rw [KVStore.get_set_ne _ (hname _ (Nat.lt_succ_self _))]
        exact hother name fun k hk => hname k (by omega)

/-- A saved slab adds the MDUs that were not there. -/
theorem Holds.writeMdus (h : Holds dir m) (mdus : List Bytes) :
    Holds (mdus.zipIdx.foldl (fun dir e => writeMdu dir e.2 e.1) dir) (max mdus.length m) := by
  obtain ⟨hwritten, hother⟩ := get_writeMdus dir mdus
  constructor
  · intro name hname hparse
    by_cases hnew : ∃ k < mdus.length, name = mduName k
    · obtain ⟨k, hk, rfl⟩ := hnew
      exact ⟨k, by omega, rfl⟩
    · rw [hother name fun k hk heq => hnew ⟨k, hk, heq⟩] at hname
      obtain ⟨k, hk, rfl⟩ := h.only name hname hparse
      exact ⟨k, by omega, rfl⟩
  · intro k hk
    by_cases hnew : k < mdus.length
    · rw [hwritten k _ (List.getElem?_eq_getElem hnew)]
      rfl
    · rw [hother _ fun i hi heq => hnew (by rw [mduName_injective heq]; exact hi)]
      exact h.all k (by omega)

/-- The number of MDUs that are counted is the greatest number that was ever saved: the names up to
it are there, and no other name parses as an index. -/
theorem Holds.countP_eq (h : Holds dir m) (hsmall : m ≤ 2 ^ 53) :
    (listDealFiles dir).countP (fun name => (parseMduIndex name).isSome) = m := by
  have hnodup : (listDealFiles dir).Nodup := by
    rw [listDealFiles, List.Nodup, List.pairwise_map]
    exact dir.sorted.imp fun hlt => hlt.ne
  -- a listed name is one that is there
  have hmem : ∀ name, name ∈ listDealFiles dir ↔ (dir.get name).isSome := by
    intro name
    rw [listDealFiles, List.mem_map, Option.isSome_iff_exists]
    constructor
    · rintro ⟨e, he, rfl⟩
      exact ⟨e.2, KVStore.mem_entries.mp he⟩
    · rintro ⟨data, hdata⟩
      exact ⟨(name, data), KVStore.mem_entries.mpr hdata, rfl⟩
  -- so what is counted are the names of the indexes
  have hperm : ((listDealFiles dir).filter fun name => (parseMduIndex name).isSome).Perm
      ((List.range m).map mduName) := by
    refine (List.perm_ext_iff_of_nodup (hnodup.filter _) ?_).mpr ?_
    · exact (List.nodup_range).map mduName_injective
    · intro name
      rw [List.mem_filter, hmem, List.mem_map]
      constructor
      · rintro ⟨hname, hparse⟩
        obtain ⟨k, hk, rfl⟩ := h.only name hname hparse
        exact ⟨k, List.mem_range.mpr hk, rfl⟩
      · rintro ⟨k, hk, rfl⟩
        have hlt := List.mem_range.mp hk
        refine ⟨h.all k hlt, ?_⟩
        rw [parseMduIndex_mduName (by omega)]
        rfl
  rw [List.countP_eq_length_filter, hperm.length_eq, List.length_map, List.length_range]

end Holds

/-- A save of the page. -/
theorem Holds.persist {dir : DealDirectory} {m : Nat} (h : Holds dir m) (manifestRoot : Str)
    (manifestBlob : Option Bytes) {mdus : List Bytes} (shards : List SlabShard)
    (hsmall : max mdus.length m ≤ 2 ^ 53) :
    Holds (Website.persist dir manifestRoot manifestBlob mdus shards) (max mdus.length m) := by
  have hroot : Holds (writeManifestRoot dir manifestRoot) m :=
    h.set_other (parseMduIndex_noPrefix rfl) (by omega) _
  have hblob : Holds
      ((manifestBlob.map (writeManifestBlob (writeManifestRoot dir manifestRoot))).getD
      (writeManifestRoot dir manifestRoot)) m := by
    cases manifestBlob with
    | none => exact hroot
    | some blob => exact hroot.set_other (parseMduIndex_noPrefix rfl) (by omega) _
  have hmdus := hblob.writeMdus mdus
  unfold Website.persist
  simp only
  induction shards using List.reverseRecOn with
  | nil => exact hmdus
  | append_singleton shards s ih =>
      rw [List.foldl_append]
      exact ih.set_other (parseMduIndex_shard s.slabIndex s.slot) hsmall _

/-- Every run. A slab has fewer MDUs than there are numbers, so no index is rounded by the
parser. -/
theorem holds_run (sha256 : Bytes → Bytes) (es : List DirEvent) (hsmall : mostMdus es ≤ 2 ^ 53) :
    Holds (run (DirEvent.apply sha256) .empty es) (mostMdus es) := by
  -- by the run; only a save adds MDUs, and nothing removes them
  induction es using List.reverseRecOn with
  | nil => exact ⟨by simp, by simp [mostMdus]⟩
  | append_singleton es e ih =>
      rw [mostMdus_append] at hsmall ⊢
      rw [run_snoc]
      have hbefore := ih (by omega)
      cases e with
      | persist manifestRoot manifestBlob mdus shards =>
          have hmost : max (mostMdus es)
              (mostMdus [.persist manifestRoot manifestBlob mdus shards]) =
              max mdus.length (mostMdus es) := by
            simp only [mostMdus]
            omega
          rw [hmost] at hsmall ⊢
          exact hbefore.persist manifestRoot manifestBlob shards hsmall
      | writeCachedFile filePath data =>
          have hmost : max (mostMdus es) (mostMdus [.writeCachedFile filePath data]) =
              mostMdus es := by
            simp [mostMdus]
          rw [hmost] at hsmall ⊢
          exact hbefore.set_other (parseMduIndex_noPrefix rfl) hsmall data
      | deleteCachedFile filePath =>
          have hmost : max (mostMdus es) (mostMdus [.deleteCachedFile filePath]) = mostMdus es := by
            simp [mostMdus]
          rw [hmost] at hsmall ⊢
          exact hbefore.remove_other (parseMduIndex_noPrefix rfl) hsmall

/-! ### What is inferred -/

/-- The MDUs that the files of a list take up. -/
def userMdus (files : List NilfsFileEntry) : Nat :=
  (inferMaxEnd files + mduPayloadBytes - 1) / mduPayloadBytes

/-- The layout for a number of MDUs, where they are enough. -/
theorem inferred_of_holds {dir : DealDirectory} {m : Nat} (h : Holds dir m) (hsmall : m ≤ 2 ^ 53)
    (files : List NilfsFileEntry) (hroom : 1 + userMdus files ≤ m) :
    inferWitnessCountFromOpfs dir files = .ok
      ⟨m - 1 - userMdus files, 1 + (m - 1 - userMdus files), m, userMdus files,
        inferMaxEnd files⟩ := by
  have hwitness : ((m : Int) - 1 - userMdus files).toNat = m - 1 - userMdus files := by omega
  unfold inferWitnessCountFromOpfs
  simp only [h.countP_eq hsmall]
  refine except_bind_ok.mpr ⟨(), rejectIf_eq_ok.mpr (by omega), ?_⟩
  refine except_bind_ok.mpr ⟨(), rejectIf_eq_ok.mpr ?_, ?_⟩
  · show ¬((m : Int) - 1 - userMdus files < 0)
    omega
  · show Except.ok _ = _
    rw [← hwitness]
    rfl

/-- The page has not saved a slab. -/
def DirEvent.NoSave (e : DirEvent) : Prop :=
  ∀ manifestRoot manifestBlob mdus shards, e ≠ .persist manifestRoot manifestBlob mdus shards

/-- A history without a save has saved no MDUs. -/
theorem mostMdus_of_noSave {es : List DirEvent} (h : ∀ e ∈ es, e.NoSave) : mostMdus es = 0 := by
  induction es with
  | nil => rfl
  | cons e es ih =>
      have hrest := ih fun e he => h e (List.mem_cons_of_mem _ he)
      cases e with
      | persist manifestRoot manifestBlob mdus shards =>
        exact absurd rfl (h _ List.mem_cons_self _ _ _ _)
      | writeCachedFile filePath data => exact hrest
      | deleteCachedFile filePath => exact hrest

/-- Cached files are no MDUs: their names are hashes with a prefix of their own, and no index. -/
theorem readMdu_of_noSave {sha256 : Bytes → Bytes} {es : List DirEvent} (h : ∀ e ∈ es, e.NoSave)
    {dir : DealDirectory} {k : Nat} (hk : k < 2 ^ 53) :
    readMdu (run (DirEvent.apply sha256) dir es) k = readMdu dir k := by
  have hne : ∀ filePath, mduName k ≠ cachedFileNameForPath sha256 filePath := by
    intro filePath heq
    have hparse := parseMduIndex_mduName hk
    rw [heq, parseMduIndex_noPrefix rfl] at hparse
    cases hparse
  -- by the run without saves
  induction es using List.reverseRecOn with
  | nil => rfl
  | append_singleton es e ih =>
      have hrest := ih fun e he => h e (List.mem_append_left _ he)
      rw [run_snoc]
      cases e with
      | persist manifestRoot manifestBlob mdus shards =>
          exact absurd rfl
            (h (.persist manifestRoot manifestBlob mdus shards) (by simp) _ _ _ _)
      | writeCachedFile filePath data =>
          rw [← hrest]
          exact KVStore.get_set_ne _ (hne filePath) data
      | deleteCachedFile filePath =>
          rw [← hrest]
          show (KVStore.remove _ _).get _ = _
          rw [KVStore.get_remove, if_neg (hne filePath)]
          rfl

/-- A saved MDU is read back. -/
theorem readMdu_persist {dir : DealDirectory} {manifestRoot : Str} {manifestBlob : Option Bytes}
    {mdus : List Bytes} {shards : List SlabShard} {k : Nat} {data : Bytes} (hk : k < 2 ^ 53)
    (hdata : mdus[k]? = some data) :
    readMdu (Website.persist dir manifestRoot manifestBlob mdus shards) k = some data := by
  unfold Website.persist
  simp only
  induction shards using List.reverseRecOn with
  | nil => exact (get_writeMdus _ mdus).1 k data hdata
  | append_singleton shards s ih =>
      rw [List.foldl_append]
      refine (KVStore.get_set_ne _ ?_ s.data).trans ih
      intro heq
      have hparse := parseMduIndex_mduName hk
      rw [heq, parseMduIndex_shard] at hparse
      cases hparse

section Saved

variable {sha256 : Bytes → Bytes} {past rest : List DirEvent} {manifestRoot : Str}
  {manifestBlob : Option Bytes} {mdus : List Bytes} {shards : List SlabShard}

/-- The MDUs of the last slab are read back. -/
theorem readMdu_saved (hsmall : mdus.length ≤ 2 ^ 53) (hrest : ∀ e ∈ rest, e.NoSave) {k : Nat}
    {data : Bytes} (hdata : mdus[k]? = some data) :
    readMdu (run (DirEvent.apply sha256) .empty
      (past ++ .persist manifestRoot manifestBlob mdus shards :: rest)) k = some data := by
  have hlt := (List.getElem?_eq_some_iff.mp hdata).1
  rw [run_append, run_cons, readMdu_of_noSave hrest (by omega)]
  exact readMdu_persist (by omega) hdata

/-- The MDUs that are counted for the last slab. -/
theorem inferred_saved (hsmall : mostMdus past ≤ 2 ^ 53 ∧ mdus.length ≤ 2 ^ 53)
    (hrest : ∀ e ∈ rest, e.NoSave) {files : List NilfsFileEntry} {w : Nat}
    (hslab : mdus.length = 1 + w + userMdus files) :
    inferWitnessCountFromOpfs (run (DirEvent.apply sha256) .empty
        (past ++ .persist manifestRoot manifestBlob mdus shards :: rest)) files = .ok
      ⟨w + (mostMdus past - mdus.length), 1 + (w + (mostMdus past - mdus.length)),
        max (mostMdus past) mdus.length, userMdus files, inferMaxEnd files⟩ := by
  have hmost : mostMdus (past ++ .persist manifestRoot manifestBlob mdus shards :: rest) =
      max (mostMdus past) mdus.length := by
    rw [mostMdus_append, mostMdus, mostMdus_of_noSave hrest, Nat.max_zero]
  have hholds := holds_run sha256 (past ++ .persist manifestRoot manifestBlob mdus shards :: rest)
    (by omega)
  rw [hmost] at hholds
  have hwitness : max (mostMdus past) mdus.length - 1 - userMdus files =
      w + (mostMdus past - mdus.length) := by omega
  rw [inferred_of_holds hholds (by omega) files (by omega), hwitness]

end Saved

/-- After every run in which the last saved slab has `w` witness MDUs and the user MDUs of its
files, each of its MDUs is read back. The inferred number of witness MDUs is greater than `w` by the
MDUs that a larger slab has left behind, so it is right exactly when no slab before was larger. -/
theorem inferred_layout (sha256 : Bytes → Bytes) (past rest : List DirEvent) (manifestRoot : Str)
    (manifestBlob : Option Bytes) (mdus : List Bytes) (shards : List SlabShard)
    (hsmall : mostMdus past ≤ 2 ^ 53 ∧ mdus.length ≤ 2 ^ 53) (hrest : ∀ e ∈ rest, e.NoSave)
    (files : List NilfsFileEntry) (w : Nat) (hslab : mdus.length = 1 + w + userMdus files) :
    let dir := run (DirEvent.apply sha256) .empty
      (past ++ .persist manifestRoot manifestBlob mdus shards :: rest)
    (∀ k data, mdus[k]? = some data → readMdu dir k = some data) ∧
      inferWitnessCountFromOpfs dir files = .ok
        ⟨w + (mostMdus past - mdus.length), 1 + (w + (mostMdus past - mdus.length)),
          max (mostMdus past) mdus.length, userMdus files, inferMaxEnd files⟩ ∧
      ((∃ layout, inferWitnessCountFromOpfs dir files = .ok layout ∧ layout.witnessCount = w) ↔
        mostMdus past ≤ mdus.length) := by
  intro dir
  have hinferred : inferWitnessCountFromOpfs dir files = .ok _ := inferred_saved hsmall hrest hslab
  refine ⟨fun k data hk => readMdu_saved hsmall.2 hrest hk, hinferred, ?_⟩
  rw [hinferred]
  -- the surplus is 0 when the number is right, and conversely
  constructor
  · rintro ⟨layout, hlayout, hw⟩
    rw [← Except.ok.inj hlayout] at hw
    simp only at hw
    omega
  · intro hle
    exact ⟨_, rfl, by simp only; omega⟩

/-- A slab of three MDUs is saved over one of four. -/
theorem inferred_layout_smaller :
    let dir := run (DirEvent.apply id) .empty
      ([.persist [] none [[0], [1], [2], [3]] []] ++ .persist [] none [[4], [5], [6]] [] :: [])
    (∀ k data, [[4], [5], [6]][k]? = some data → readMdu dir k = some data) ∧
      inferWitnessCountFromOpfs dir [⟨"a".toList, 40, 0, 0⟩] = .ok ⟨2, 3, 4, 1, 40⟩ ∧
      ((∃ layout, inferWitnessCountFromOpfs dir [⟨"a".toList, 40, 0, 0⟩] = .ok layout ∧
          layout.witnessCount = 1) ↔ 4 ≤ 3) :=
  inferred_layout id [.persist [] none [[0], [1], [2], [3]] []] [] [] none [[4], [5],
    [6]] [] (by decide)
    (by simp) [⟨"a".toList, 40, 0, 0⟩] 1 (by decide)

end NilStore.Website
