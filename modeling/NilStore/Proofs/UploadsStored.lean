import NilStore.Gateway.SpUploads
import NilStore.Lib.Decimal

/-!
# `NilStore.Proofs.UploadsStored`: what an acknowledged upload has stored

An artifact is an MDU, a shard or the manifest of a deal and a manifest root, and reads use one file
for each. The names of these files are distinct (`Artifact.path_injective`), and a temporary file
has none of them. `storeUpload_cases` lists what a request can do to the files. The answer 200 comes
in two ways: the body was stored, or a file of the right size was there before, whatever its bytes.
An index goes into the name as the client wrote it, while reads write the number.
-/

set_option autoImplicit false

namespace NilStore.Gateway

open NilStore.Lib NilStore.Core

/-! ### Artifacts -/

/-- What a provider stores of a slab. -/
inductive ArtifactKind where
  | mdu (index : UInt64)
  | shard (index slot : UInt64)
  | manifest
deriving DecidableEq

/-- The name that reads use: `mdu_%d.bin`, `mdu_%d_slot_%d.bin` or `manifest.bin`. -/
def ArtifactKind.name : ArtifactKind → Str
  | .mdu index => "mdu_".toList ++ decimal index.toNat ++ ".bin".toList
  | .shard index slot =>
      "mdu_".toList ++ decimal index.toNat ++ "_slot_".toList ++ decimal slot.toNat ++ ".bin".toList
  | .manifest => "manifest.bin".toList

/-- An artifact of a deal and a manifest root. -/
structure Artifact where
  dealId : UInt64
  key : Str
  kind : ArtifactKind
deriving DecidableEq

/-- The file that reads use for the artifact. -/
def Artifact.path (uploadDir : Path) (art : Artifact) : Path :=
  dealScopedDir uploadDir art.dealId art.key ++ [art.kind.name]

/-- The kind of artifact that the headers name. -/
def Upload.kind (a : Upload) : Option ArtifactKind :=
  match a.endpoint with
  | .mdu => (parseUint (trimSpace a.req.mduIndex)).map .mdu
  | .shard => do
      let index ← parseUint (trimSpace a.req.mduIndex)
      let slot ← parseUint (trimSpace a.req.slot)
      return .shard index slot
  | .manifest => some .manifest

/-- The artifact that the headers name. -/
def Upload.artifact (normalizeG1 : Bytes → Option Bytes) (a : Upload) : Option Artifact := do
  let dealId ← parseUint (trimSpace a.req.dealId)
  let key ← parseManifestRoot normalizeG1 (trimSpace a.req.manifestRoot)
  let kind ← a.kind
  return ⟨dealId, key, kind⟩

/-! ### Names -/

/-- Different numbers have different digits. -/
theorem decimal_toNat_injective {i j : UInt64} (h : decimal i.toNat = decimal j.toNat) : i = j :=
  UInt64.toNat_inj.mp (Int.ofNat_inj.mp (decimal_injective h))

/-- The name of an MDU. -/
theorem ArtifactKind.name_mdu (i : UInt64) :
    (ArtifactKind.mdu i).name = "mdu_".toList ++ decimal i.toNat ++ ".bin".toList := rfl

/-- The name of a shard. -/
theorem ArtifactKind.name_shard (i slot : UInt64) : (ArtifactKind.shard i slot).name =
    "mdu_".toList ++ decimal i.toNat ++ "_slot_".toList ++ decimal slot.toNat ++ ".bin".toList :=
      rfl

/-- The name of an MDU, with the digits of its index in any form. -/
theorem mduName_eq {s : Str} (hs : ∀ c ∈ s, c.isDigit = true) {kind : ArtifactKind}
    (h : "mdu_".toList ++ s ++ ".bin".toList = kind.name) :
      ∃ i, kind = .mdu i ∧ s = decimal i.toNat := by
  cases kind with
  | mdu i =>
      rw [ArtifactKind.name_mdu, List.append_assoc, List.append_assoc] at h
      exact ⟨i, rfl, (digits_append_cons_inj hs (fun c hc => isDigit_of_mem_decimal hc) rfl rfl
        (List.append_cancel_left h)).1⟩
  | shard i slot =>
      rw [ArtifactKind.name_shard, List.append_assoc, List.append_assoc, List.append_assoc,
        List.append_assoc] at h
      have htail := (digits_append_cons_inj hs (fun c hc => isDigit_of_mem_decimal hc) rfl rfl
        (List.append_cancel_left h)).2
      exact absurd (List.head_eq_of_cons_eq htail) (by decide)
  | manifest =>
      have hchar : some 'd' = some 'a' := congrArg (fun name : Str => name[1]?) h
      exact absurd hchar (by decide)

/-- The name of a shard, with the digits of its index in any form. The digits end where the next
part of the name begins. -/
theorem shardName_eq {s : Str} (hs : ∀ c ∈ s, c.isDigit = true) {slot : UInt64}
    {kind : ArtifactKind}
    (h : "mdu_".toList ++ s ++ "_slot_".toList ++ decimal slot.toNat ++ ".bin".toList = kind.name) :
    ∃ i, kind = .shard i slot ∧ s = decimal i.toNat := by
  rw [List.append_assoc, List.append_assoc, List.append_assoc] at h
  -- by the kind of the artifact that has the name
  cases kind with
  | mdu i =>
      rw [ArtifactKind.name_mdu, List.append_assoc] at h
      have htail := (digits_append_cons_inj hs (fun c hc => isDigit_of_mem_decimal hc) rfl rfl
        (List.append_cancel_left h)).2
      exact absurd (List.head_eq_of_cons_eq htail) (by decide)
  | shard i slot' =>
      rw [ArtifactKind.name_shard, List.append_assoc, List.append_assoc, List.append_assoc] at h
      obtain ⟨hindex, htail⟩ :=
        digits_append_cons_inj hs (fun c hc => isDigit_of_mem_decimal hc) rfl rfl
        (List.append_cancel_left h)
      -- what follows the index starts with the same text
      have hslot := (digits_append_cons_inj (fun c hc => isDigit_of_mem_decimal hc)
        (fun c hc => isDigit_of_mem_decimal hc) rfl rfl
        (@List.append_cancel_left _ "_slot_".toList _ _ htail)).1
      exact ⟨i, by rw [decimal_toNat_injective hslot], hindex⟩
  | manifest =>
      have hchar : some 'd' = some 'a' := congrArg (fun name : Str => name[1]?) h
      exact absurd hchar (by decide)

/-- Different artifacts of a slab have different names. -/
theorem ArtifactKind.name_injective : Function.Injective ArtifactKind.name := by
  intro kind kind' h
  cases kind with
  | mdu i =>
      obtain ⟨j, rfl, hdec⟩ := mduName_eq (fun c hc => isDigit_of_mem_decimal hc) h
      rw [decimal_toNat_injective hdec]
  | shard i slot =>
      obtain ⟨j, rfl, hdec⟩ := shardName_eq (fun c hc => isDigit_of_mem_decimal hc) h
      rw [decimal_toNat_injective hdec]
  | manifest =>
      cases kind' with
      | mdu i =>
          obtain ⟨_, hkind, -⟩ := mduName_eq (fun c hc => isDigit_of_mem_decimal hc) h.symm
          cases hkind
      | shard i slot =>
          obtain ⟨_, hkind, -⟩ := shardName_eq (fun c hc => isDigit_of_mem_decimal hc) h.symm
          cases hkind
      | manifest => rfl

/-- The path of a file in the directory of a slab. -/
theorem dealScopedDir_append (uploadDir : Path) (dealId : UInt64) (key name : Str) :
    dealScopedDir uploadDir dealId key ++ [name] =
      uploadDir ++ ["deals".toList, decimal dealId.toNat, key, name] := by
  rw [dealScopedDir, List.append_assoc]
  rfl

/-- No two artifacts share a file. -/
theorem Artifact.path_injective (uploadDir : Path) :
    Function.Injective (Artifact.path uploadDir) := by
  intro a b h
  rw [Artifact.path, Artifact.path, dealScopedDir_append, dealScopedDir_append] at h
  have hparts := List.append_cancel_left h
  rw [List.cons.injEq, List.cons.injEq, List.cons.injEq, List.cons.injEq] at hparts
  obtain ⟨-, hdeal, hkey, hname, -⟩ := hparts
  cases a
  cases b
  simp only at hdeal hkey hname
  rw [decimal_toNat_injective hdeal, hkey, ArtifactKind.name_injective hname]

/-- A file whose name is not that of an artifact is not one's file. -/
theorem Artifact.path_ne {uploadDir : Path} {art : Artifact} {dealId : UInt64} {key name : Str}
    (h : art.kind.name ≠ name) :
      art.path uploadDir ≠ dealScopedDir uploadDir dealId key ++ [name] := by
  intro heq
  exact h (List.append_inj_right' heq rfl |> List.head_eq_of_cons_eq)

/-- The name of an artifact ends in `n`. -/
theorem ArtifactKind.getLast?_name (kind : ArtifactKind) : kind.name.getLast? = some 'n' := by
  cases kind with
  | mdu i => rw [ArtifactKind.name_mdu, List.getLast?_append]; rfl
  | shard i slot => rw [ArtifactKind.name_shard, List.getLast?_append]; rfl
  | manifest => rfl

/-- A temporary name ends in a digit. -/
theorem tempName_ne (kind : ArtifactKind) (filename : Str) (random : UInt32) :
    kind.name ≠ tempName filename random := by
  intro h
  have hlast := kind.getLast?_name
  rw [h, tempName, List.getLast?_append, List.getLast?_eq_some_getLast (decimal_ne_nil _),
    Option.some_or, Option.some_inj] at hlast
  have hdigit := isDigit_of_mem_decimal (List.getLast_mem (decimal_ne_nil random.toNat))
  rw [hlast] at hdigit
  cases hdigit

/-! ### What a request does to the files -/

section

variable (normalizeG1 : Bytes → Option Bytes) (uploadDir : Path)

/-- Every artifact has the file that it had. -/
def SameArtifacts (t t' : FileTree) : Prop :=
  ∀ art : Artifact, t'.get (art.path uploadDir) = t.get (art.path uploadDir)

/-- A file that counts as the upload is there. -/
def PendingUpload.Present (u : PendingUpload) (t : FileTree) : Prop :=
  (t.fileSize (u.path uploadDir)).any u.present = true

instance (u : PendingUpload) (t : FileTree) : Decidable (u.Present uploadDir t) :=
  inferInstanceAs (Decidable (_ = true))

/-- Nothing is in the way of the body. -/
structure PendingUpload.Storable (u : PendingUpload) (random : Option UInt32) (body : Bytes)
    (t : FileTree) : Prop where
  plain : '/' ∉ u.filename
  fresh : ∃ n, random = some n ∧ t.get (u.dir uploadDir ++ [tempName u.filename n]) = none
  fits : body.length ≤ u.limit
  accepted : u.accepts body.length = true
  free : t.get (u.dir uploadDir ++ [u.filename]) ≠ some .dir

variable {normalizeG1 uploadDir} {u : PendingUpload} {random : Option UInt32} {body : Bytes}
    {t t' t₁ : FileTree}

/-- A file does not lie above its directory. -/
theorem not_prefix_append (p : Path) (name : Str) : ¬p ++ [name] <+: p := by
  intro h
  have := h.length_le
  rw [List.length_append, List.length_singleton] at this
  omega

/-- An artifact's file is not above a slab directory. -/
theorem Artifact.not_prefix (art : Artifact) : ¬art.path uploadDir <+: u.dir uploadDir := by
  intro h
  have := h.length_le
  rw [Artifact.path, PendingUpload.dir, dealScopedDir, dealScopedDir] at this
  simp only [List.length_append, List.length_cons, List.length_nil] at this
  omega

/-- Making the directories changes no artifact. -/
theorem sameArtifacts_mkdirAll (h : t.mkdirAll (u.dir uploadDir) = some t₁) :
    SameArtifacts uploadDir t t₁ :=
  fun art => (FileTree.get_mkdirAll_of_some h).2.1 _ fun hpre => art.not_prefix hpre.1

/-- Steps that change no artifact compose. -/
theorem SameArtifacts.trans {t₂ : FileTree} (h : SameArtifacts uploadDir t t₁)
    (h' : SameArtifacts uploadDir t₁ t₂) :
    SameArtifacts uploadDir t t₂ := fun art => (h' art).trans (h art)

/-- What copying the body does: it writes up to the limit, and then judges the length. -/
theorem exec_copyBody (u : PendingUpload) (tmpPath : Path) (body : Bytes) (t : FileTree) :
    (copyBody u tmpPath body).exec t =
      (if u.limit < body.length then .error ⟨500, "failed to write file"⟩
       else if u.accepts body.length = false then .error ⟨400, u.sizeError body.length⟩
       else .ok (), t.set tmpPath (.file (body.take u.limit))) := by
  rw [copyBody, Tx.exec_update_bind, Tx.exec_bind, Tx.exec_failIf]
  by_cases hlimit : u.limit < body.length
  · rw [if_pos hlimit, if_pos hlimit]
  · rw [if_neg hlimit, if_neg hlimit]
    exact Tx.exec_failIf _ _ _

/-- A body that is not stored leaves nothing. The temporary file is removed on every way out. -/
theorem exec_storeTemp_error {tmpPath path : Path} (hne : path ≠ tmpPath)
    (habsent : (t.fileSize path).any u.present = false)
    (h : ¬(body.length ≤ u.limit ∧ u.accepts body.length = true ∧ t.get path ≠ some .dir)) :
    ∃ e, (removeUnlessCommitted tmpPath do
        copyBody u tmpPath body
        commitUpload u tmpPath path).exec t =
      (.error e, (t.set tmpPath (.file (body.take u.limit))).remove tmpPath) := by
  rw [Tx.exec, removeUnlessCommitted, Tx.exec_bind, exec_copyBody]
  -- too long, of a size that is not accepted, or onto a directory
  by_cases hlimit : u.limit < body.length
  · rw [if_pos hlimit]
    exact ⟨_, rfl⟩
  · rw [if_neg hlimit]
    by_cases haccepts : u.accepts body.length = false
    · rw [if_pos haccepts]
      exact ⟨_, rfl⟩
    · have hdir : t.get path = some .dir := by
        by_contra hfree
        exact h ⟨not_lt.mp hlimit, Bool.not_eq_false _ ▸ haccepts, hfree⟩
      -- the rename fails, and the file is not there either
      have hrename : FileTree.rename (t.set tmpPath (.file (body.take u.limit))) tmpPath path =
          none := by
        rw [FileTree.rename, KVStore.get_set_self]
        exact if_pos (Or.inl (by rw [KVStore.get_set_ne t hne, hdir]))
      have hsize : FileTree.fileSize (t.set tmpPath (.file (body.take u.limit))) path =
          t.fileSize path := by
        rw [FileTree.fileSize, FileTree.fileSize, KVStore.get_set_ne t hne]
      rw [if_neg haccepts]
      simp only [Tx.exec, commitUpload, hrename, hsize, habsent, Bool.false_eq_true, if_false]
      exact ⟨_, rfl⟩

/-- A body that is stored takes its place in one step. -/
theorem exec_storeTemp_ok {tmpPath path : Path} (hne : path ≠ tmpPath)
    (hparent : path.dropLast ≠ tmpPath) (hdir : t.isDir path.dropLast = true)
    (h : body.length ≤ u.limit ∧ u.accepts body.length = true ∧ t.get path ≠ some .dir) :
    (removeUnlessCommitted tmpPath do
        copyBody u tmpPath body
        commitUpload u tmpPath path).exec t =
      (.ok .statusOk, ((t.set tmpPath (.file body)).remove tmpPath).set path (.file body)) := by
  obtain ⟨hlimit, haccepts, hfree⟩ := h
  have hrename : FileTree.rename (t.set tmpPath (.file body)) tmpPath path =
      some (((t.set tmpPath (.file body)).remove tmpPath).set path (.file body)) := by
    rw [FileTree.rename, KVStore.get_set_self]
    refine if_neg (not_or.mpr ⟨?_, ?_⟩)
    · rw [KVStore.get_set_ne t hne]
      exact hfree
    · rw [FileTree.isDir, KVStore.get_set_ne t hparent, ← FileTree.isDir, hdir]
      decide
  rw [Tx.exec, removeUnlessCommitted, Tx.exec_bind, exec_copyBody, if_neg (not_lt.mpr hlimit),
    if_neg (by rw [haccepts]; decide), List.take_of_length_le hlimit]
  simp only [Tx.exec, commitUpload, hrename]

/-- Without a fresh name in the directory the temporary file is not made. -/
theorem exec_createTemp_error {dir : Path} {filename : Str}
    (h : ¬('/' ∉ filename ∧ ∃ n, random = some n ∧ t.get (dir ++ [tempName filename n]) = none)) :
    ∃ e, (createTemp dir filename random).exec t = (.error e, t) := by
  rw [createTemp, Tx.exec_bind, Tx.exec_failIf]
  by_cases hslash : '/' ∈ filename
  · rw [if_pos hslash]
    exact ⟨_, rfl⟩
  · rw [if_neg hslash]
    cases hrandom : random with
    | none => exact ⟨_, rfl⟩
    | some n =>
        have htaken : (t.get (dir ++ [tempName filename n])).isSome = true := by
          rw [← Option.ne_none_iff_isSome]
          exact fun hnone => h ⟨hslash, n, hrandom, hnone⟩
        refine ⟨⟨500, "failed to create temp file"⟩,
          Tx.exec_bind_error.mpr (Or.inr ⟨n, t, rfl, ?_⟩)⟩
        exact Tx.exec_bind_error.mpr (Or.inl (Tx.exec_updateOr_error.mpr ⟨if_pos htaken, rfl, rfl⟩))

/-- With a fresh name it is, empty. -/
theorem exec_createTemp_ok {dir : Path} {filename : Str} {n : UInt32} (hplain : '/' ∉ filename)
    (hfresh : t.get (dir ++ [tempName filename n]) = none) (hdir : t.isDir dir = true) :
    (createTemp dir filename (some n)).exec t =
      (.ok (dir ++ [tempName filename n]), t.set (dir ++ [tempName filename n]) (.file [])) := by
  have hwrite : t.writeFile (dir ++ [tempName filename n]) [] =
      some (t.set (dir ++ [tempName filename n]) (.file [])) := by
    refine if_neg (not_or.mpr ⟨by rw [hfresh]; nofun, ?_⟩)
    rw [List.dropLast_concat, hdir]
    decide
  rw [createTemp, Tx.exec_bind, Tx.exec_failIf, if_neg hplain]
  refine Tx.exec_bind_ok.mpr ⟨n, t, rfl,
    Tx.exec_bind_ok.mpr ⟨(), _, Tx.exec_updateOr_ok.mpr ?_, rfl⟩⟩
  rw [hfresh]
  exact hwrite

/-- What the handlers do when no file counts as the upload. -/
def storeFresh (uploadDir : Path) (random : Option UInt32) (body : Bytes) (u : PendingUpload) :
    Tx FileTree PlainError UploadReply := do
  let tmpPath ← createTemp (u.dir uploadDir) u.filename random
  removeUnlessCommitted tmpPath do
    copyBody u tmpPath body
    commitUpload u tmpPath (u.path uploadDir)

/-- A plain name lies right in the directory. -/
theorem PendingUpload.path_of_plain (hname : u.filename.head? = some 'm')
    (hplain : '/' ∉ u.filename) :
    u.path uploadDir = u.dir uploadDir ++ [u.filename] := by
  refine FileTree.join_of_not_mem hplain ?_ ?_ ?_
  · intro h
    rw [h] at hname
    cases hname
  · intro h
    rw [h] at hname
    exact absurd hname (by decide)
  · intro h
    rw [h] at hname
    exact absurd hname (by decide)

/-- The temporary file is not the file itself. -/
theorem filename_ne_tempName (p : Path) (filename : Str) (n : UInt32) :
    p ++ [filename] ≠ p ++ [tempName filename n] := by
  intro h
  have hlen := congrArg List.length (List.head_eq_of_cons_eq (List.append_cancel_left h))
  have hmark : ".tmp-".toList.length = 5 := rfl
  rw [tempName, List.length_append, List.length_append, hmark] at hlen
  omega

/-- In the slab directory the body is stored, or no artifact changes. A temporary name is the name
of no artifact, so what is written there is not seen. -/
theorem storeFresh_cases (hname : u.filename.head? = some 'm')
    (hdir : t.isDir (u.dir uploadDir) = true) (habsent : ¬u.Present uploadDir t) :
    (u.Storable uploadDir random body t ∧ ∃ t', (storeFresh uploadDir random body u).exec t =
      (.ok .statusOk, t') ∧
      t'.get (u.dir uploadDir ++ [u.filename]) = some (.file body) ∧
      ∀ art : Artifact, art.path uploadDir ≠ u.dir uploadDir ++ [u.filename] →
        t'.get (art.path uploadDir) = t.get (art.path uploadDir)) ∨
    (¬u.Storable uploadDir random body t ∧ ∃ e t',
      (storeFresh uploadDir random body u).exec t = (.error e, t') ∧
        SameArtifacts uploadDir t t') := by
  -- a temporary file can be made, or nothing is written at all
  by_cases htemp : '/' ∉ u.filename ∧
      ∃ n, random = some n ∧ t.get (u.dir uploadDir ++ [tempName u.filename n]) = none
  · obtain ⟨hplain, n, rfl, hfresh⟩ := htemp
    have hpath : u.path uploadDir = u.dir uploadDir ++ [u.filename] :=
      PendingUpload.path_of_plain hname hplain
    rw [storeFresh, Tx.exec_bind, exec_createTemp_ok hplain hfresh hdir]
    simp only [hpath]
    have hne := filename_ne_tempName (u.dir uploadDir) u.filename n
    have hdirne : u.dir uploadDir ≠ u.dir uploadDir ++ [tempName u.filename n] := by simp
    have htmpne : ∀ art : Artifact, art.path uploadDir ≠
        u.dir uploadDir ++ [tempName u.filename n] :=
      fun art => Artifact.path_ne (tempName_ne _ _ _)
    generalize htmp : u.dir uploadDir ++ [tempName u.filename n] = tmpPath at *
    -- the other names are as they were
    have hget : ∀ q, q ≠ tmpPath → KVStore.get (t.set tmpPath (.file [])) q = t.get q :=
      fun q hq => KVStore.get_set_ne t hq _
    -- the body is stored, or the temporary file is removed
    by_cases hstored : body.length ≤ u.limit ∧ u.accepts body.length = true ∧
        t.get (u.dir uploadDir ++ [u.filename]) ≠ some .dir
    · left
      refine ⟨⟨hplain, ⟨n, rfl, htmp ▸ hfresh⟩, hstored.1, hstored.2.1, hstored.2.2⟩,
        (((t.set tmpPath (.file [])).set tmpPath (.file body)).remove tmpPath).set
          (u.dir uploadDir ++ [u.filename]) (.file body), ?_⟩
      rw [← hget _ hne] at hstored
      rw [exec_storeTemp_ok hne (by rw [List.dropLast_concat]; exact hdirne) ?_ hstored]
      · refine ⟨rfl, KVStore.get_set_self _ _ _, fun art hart => ?_⟩
        rw [KVStore.get_set_ne _ hart, KVStore.get_remove_ne _ (htmpne art),
          KVStore.get_set_ne _ (htmpne art), hget _ (htmpne art)]
      · rw [List.dropLast_concat, FileTree.isDir, hget _ hdirne, ← FileTree.isDir]
        exact hdir
    · right
      refine ⟨fun h => hstored ⟨h.fits, h.accepted, h.free⟩, ?_⟩
      rw [← hget _ hne] at hstored
      obtain ⟨e, he⟩ := exec_storeTemp_error hne (by
        rw [FileTree.fileSize, hget _ hne, ← FileTree.fileSize, ← hpath]
        exact Bool.not_eq_true _ ▸ habsent) hstored
      refine ⟨e, _, he, fun art => ?_⟩
      rw [KVStore.get_remove_ne _ (htmpne art), KVStore.get_set_ne _ (htmpne art),
        hget _ (htmpne art)]
  · obtain ⟨e, he⟩ := exec_createTemp_error htemp
    refine Or.inr ⟨fun h => htemp ⟨h.plain, h.fresh⟩, e, t, ?_, fun _ => rfl⟩
    rw [storeFresh, Tx.exec_bind, he]

/-- Making the directory first does not decide whether the upload can be stored. -/
theorem storable_mkdirAll (h : t.mkdirAll (u.dir uploadDir) = some t₁) :
    u.Storable uploadDir random body t₁ ↔ u.Storable uploadDir random body t := by
  -- in the slab directory nothing is new
  have hsame : ∀ name : Str, t₁.get (u.dir uploadDir ++ [name]) =
      t.get (u.dir uploadDir ++ [name]) :=
    fun name => (FileTree.get_mkdirAll_of_some h).2.1 _ fun hpre => not_prefix_append _ _ hpre.1
  constructor
  · rintro ⟨hplain, ⟨n, hn, hfresh⟩, hfits, haccepted, hfree⟩
    exact ⟨hplain, ⟨n, hn, hsame _ ▸ hfresh⟩, hfits, haccepted, hsame _ ▸ hfree⟩
  · rintro ⟨hplain, ⟨n, hn, hfresh⟩, hfits, haccepted, hfree⟩
    exact ⟨hplain, ⟨n, hn, (hsame _).trans hfresh⟩, hfits, haccepted, fun hdir =>
      hfree ((hsame _).symm.trans hdir)⟩

/-- Every request from the slab directory on ends in one of three ways. Making the directory changes
no artifact. -/
theorem storeUpload_cases (random : Option UInt32) (body : Bytes) (t : FileTree)
    (hname : u.filename.head? = some 'm') :
    (∃ t₁, t.mkdirAll (u.dir uploadDir) = some t₁ ∧ u.Present uploadDir t ∧
      (storeUpload uploadDir random body u).exec t = (.ok .statusOk, t₁)) ∨
    ((t.mkdirAll (u.dir uploadDir)).isSome ∧ ¬u.Present uploadDir t ∧
      u.Storable uploadDir random body t ∧
      ∃ t', (storeUpload uploadDir random body u).exec t = (.ok .statusOk, t') ∧
        t'.get (u.dir uploadDir ++ [u.filename]) = some (.file body) ∧
        ∀ art : Artifact, art.path uploadDir ≠ u.dir uploadDir ++ [u.filename] →
          t'.get (art.path uploadDir) = t.get (art.path uploadDir)) ∨
    (¬((t.mkdirAll (u.dir uploadDir)).isSome ∧
        (u.Present uploadDir t ∨ u.Storable uploadDir random body t)) ∧
      ∃ e t', (storeUpload uploadDir random body u).exec t = (.error e, t') ∧
        SameArtifacts uploadDir t t') := by
  -- the directory cannot be made, or is there now
  cases hmkdir : t.mkdirAll (u.dir uploadDir) with
  | none =>
      refine Or.inr
        (Or.inr ⟨fun h => absurd h.1 (by decide), ⟨500, "failed to create slab directory"⟩, t, ?_,
        fun _ => rfl⟩)
      rw [storeUpload]
      exact Tx.exec_bind_error.mpr (Or.inl (Tx.exec_updateOr_error.mpr ⟨hmkdir, rfl, rfl⟩))
  | some t₁ =>
      have hsame := sameArtifacts_mkdirAll hmkdir
      -- a file that is present ends the request
      have hexec : (storeUpload uploadDir random body u).exec t =
          if u.Present uploadDir t then (.ok .statusOk, t₁)
          else (storeFresh uploadDir random body u).exec t₁ := by
        rw [storeUpload, Tx.exec_bind, Tx.exec, Tx.updateOr, hmkdir]
        simp only [Tx.exec_gets_bind, FileTree.fileSize_mkdirAll hmkdir]
        exact Tx.exec_ite _ _ _
      by_cases hpresent : u.Present uploadDir t
      · exact Or.inl ⟨t₁, rfl, hpresent, hexec.trans (if_pos hpresent)⟩
      · rw [if_neg hpresent] at hexec
        rw [hexec]
        have habsent : ¬u.Present uploadDir t₁ := by
          rw [PendingUpload.Present, FileTree.fileSize_mkdirAll hmkdir]
          exact hpresent
        rcases storeFresh_cases hname (FileTree.isDir_mkdirAll hmkdir) habsent with
          ⟨hstorable, t', hfresh, hpath, hother⟩ | ⟨hnot, e, t', hfresh, hkept⟩
        · exact Or.inr
            (Or.inl ⟨rfl, hpresent, (storable_mkdirAll hmkdir).mp hstorable, t', hfresh, hpath,
            fun art hart => (hother art hart).trans (hsame art)⟩)
        · refine Or.inr (Or.inr ⟨?_, e, t', hfresh, hsame.trans hkept⟩)
          rintro ⟨-, h | h⟩
          · exact hpresent h
          · exact hnot ((storable_mkdirAll hmkdir).mpr h)

end

/-! ### What a request asks for -/

/-- The checks of the route. -/
def decodeUpload (normalizeG1 : Bytes → Option Bytes) (a : Upload) :
    Except PlainError PendingUpload :=
  match a.endpoint with
  | .mdu => decodeMdu normalizeG1 a
  | .shard => decodeShard normalizeG1 a
  | .manifest => decodeManifest normalizeG1 a

/-- The handler, as its two parts: decode, then store. -/
theorem handleUpload_eq (normalizeG1 : Bytes → Option Bytes) (uploadDir : Path) (a : Upload) :
    handleUpload normalizeG1 uploadDir a = if a.req.options then pure .noContent
      else Tx.ofExcept (decodeUpload normalizeG1 a) >>=
        storeUpload uploadDir a.random a.req.body := by
  rw [handleUpload, decodeUpload]
  cases a.endpoint <;> rfl

/-- The name that the checks of a route make. -/
def Upload.Names (a : Upload) (filename : Str) : Prop :=
  match a.endpoint with
  | .mdu => filename = "mdu_".toList ++ trimSpace a.req.mduIndex ++ ".bin".toList
  | .shard => ∃ slot, parseUint (trimSpace a.req.slot) = some slot ∧ filename =
      "mdu_".toList ++ trimSpace a.req.mduIndex ++ "_slot_".toList ++
        decimal slot.toNat ++ ".bin".toList
  | .manifest => filename = "manifest.bin".toList

/-- What the checks leave of the headers. Each handler reads the deal, the root and its own
numbers. -/
theorem decodeUpload_ok {normalizeG1 : Bytes → Option Bytes} {a : Upload} {u : PendingUpload}
    (h : decodeUpload normalizeG1 a = .ok u) :
    a.artifact normalizeG1 = a.kind.map (⟨u.dealId, u.key, ·⟩) ∧ a.Names u.filename := by
  rw [decodeUpload] at h
  rw [Upload.Names, Upload.artifact]
  cases hend : a.endpoint with
  | mdu =>
      rw [hend] at h
      simp only [decodeMdu, except_bind_ok, orFail_eq_ok, rejectIf_eq_ok] at h
      obtain ⟨-, -, dealId, hdeal, -, -, -, -, key, hkey, hu⟩ := h
      cases hu
      rw [hdeal, hkey]
      exact ⟨by cases a.kind <;> rfl, rfl⟩
  | shard =>
      rw [hend] at h
      simp only [decodeShard, except_bind_ok, orFail_eq_ok, rejectIf_eq_ok] at h
      obtain ⟨-, -, dealId, hdeal, slot, hslot, -, -, -, -, key, hkey, hu⟩ := h
      cases hu
      rw [hdeal, hkey]
      exact ⟨by cases a.kind <;> rfl, slot, hslot, rfl⟩
  | manifest =>
      rw [hend] at h
      simp only [decodeManifest, except_bind_ok, orFail_eq_ok, rejectIf_eq_ok] at h
      obtain ⟨-, -, dealId, hdeal, -, -, key, hkey, hu⟩ := h
      cases hu
      rw [hdeal, hkey]
      exact ⟨by cases a.kind <;> rfl, rfl⟩

/-- Every name that is uploaded starts with an `m`, so joining it to the directory leaves it as it
is. -/
theorem head?_of_names {a : Upload} {filename : Str} (h : a.Names filename) :
    filename.head? = some 'm' := by
  rw [Upload.Names] at h
  cases hend : a.endpoint with
  | mdu =>
      rw [hend] at h
      rw [h]
      rfl
  | shard =>
      rw [hend] at h
      obtain ⟨slot, -, h⟩ := h
      rw [h]
      rfl
  | manifest =>
      rw [hend] at h
      rw [h]
      rfl

/-- A name that stands for some kind stands for the one that the headers name, if they name one. The
index in a name may have leading zeros, and then it is the name of no kind. -/
theorem kind_of_names {a : Upload} {kind kind' : ArtifactKind} {filename : Str}
    (h : a.Names filename)
    (hkind : a.kind = some kind) (hname : kind'.name = filename) : kind' = kind := by
  rw [Upload.Names] at h
  rw [Upload.kind] at hkind
  -- by the endpoint; each has its own form of names
  cases hend : a.endpoint with
  | mdu =>
      rw [hend] at h hkind
      obtain ⟨i, hi, rfl⟩ := Option.map_eq_some_iff.mp hkind
      obtain ⟨j, rfl, hdec⟩ := mduName_eq (digits_of_parseUint hi).2 (h.symm.trans hname.symm)
      rw [hdec, parseUint_decimal j.toNat_lt, UInt64.ofNat_toNat, Option.some_inj] at hi
      rw [hi]
  | shard =>
      rw [hend] at h hkind
      obtain ⟨slot, hslot, h⟩ := h
      obtain ⟨i, hi, hkind⟩ := Option.bind_eq_some_iff.mp hkind
      rw [hslot] at hkind
      cases hkind
      obtain ⟨j, rfl, hdec⟩ := shardName_eq (digits_of_parseUint hi).2 (h.symm.trans hname.symm)
      rw [hdec, parseUint_decimal j.toNat_lt, UInt64.ofNat_toNat, Option.some_inj] at hi
      rw [hi]
  | manifest =>
      rw [hend] at h hkind
      cases hkind
      exact ArtifactKind.name_injective (hname.trans h)

/-! ### The claim -/

section

variable (normalizeG1 : Bytes → Option Bytes) (uploadDir : Path)

/-- A request that is answered 200 names an artifact, whose file then is the body, and changes no
other artifact. A request that is not changes none. -/
structure UploadStored (t : FileTree) (a : Upload) : Prop where
  acknowledged : ∀ t', (handleUpload normalizeG1 uploadDir a).exec t = (.ok .statusOk, t') →
    ∃ art, a.artifact normalizeG1 = some art ∧
      t'.get (art.path uploadDir) = some (.file a.req.body) ∧
      ∀ other, other ≠ art → t'.get (other.path uploadDir) = t.get (other.path uploadDir)
  refused : ∀ reply t', (handleUpload normalizeG1 uploadDir a).exec t = (reply, t') →
    reply ≠ .ok .statusOk →
    SameArtifacts uploadDir t t'

/-- A request that gets to an answer 200 has a number for its index, and the artifact has the body
already; or the number is in decimal, and no file is taken for it. -/
def UploadHonest (t : FileTree) (a : Upload) : Prop :=
  ∀ u, a.req.options = false → decodeUpload normalizeG1 a = .ok u →
    (t.mkdirAll (u.dir uploadDir)).isSome →
    u.Present uploadDir t ∨ u.Storable uploadDir a.random a.req.body t →
    ∃ art, a.artifact normalizeG1 = some art ∧
      (t.get (art.path uploadDir) = some (.file a.req.body) ∨
        u.filename = art.kind.name ∧ ¬u.Present uploadDir t)

variable {normalizeG1 uploadDir}

/-- For an upload that was answered with success. -/
theorem uploadStored_of_ok {t t' : FileTree} {a : Upload}
    (h : (handleUpload normalizeG1 uploadDir a).exec t = (.ok .statusOk, t')) :
    UploadStored normalizeG1 uploadDir t a ↔
      ∃ art, a.artifact normalizeG1 = some art ∧
        t'.get (art.path uploadDir) = some (.file a.req.body) ∧
        ∀ other, other ≠ art → t'.get (other.path uploadDir) = t.get (other.path uploadDir) := by
  constructor
  · exact fun hstored => hstored.acknowledged t' h
  · intro hbody
    constructor
    · intro t'' h'
      obtain ⟨-, rfl⟩ := Prod.mk.inj (h.symm.trans h')
      exact hbody
    · intro reply t'' h' hne
      exact absurd (Prod.mk.inj (h.symm.trans h')).1.symm hne

/-- For an upload that was refused nothing is to show but that no artifact changed. -/
theorem uploadStored_of_refused {t t' : FileTree} {a : Upload}
    {reply : Except PlainError UploadReply}
    (h : (handleUpload normalizeG1 uploadDir a).exec t = (reply, t')) (hne : reply ≠ .ok .statusOk)
    (hsame : SameArtifacts uploadDir t t') : UploadStored normalizeG1 uploadDir t a := by
  constructor
  · intro t'' h'
    exact absurd (Prod.mk.inj (h.symm.trans h')).1 hne
  · intro reply' t'' h' _
    obtain ⟨-, rfl⟩ := Prod.mk.inj (h.symm.trans h')
    exact hsame

/-- What the handlers do with a request whose checks pass. It stores what it acknowledges, as long
as the request is honest about the name and no other file is in its place. -/
theorem uploadStored_decoded {t : FileTree} {a : Upload} {u : PendingUpload}
    (hoptions : a.req.options = false) (hdecode : decodeUpload normalizeG1 a = .ok u) :
    UploadStored normalizeG1 uploadDir t a ↔ UploadHonest normalizeG1 uploadDir t a := by
  -- the handler goes on to the directory
  have hrun : (handleUpload normalizeG1 uploadDir a).exec t =
      (storeUpload uploadDir a.random a.req.body u).exec t := by
    rw [handleUpload_eq, hoptions, hdecode]
    rfl
  obtain ⟨hartifact, hnames⟩ := decodeUpload_ok hdecode
  have hhonest : UploadHonest normalizeG1 uploadDir t a ↔ ((t.mkdirAll (u.dir uploadDir)).isSome →
      u.Present uploadDir t ∨ u.Storable uploadDir a.random a.req.body t →
      ∃ art, a.artifact normalizeG1 = some art ∧
        (t.get (art.path uploadDir) = some (.file a.req.body) ∨
          u.filename = art.kind.name ∧ ¬u.Present uploadDir t)) := by
    constructor
    · exact fun h => h u hoptions hdecode
    · intro h u' _ hu'
      rw [hdecode] at hu'
      cases hu'
      exact h
  rw [hhonest]
  -- the file is there, the body is stored, or the request fails
  rcases @storeUpload_cases uploadDir u a.random a.req.body t (head?_of_names hnames) with
    ⟨t₁, hmkdir, hpresent, hexec⟩ | ⟨hmkdir, habsent, hstorable, t', hexec, hbody, hsame⟩ |
    ⟨hnot, e, t', hexec, hsame⟩
  · -- the file that is there stays, whatever the body
    rw [uploadStored_of_ok (hrun.trans hexec)]
    have hkept := sameArtifacts_mkdirAll hmkdir
    constructor
    · rintro ⟨art, hart, hbody, -⟩ - -
      exact ⟨art, hart, Or.inl ((hkept art).symm.trans hbody)⟩
    · intro h
      obtain ⟨art, hart, hbody | ⟨-, habsent⟩⟩ := h (by rw [hmkdir]; rfl) (Or.inl hpresent)
      · exact ⟨art, hart, (hkept art).trans hbody, fun other _ => hkept other⟩
      · exact absurd hpresent habsent
  · rw [uploadStored_of_ok (hrun.trans hexec)]
    -- the path of the upload is that of an artifact only if the name is its name
    have hpath : ∀ art : Artifact, a.artifact normalizeG1 = some art →
        (art.path uploadDir = u.dir uploadDir ++ [u.filename] ↔ u.filename = art.kind.name) := by
      intro art hart
      rw [hartifact] at hart
      obtain ⟨kind, -, rfl⟩ := Option.map_eq_some_iff.mp hart
      exact ⟨fun h => (List.head_eq_of_cons_eq (List.append_cancel_left h)).symm,
        fun h => by rw [h]; rfl⟩
    have hother : ∀ art other : Artifact, a.artifact normalizeG1 = some art → other ≠ art →
        other.path uploadDir ≠ u.dir uploadDir ++ [u.filename] := by
      intro art other hart hne heq
      rw [hartifact] at hart
      obtain ⟨kind, hkind, rfl⟩ := Option.map_eq_some_iff.mp hart
      have hname : other.kind.name = u.filename :=
        List.head_eq_of_cons_eq (List.append_inj_right' heq rfl)
      refine hne (Artifact.path_injective uploadDir ?_)
      rw [heq, ← hname, kind_of_names hnames hkind hname]
      rfl
    constructor
    · rintro ⟨art, hart, hart', -⟩ - -
      refine ⟨art, hart, ?_⟩
      by_cases hname : u.filename = art.kind.name
      · exact Or.inr ⟨hname, habsent⟩
      · exact Or.inl ((hsame art fun h => hname ((hpath art hart).mp h)).symm.trans hart')
    · intro h
      obtain ⟨art, hart, hgood⟩ := h hmkdir (Or.inr hstorable)
      refine ⟨art, hart, ?_, fun other hne => hsame other (hother art other hart hne)⟩
      by_cases hname : u.filename = art.kind.name
      · rw [(hpath art hart).mpr hname, hbody]
      · rcases hgood with hgood | ⟨hname', -⟩
        · rw [hsame art fun h => hname ((hpath art hart).mp h), hgood]
        · exact absurd hname' hname
  -- a failed request acknowledges nothing
  · exact iff_of_true (uploadStored_of_refused (hrun.trans hexec) nofun hsame)
      fun hmkdir hreach => absurd ⟨hmkdir, hreach⟩ hnot

/-- Both cases together. -/
theorem uploadStored_iff (t : FileTree) (a : Upload) :
    UploadStored normalizeG1 uploadDir t a ↔ UploadHonest normalizeG1 uploadDir t a := by
  by_cases hoptions : a.req.options = true
  · have hexec : (handleUpload normalizeG1 uploadDir a).exec t = (.ok .noContent, t) := by
      rw [handleUpload_eq, if_pos hoptions, Tx.exec_pure]
    exact iff_of_true (uploadStored_of_refused hexec nofun fun _ => rfl)
      fun u hnot => absurd (hoptions.symm.trans hnot) (by decide)
  · rw [Bool.not_eq_true] at hoptions
    cases hdecode : decodeUpload normalizeG1 a with
    | error e =>
        have hexec : (handleUpload normalizeG1 uploadDir a).exec t = (.error e, t) := by
          rw [handleUpload_eq, hoptions, hdecode]
          rfl
        refine iff_of_true (uploadStored_of_refused hexec nofun fun _ => rfl) fun u _ hu => ?_
        rw [hdecode] at hu
        cases hu
    | ok u => exact uploadStored_decoded hoptions hdecode

/-- At every step of every run of uploads, the answer says what was stored exactly when the request
was honest. -/
theorem uploads_stored (t : FileTree) (as : List Upload) :
    Along (fun past a =>
      UploadStored normalizeG1 uploadDir (runUploads normalizeG1 uploadDir t past) a ↔
        UploadHonest normalizeG1 uploadDir (runUploads normalizeG1 uploadDir t past) a) as :=
  fun past a _ _ => uploadStored_iff (runUploads normalizeG1 uploadDir t past) a

end

/-- The compressed point at infinity, as far as `gnark-crypto` is needed here. -/
def normalizeInfinity (b : Bytes) : Option Bytes :=
  if b = 0xc0 :: List.replicate 47 0 then some b else none

/-- A shard for slot 0 of MDU 1 of deal 7. -/
def sampleShard (body : Bytes) : Upload :=
  ⟨.shard, ⟨false, "7".toList, "1".toList, "0".toList,
    hexEncode (0xc0 :: List.replicate 47 0), body, false⟩,
    .found, some 0⟩

/-- The artifact of the samples. -/
def sampleArtifact : Artifact := ⟨7, hexEncode (0xc0 :: List.replicate 47 0), .shard 1 0⟩

/-- The second of two shards of one length is answered 200, and the file is still the first. -/
theorem sampleShard_kept :
    let r := (handleUpload normalizeInfinity ["data".toList] (sampleShard [2])).exec
      (runUploads normalizeInfinity ["data".toList] KVStore.empty [sampleShard [1]])
    (r.1.toOption, r.2.get (sampleArtifact.path ["data".toList])) =
      (some .statusOk, some (.file [1])) := by
  decide +kernel

/-- Not every run of uploads stores what it acknowledges. The second of two shards is acknowledged
for the file of the first. -/
theorem second_shard_lost :
    ¬∀ (normalizeG1 : Bytes → Option Bytes) (uploadDir : Path) (t : FileTree) (as : List Upload),
      Along (fun past a =>
        UploadStored normalizeG1 uploadDir (runUploads normalizeG1 uploadDir t past) a) as := by
  -- the last request of two
  intro h
  have hstored := (h normalizeInfinity ["data".toList] KVStore.empty
    ([sampleShard [1]] ++ [sampleShard [2]])).last
  have hartifact : (sampleShard [2]).artifact normalizeInfinity =
    some sampleArtifact := by decide +kernel
  have hkept := sampleShard_kept
  -- it is acknowledged, and its body is not in the file
  cases hr : (handleUpload normalizeInfinity ["data".toList] (sampleShard [2])).exec
      (runUploads normalizeInfinity ["data".toList] KVStore.empty [sampleShard [1]]) with
  | mk reply t' =>
      rw [hr] at hkept
      obtain ⟨hreply, hfile⟩ := Prod.mk.inj hkept
      cases reply with
      | error e => cases hreply
      | ok reply =>
          cases hreply
          obtain ⟨art, hart, hbody, -⟩ := hstored.acknowledged t' hr
          rw [hartifact] at hart
          obtain rfl := Option.some.inj hart
          rw [hfile] at hbody
          cases hbody

end NilStore.Gateway
