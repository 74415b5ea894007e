import NilStore.Gateway.Finalize

/-!
# `NilStore.Proofs.FinalizedSlabs`: what becomes of a staged slab

A staging directory holds files only (`Staged`), and its files move one by one: `mergeEntry_spec`
says what a round does at its own target and elsewhere, `mergeEntries_spec` what the loop does. So
nothing is lost where the staged files move (`finalizeLocked_spec`). Where the destination looks
complete the staged files are thrown away (`exec_of_complete`), and the ones that were not there
before are gone. Looking complete is about MDU #0 and the manifest alone, or about the marker.
-/

set_option autoImplicit false

namespace NilStore.Gateway.Staging

open NilStore.Lib NilStore.Core NilStore.Gateway

/-! ### Paths side by side -/

/-- What is in one directory is not in the other. -/
def Apart (p q : Path) : Prop := ∀ r, ¬p <+: q ++ r

/-- Two names in one directory are apart. -/
theorem apart_siblings {parent : Path} {a b : Str} (h : a ≠ b) :
    Apart (parent ++ [a]) (parent ++ [b]) := by
  intro r hpre
  rw [List.append_assoc, List.prefix_append_right_inj, List.singleton_append, List.cons_prefix_cons]
    at hpre
  exact h hpre.1

/-- Nothing below the one path is the other. -/
theorem Apart.ne {p q : Path} (h : Apart p q) (r : Path) :
    q ++ r ≠ p := fun heq => h r (heq ▸ List.prefix_rfl)

/-- Names in one directory are no prefixes of each other. -/
theorem append_not_prefix {p : Path} {a b : Str} (h : a ≠ b) : ¬p ++ [a] <+: p ++ [b] := by
  intro hpre
  rw [List.prefix_append_right_inj, List.cons_prefix_cons] at hpre
  exact h hpre.1

/-- What lies below the one path is apart from the other. -/
theorem Apart.append {p q : Path} (h : Apart p q) (r : Path) : Apart (p ++ r) q :=
  fun s hpre => h s ((List.prefix_append p r).trans hpre)

/-! ### The staged slab -/

/-- A directory with files alone, one of them the marker. -/
structure Staged (stagingDir : Path) (t : FileTree) : Prop where
  dir : t.get stagingDir = some .dir
  flat : ∀ name node, t.get (stagingDir ++ [name]) = some node → ∃ content, node = .file content
  marker : t.get (stagingDir ++ [mode2SlabCompleteMarker]) = some (.file markerContent)

/-- Writing files into a directory changes the paths of these files and no other. -/
theorem get_writes (stagingDir : Path) (files : List (Str × Bytes)) (t : FileTree) (q : Path) :
    KVStore.get (files.foldl (fun t f => t.set (stagingDir ++ [f.1]) (.file f.2)) t) q = t.get q ∨
      ∃ f ∈ files, q = stagingDir ++ [f.1] ∧
        KVStore.get (files.foldl (fun t f => t.set (stagingDir ++ [f.1]) (.file f.2)) t) q =
          some (.file f.2) := by
  induction files generalizing t with
  | nil => exact Or.inl rfl
  | cons f files ih =>
      rw [List.foldl_cons]
      rcases ih (t.set (stagingDir ++ [f.1]) (.file f.2)) with h | ⟨g, hg, hq, h⟩
      · by_cases hq : q = stagingDir ++ [f.1]
        · refine Or.inr ⟨f, List.mem_cons_self, hq, ?_⟩
          rw [h, hq, KVStore.get_set_self]
        · exact Or.inl (h.trans (KVStore.get_set_ne t hq _))
      · exact Or.inr ⟨g, List.mem_cons_of_mem f hg, hq, h⟩

/-- Staging a slab changes nothing outside the staging directory. -/
theorem get_stageSlab {slab : Mode2Slab} {stagingDir q : Path} {t : FileTree}
    (h : ¬stagingDir <+: q) :
    (stageSlab slab stagingDir t).get q = t.get q := by
  rw [stageSlab]
  rcases get_writes stagingDir (stagedFiles slab) (t.set stagingDir .dir) q
    with hget | ⟨f, -, hq, -⟩
  · rw [hget, KVStore.get_set_ne t]
    rintro rfl
    exact h List.prefix_rfl
  · exact absurd (hq ▸ List.prefix_append stagingDir [f.1]) h

/-- Staging into a fresh directory gives a staged slab: a directory with plain files, the marker
among them. The marker is written last. -/
theorem staged_stageSlab (slab : Mode2Slab) {stagingDir : Path} {t : FileTree} (hwf : t.WellFormed)
    (hne : stagingDir ≠ []) (hfresh : t.get stagingDir = none) :
    Staged stagingDir (stageSlab slab stagingDir t) where
  dir := by
    rw [stageSlab]
    -- the writes are below the directory
    rcases get_writes stagingDir (stagedFiles slab) (t.set stagingDir .dir) stagingDir
      with hget | ⟨f, -, hq, -⟩
    · rw [hget, KVStore.get_set_self]
    · exact absurd (congrArg List.length hq) (by simp)
  flat name node h := by
    rw [stageSlab] at h
    rcases get_writes stagingDir (stagedFiles slab) (t.set stagingDir .dir) (stagingDir ++ [name])
        with
      hget | ⟨f, -, -, hget⟩
    -- nothing was there before, so what is there has been written
    · rw [hget, KVStore.get_set_ne t (by simp), hwf.get_below hne (by rw [hfresh]; nofun) (by simp)]
        at h
      cases h
    · rw [hget] at h
      cases h
      exact ⟨f.2, rfl⟩
  marker := by
    have hlast : stagedFiles slab =
        (stagedFiles slab).dropLast ++ [(mode2SlabCompleteMarker, markerContent)] := by
      rw [stagedFiles, List.dropLast_append_cons]
      simp
    rw [stageSlab, hlast, List.foldl_append, List.foldl_cons, List.foldl_nil]
    exact KVStore.get_set_self _ _ _

/-! ### Merging -/

/-- Where the file operation succeeds, the rest runs in the new tree. -/
theorem exec_succeeds_bind {α : Type} {f : FileTree → Option FileTree}
    {g : Bool → Tx FileTree FinalizeError α}
    {t t' : FileTree} (h : f t = some t') : (succeeds f >>= g).exec t = (g true).exec t' := by
  rw [Tx.exec_bind, Tx.exec, succeeds, h]

/-- Where the file operation fails, the rest runs in the old tree. -/
theorem exec_fails_bind {α : Type} {f : FileTree → Option FileTree}
    {g : Bool → Tx FileTree FinalizeError α}
    {t : FileTree} (h : f t = none) : (succeeds f >>= g).exec t = (g false).exec t := by
  rw [Tx.exec_bind, Tx.exec, succeeds, h]

section Merge

variable {merge : Path → Path → Tx FileTree FinalizeError Unit} {stagingDir finalDir : Path}
    {t : FileTree}

/-- A staged file moves over whatever is in its place. A rename onto a directory fails; then the
directory is removed and the rename is tried again. -/
theorem mergeEntry_spec {name : Str} {content : Bytes} (hfs : Apart finalDir stagingDir)
    (hfinal : t.get finalDir = some .dir)
    (hsrc : t.get (stagingDir ++ [name]) = some (.file content)) :
    ∃ t', (mergeEntry merge stagingDir finalDir name).exec t = (.ok (), t') ∧
      t'.get (finalDir ++ [name]) = some (.file content) ∧
      ∀ q, q ≠ stagingDir ++ [name] → ¬finalDir ++ [name] <+: q → t'.get q = t.get q := by
  -- the source is a plain file, so there is no merge below it
  have hsrcdir : t.isDir (stagingDir ++ [name]) = false := by
    rw [FileTree.isDir, hsrc]
    simp
  have hparent : t.isDir (finalDir ++ [name]).dropLast = true := by
    rw [List.dropLast_concat, FileTree.isDir, hfinal]
    simp
  have hapart : ¬finalDir ++ [name] <+: stagingDir ++ [name] := hfs.append [name] [name]
  -- a path outside the target is not the target
  have hother : ∀ {q : Path}, ¬finalDir ++ [name] <+: q → q ≠ finalDir ++ [name] := by
    rintro q hpre rfl
    exact hpre List.prefix_rfl
  rw [mergeEntry]
  simp only [Tx.exec_gets_bind, hsrcdir, Bool.false_eq_true, if_false]
  by_cases hdst : t.get (finalDir ++ [name]) = some .dir
  · -- a directory is in the way of the first rename
    have hfirst : t.rename (stagingDir ++ [name]) (finalDir ++ [name]) = none := by
      rw [FileTree.rename, hsrc]
      exact if_pos (Or.inl hdst)
    have hsrc' : (t.removeAll (finalDir ++ [name])).get (stagingDir ++ [name]) =
        some (.file content) := by
      rw [FileTree.get_removeAll, if_neg hapart, hsrc]
    have hfinal' : (t.removeAll (finalDir ++ [name])).get finalDir = some .dir := by
      rw [FileTree.get_removeAll, if_neg ?_, hfinal]
      intro hpre
      exact absurd hpre.length_le (by simp)
    have hparent' : (t.removeAll (finalDir ++ [name])).isDir (finalDir ++ [name]).dropLast =
        true := by
      rw [List.dropLast_concat, FileTree.isDir, hfinal']
      simp
    have hdst' : (t.removeAll (finalDir ++ [name])).get (finalDir ++ [name]) ≠ some .dir := by
      rw [FileTree.get_removeAll, if_pos List.prefix_rfl]
      simp
    have hsecond := FileTree.rename_file hsrc' hdst' hparent'
    rw [exec_fails_bind hfirst, if_neg (by decide), Tx.exec_update_bind, exec_succeeds_bind hsecond]
    refine ⟨_, rfl, KVStore.get_set_self _ _ _, fun q hq hpre => ?_⟩
    rw [KVStore.get_set_ne _ (hother hpre), KVStore.get_remove_ne _ hq,
      FileTree.get_removeAll, if_neg hpre]
  · rw [exec_succeeds_bind (FileTree.rename_file hsrc hdst hparent)]
    refine ⟨_, rfl, KVStore.get_set_self _ _ _, fun q hq hpre => ?_⟩
    rw [KVStore.get_set_ne _ (hother hpre), KVStore.get_remove_ne _ hq]

/-- The loop moves the files that it is given, and touches no other. The names are different, so no
file is moved over one that was moved before. -/
theorem mergeEntries_spec {names : List Str} (hsf : Apart stagingDir finalDir)
    (hfs : Apart finalDir stagingDir) (hfinal : t.get finalDir = some .dir) (hnodup : names.Nodup)
    (hsrc : ∀ name ∈ names, ∃ content, t.get (stagingDir ++ [name]) = some (.file content)) :
    ∃ t', (mergeEntries merge stagingDir finalDir names).exec t = (.ok (), t') ∧
      ∀ name ∈ names, t'.get (finalDir ++ [name]) = t.get (stagingDir ++ [name]) := by
  -- stronger for the induction: what is neither source nor below a target stays
  have hrun : ∃ t', (mergeEntries merge stagingDir finalDir names).exec t = (.ok (), t') ∧
      (∀ name ∈ names, t'.get (finalDir ++ [name]) = t.get (stagingDir ++ [name])) ∧
      ∀ q, (∀ name ∈ names, q ≠ stagingDir ++ [name] ∧ ¬finalDir ++ [name] <+: q) →
        t'.get q = t.get q := by
    induction names generalizing t with
    | nil => exact ⟨t, rfl, fun name hname => absurd hname List.not_mem_nil, fun q _ => rfl⟩
    | cons name names ih =>
        obtain ⟨hnotin, hnodup⟩ := List.nodup_cons.mp hnodup
        obtain ⟨content, hcontent⟩ := hsrc name List.mem_cons_self
        obtain ⟨t₁, hexec, hmoved, hother⟩ := @mergeEntry_spec merge _ _ t _ _ hfs hfinal hcontent
        have hstaged : ∀ n ∈ names, t₁.get (stagingDir ++ [n]) = t.get (stagingDir ++ [n]) := by
          intro n hn
          have hne : n ≠ name := fun heq => hnotin (heq ▸ hn)
          exact hother _ (by simpa using hne) (hfs.append [name] [n])
        have hfinal₁ : t₁.get finalDir = some .dir := by
          rw [hother finalDir ?_ ?_, hfinal]
          · have := (hsf.append [name]).ne []
            rwa [List.append_nil] at this
          · intro hpre
            exact absurd hpre.length_le (by simp)
        obtain ⟨t₂, hrest, hmoved₂, hother₂⟩ := @ih t₁ hfinal₁ hnodup fun n hn => by
          rw [hstaged n hn]
          exact hsrc n (List.mem_cons_of_mem name hn)
        refine ⟨t₂, ?_, fun n hn => ?_, fun q hq => ?_⟩
        · rw [mergeEntries, Tx.exec_bind, hexec]
          exact hrest
        · rcases List.mem_cons.mp hn with rfl | hn
          -- the first file is not touched by the rest of the loop
          · rw [hother₂ _ ?_, hmoved, hcontent]
            exact fun m hm =>
              ⟨(hsf.append [m]).ne [n], append_not_prefix fun heq => hnotin (heq ▸ hm)⟩
          · rw [hmoved₂ n hn, hstaged n hn]
        · rw [hother₂ q fun n hn => hq n (List.mem_cons_of_mem name hn),
            hother q (hq name List.mem_cons_self).1 (hq name List.mem_cons_self).2]
  obtain ⟨t', hexec, hmoved, -⟩ := hrun
  exact ⟨t', hexec, hmoved⟩

/-- Every staged file ends up in the final directory, and the staging directory goes. -/
theorem mode2MergeStagingIntoFinal_spec (depth : Nat) (hsf : Apart stagingDir finalDir)
    (hfs : Apart finalDir stagingDir) (hstaged : Staged stagingDir t)
    (hfinal : t.get finalDir = some .dir) :
    ∃ t', (mode2MergeStagingIntoFinal (depth + 1) stagingDir finalDir).exec t = (.ok (), t') ∧
      ∀ name node, t.get (stagingDir ++ [name]) = some node →
        t'.get (finalDir ++ [name]) = some node := by
  have hdir : t.isDir stagingDir = true := by
    rw [FileTree.isDir, hstaged.dir]
    simp
  have hsrc : ∀ name ∈ t.readDir stagingDir, ∃ content, t.get (stagingDir ++ [name]) =
      some (.file content) := by
    intro name hname
    obtain ⟨node, hnode⟩ := Option.isSome_iff_exists.mp (FileTree.mem_readDir.mp hname)
    obtain ⟨content, rfl⟩ := hstaged.flat name node hnode
    exact ⟨content, hnode⟩
  obtain ⟨t₁, hexec, hmoved⟩ :=
    @mergeEntries_spec (mode2MergeStagingIntoFinal depth) _ _ t _ hsf hfs hfinal
    (FileTree.nodup_readDir t stagingDir) hsrc
  refine ⟨t₁.removeAll stagingDir, ?_, fun name node hnode => ?_⟩
  -- the merge, and then the removal
  · rw [mode2MergeStagingIntoFinal]
    simp only [hdir, not_true, Tx.exec_bind, Tx.exec_failIf, if_false, Tx.exec_gets, hexec,
      Tx.exec_update]
  · rw [FileTree.get_removeAll, if_neg (hsf [name]),
      hmoved name (FileTree.mem_readDir.mpr (by rw [hnode]; rfl)), hnode]

end Merge

/-! ### Complete directories -/

/-- Writing the marker replaces nothing that is there. -/
theorem get_ensureMarker_of_some {dir q : Path} {t : FileTree} {node : Node}
    (h : t.get q = some node) :
    (mode2EnsureCompleteMarker dir t).get q = some node := by
  rw [mode2EnsureCompleteMarker]
  split
  · exact h
  · rename_i hmarker
    have hne : q ≠ dir ++ [mode2SlabCompleteMarker] := by
      rintro rfl
      exact hmarker (by rw [h]; rfl)
    rw [FileTree.writeFile]
    split
    · exact h
    · rw [Option.getD_some, KVStore.get_set_ne t hne, h]

/-- Writing the marker adds the marker where it is missing and nothing else. The directory is there,
so the write succeeds. -/
theorem get_ensureMarker {dir : Path} {t : FileTree} (hdir : t.get dir = some .dir) (q : Path) :
    (mode2EnsureCompleteMarker dir t).get q =
      if q = dir ++ [mode2SlabCompleteMarker] ∧ t.get q = none then some (.file markerContent)
      else t.get q := by
  -- the marker is missing, and is the path that is asked for
  by_cases hnew : q = dir ++ [mode2SlabCompleteMarker] ∧ t.get q = none
  · obtain ⟨rfl, hnone⟩ := hnew
    have hparent : t.isDir (dir ++ [mode2SlabCompleteMarker]).dropLast = true := by
      rw [List.dropLast_concat, FileTree.isDir, hdir]
      simp
    rw [if_pos ⟨rfl, hnone⟩, mode2EnsureCompleteMarker, hnone, if_neg (by decide),
      FileTree.writeFile, hnone,
      hparent, if_neg (by decide), Option.getD_some, KVStore.get_set_self]
  · rw [if_neg hnew]
    cases hq : t.get q with
    | some node => exact get_ensureMarker_of_some hq
    | none =>
        have hne : q ≠ dir ++ [mode2SlabCompleteMarker] := fun heq => hnew ⟨heq, hq⟩
        rw [mode2EnsureCompleteMarker]
        split
        · exact hq
        · rw [FileTree.writeFile]
          split
          · exact hq
          · rw [Option.getD_some, KVStore.get_set_ne t hne, hq]

/-- Whether a directory looks complete depends on its own files only. -/
theorem looksComplete_congr {dir : Path} {t t' : FileTree}
    (h : ∀ name, t'.get (dir ++ [name]) = t.get (dir ++ [name])) :
    mode2DirLooksComplete t' dir = mode2DirLooksComplete t dir := by
  simp only [mode2DirLooksComplete, FileTree.fileSize, h]

/-- A directory that looks complete has something in it. -/
theorem dir_of_looksComplete {dir : Path} {t : FileTree} (hwf : t.WellFormed) (hne : dir ≠ [])
    (h : mode2DirLooksComplete t dir = true) : t.get dir = some .dir := by
  by_contra hdir
  have hnone : ∀ name : Str, t.get (dir ++ [name]) = none := fun name =>
    hwf.get_below hne hdir (by simp)
  simp only [mode2DirLooksComplete, FileTree.fileSize, hnone, Option.isSome_none, Option.any_none,
    Bool.and_false, Bool.or_false, Bool.false_eq_true] at h

section Finalize

variable {pid : Nat} {stale : Nat → Bool} {stagingDir finalDir lockPath : Path} {t : FileTree}

/-- Keeping the existing slab writes its marker and drops the staged one. -/
theorem exec_keepExisting (stagingDir finalDir : Path) (t : FileTree) :
    (keepExisting stagingDir finalDir).exec t =
      (.ok (), (mode2EnsureCompleteMarker finalDir t).removeAll stagingDir) := by
  rw [keepExisting, Tx.exec_update_bind, Tx.exec_update]

/-- After that the final directory is as it was, but for the marker. -/
theorem get_keepExisting (hdir : t.get finalDir = some .dir) (hsf : Apart stagingDir finalDir)
    (name : Str) :
    ((mode2EnsureCompleteMarker finalDir t).removeAll stagingDir).get (finalDir ++ [name]) =
      if name = mode2SlabCompleteMarker ∧ t.get (finalDir ++ [name]) = none then
        some (.file markerContent)
      else t.get (finalDir ++ [name]) := by
  rw [FileTree.get_removeAll, if_neg (hsf [name]), get_ensureMarker hdir]
  simp only [List.append_cancel_left_eq, List.cons.injEq, and_true]

/-- The lock is given back on every outcome, if it was held. -/
theorem exec_unlockAfter (lockPath : Path) (lockHeld : Bool) (x : Tx FileTree FinalizeError Unit)
    (t : FileTree) :
    (unlockAfter lockPath lockHeld x).exec t = ((x.exec t).1,
      if lockHeld then ((x.exec t).2.removeOne lockPath).getD (x.exec t).2 else (x.exec t).2) := rfl

/-- A slab that looks complete stays, and the staged one goes. This is found out before the lock is
taken, and the marker is added where it is missing. -/
theorem exec_of_complete (hdir : t.get finalDir = some .dir) (hsf : Apart stagingDir finalDir)
    (hcomplete : mode2DirLooksComplete t finalDir = true) :
    ∃ t', (acquireLock pid stale stagingDir finalDir lockPath >>= fun lockHeld =>
        unlockAfter lockPath lockHeld (finalizeLocked stagingDir finalDir)).exec t = (.ok (), t') ∧
      ∀ name, t'.get (finalDir ++ [name]) =
        if name = mode2SlabCompleteMarker ∧ t.get (finalDir ++ [name]) = none then
          some (.file markerContent)
        else t.get (finalDir ++ [name]) := by
  set t₁ := (mode2EnsureCompleteMarker finalDir t).removeAll stagingDir with ht₁
  -- the staging is removed before the lock is asked for
  have hacquire : (acquireLock pid stale stagingDir finalDir lockPath).exec t =
      (.ok false, t₁) := by
    rw [acquireLock, Tx.exec_gets_bind, hcomplete, if_pos rfl, Tx.exec_bind, exec_keepExisting]
    rfl
  have hget := @get_keepExisting stagingDir finalDir t hdir hsf
  rw [← ht₁] at hget
  have hdir₁ : t₁.get finalDir = some .dir := by
    have hpre := hsf []
    rw [List.append_nil] at hpre
    rw [ht₁, FileTree.get_removeAll, if_neg hpre, get_ensureMarker_of_some hdir]
  -- the slab still looks complete afterwards
  have hcomplete₁ : mode2DirLooksComplete t₁ finalDir = true := by
    rw [mode2DirLooksComplete, hget]
    split
    · rfl
    · rename_i hmarker
      have hsome : (t.get (finalDir ++ [mode2SlabCompleteMarker])).isSome = true := by
        rw [← Option.ne_none_iff_isSome]
        exact fun hnone => hmarker ⟨rfl, hnone⟩
      rw [hsome, Bool.true_or]
  -- so the rename finds nothing to move
  have hgone : t₁.rename stagingDir finalDir = none := by
    rw [FileTree.rename, ht₁, FileTree.get_removeAll, if_pos List.prefix_rfl]
  have hlocked : (finalizeLocked stagingDir finalDir).exec t₁ =
      (.ok (), (mode2EnsureCompleteMarker finalDir t₁).removeAll stagingDir) := by
    rw [finalizeLocked, exec_fails_bind hgone, if_neg (by decide), Tx.exec_gets_bind, hdir₁]
    simp only [Tx.exec_gets_bind, hcomplete₁, if_true, exec_keepExisting]
  refine ⟨(mode2EnsureCompleteMarker finalDir t₁).removeAll stagingDir, ?_, fun name => ?_⟩
  · rw [Tx.exec_bind, hacquire]
    simp only [exec_unlockAfter, hlocked, Bool.false_eq_true, if_false]
  · rw [get_keepExisting hdir₁ hsf, hget]
    by_cases hmarker : name = mode2SlabCompleteMarker ∧ t.get (finalDir ++ [name]) = none
    · rw [if_pos hmarker]
      exact if_neg fun h => absurd h.2 (by simp)
    · rw [if_neg hmarker, if_neg hmarker]

/-- With the lock held, a staged slab takes its place: by a rename where nothing is, by a merge
where an incomplete slab is, and after a removal where a plain file is. -/
theorem finalizeLocked_spec (hsf : Apart stagingDir finalDir) (hfs : Apart finalDir stagingDir)
    (hparent : t.isDir finalDir.dropLast = true) (hne : finalDir.dropLast ≠ finalDir)
    (hstaged : Staged stagingDir t) (hincomplete : mode2DirLooksComplete t finalDir = false) :
    ∃ t', (finalizeLocked stagingDir finalDir).exec t = (.ok (), t') ∧
      ∀ name node, t.get (stagingDir ++ [name]) = some node →
        t'.get (finalDir ++ [name]) = some node := by
  have hpre : ¬stagingDir <+: finalDir := by
    have := hsf []
    rwa [List.append_nil] at this
  -- a rename of the directory moves the files with it
  have hmove : ∀ (t : FileTree) (name : Str),
      (t.moveDir stagingDir finalDir).get (finalDir ++ [name]) = t.get (stagingDir ++ [name]) := by
    intro t name
    rw [FileTree.get_moveDir, if_pos (List.prefix_append _ _), List.drop_left]
  have hblocked : ∀ node, t.get finalDir = some node → t.rename stagingDir finalDir = none := by
    intro node hnode
    rw [FileTree.rename, hstaged.dir]
    exact if_pos (Or.inr (Or.inl (by rw [hnode]; rfl)))
  rw [finalizeLocked]
  cases hfinal : t.get finalDir with
  | none =>
      rw [exec_succeeds_bind (FileTree.rename_dir hstaged.dir hpre hfinal hparent), if_pos rfl]
      exact ⟨_, rfl, fun name node hnode => (hmove t name).trans hnode⟩
  | some node =>
      rw [exec_fails_bind (hblocked node hfinal), if_neg (by decide), Tx.exec_gets_bind, hfinal]
      cases node with
      -- an incomplete slab: the staged files are merged into it
      | dir =>
          obtain ⟨t₁, hmerge, hmoved⟩ :=
            mode2MergeStagingIntoFinal_spec t.entries.length hsf hfs hstaged hfinal
          refine ⟨mode2EnsureCompleteMarker finalDir t₁, ?_, fun name node hnode =>
            get_ensureMarker_of_some (hmoved name node hnode)⟩
          simp only [Tx.exec_gets_bind, hincomplete, Bool.false_eq_true, if_false]
          rw [Tx.exec_bind, Tx.exec, returnsNil, hmerge]
          rfl
      | file content =>
          -- a plain file gives way
          have hremove : t.removeOne finalDir =
            some (t.remove finalDir) := by rw [FileTree.removeOne, hfinal]
          have hstagingne : stagingDir ≠ finalDir := fun heq => hpre (heq ▸ List.prefix_rfl)
          have hchild : ∀ name : Str, stagingDir ++ [name] ≠ finalDir := fun name => hfs.ne [name]
          have hrename := @FileTree.rename_dir (t.remove finalDir) stagingDir finalDir
            (by rw [KVStore.get_remove_ne _ hstagingne, hstaged.dir]) hpre
              (by rw [KVStore.get_remove, if_pos rfl])
            (by rw [FileTree.isDir, KVStore.get_remove_ne _ hne]; exact hparent)
          refine ⟨FileTree.moveDir (t.remove finalDir) stagingDir finalDir, ?_,
            fun name node hnode => ?_⟩
          · simp only []
            rw [@exec_succeeds_bind Unit (fun t => t.removeOne finalDir) _ t _ hremove, if_pos rfl,
              @exec_succeeds_bind Unit (fun t => t.rename stagingDir finalDir) _ _ _ hrename,
              if_pos rfl]
            rfl
          · rw [hmove, KVStore.get_remove_ne _ (hchild name), hnode]

/-- The trees differ at one path at most. -/
def SameOff (p : Path) (t t' : FileTree) : Prop := ∀ q, q ≠ p → t'.get q = t.get q

/-- Removing one path changes no other. -/
theorem sameOff_removeOne (p : Path) (t : FileTree) : SameOff p t ((t.removeOne p).getD t) := by
  intro q hq
  rw [FileTree.removeOne]
  split
  · rfl
  · rw [Option.getD_some, KVStore.get_remove_ne t hq]
  · split
    · rw [Option.getD_some, KVStore.get_remove_ne t hq]
    · rfl

/-- Writing one file changes no other path. -/
theorem sameOff_writeFile {p : Path} {t t' : FileTree} {content : Bytes}
    (h : t.writeFile p content = some t') :
    SameOff p t t' := by
  rw [FileTree.writeFile] at h
  split at h
  · cases h
  · cases h
    exact fun q hq => KVStore.get_set_ne t hq _

/-- The attempts touch the lock file alone, as long as the slab is incomplete. They end with the
lock, or with an error. -/
theorem lockAttempts_spec (hlock : ∀ name, finalDir ++ [name] ≠ lockPath) (n : Nat)
    (hincomplete : mode2DirLooksComplete t finalDir = false) :
    ∃ r t', (lockAttempts pid stale stagingDir finalDir lockPath n).exec t = (r, t') ∧
      SameOff lockPath t t' ∧
      (r = .ok true ∨ ∃ e, r = .error e) := by
  induction n generalizing t with
  | zero => exact ⟨_, t, rfl, fun q _ => rfl, Or.inr ⟨_, rfl⟩⟩
  | succ n ih =>
      rw [lockAttempts, Tx.exec_gets_bind]
      -- without a lock file the lock is taken
      cases hget : t.get lockPath with
      | none =>
          rw [Option.isNone_none, if_pos rfl]
          cases hwrite : t.writeFile lockPath (lockContent pid) with
          | none =>
              refine ⟨.error .lockFailed, t, ?_, fun q _ => rfl, Or.inr ⟨_, rfl⟩⟩
              exact Tx.exec_bind_error.mpr (Or.inl (Tx.exec_updateOr_error.mpr ⟨hwrite, rfl, rfl⟩))
          | some t₁ =>
              refine ⟨.ok true, t₁, ?_, sameOff_writeFile hwrite, Or.inl rfl⟩
              exact Tx.exec_bind_ok.mpr ⟨(), t₁, Tx.exec_updateOr_ok.mpr hwrite, rfl⟩
      -- a stale lock is removed, and the next attempt follows
      | some node =>
          rw [Option.isNone_some, if_neg (by decide), Tx.exec_gets_bind, hincomplete,
            if_neg (by decide)]
          have hsame : SameOff lockPath t
              (if stale n then (t.removeOne lockPath).getD t else t) := by
            split
            · exact sameOff_removeOne lockPath t
            · exact fun q _ => rfl
          have hnext := @ih (if stale n then (t.removeOne lockPath).getD t else t) (by
            rw [looksComplete_congr fun name => hsame _ (hlock name), hincomplete])
          obtain ⟨r, t', hexec, hsame', hr⟩ := hnext
          refine ⟨r, t', ?_, fun q hq => (hsame' q hq).trans (hsame q hq), hr⟩
          split at hexec
          · rename_i hstale
            rw [if_pos hstale, Tx.exec_update_bind]
            exact hexec
          · rename_i hstale
            rw [if_neg hstale]
            exact hexec

/-! ### The claim -/

/-- A slab that is finalised is in the final directory, file by file; one that is not is still
somewhere. -/
structure SlabKept (finalize : Tx FileTree FinalizeError Unit) (stagingDir finalDir : Path)
    (t : FileTree) : Prop where
  returned : ∀ t', finalize.exec t = (.ok (), t') → ∀ name content,
    t.get (stagingDir ++ [name]) = some (.file content) →
      t'.get (finalDir ++ [name]) = some (.file content)
  failed : ∀ e t', finalize.exec t = (.error e, t') → ∀ name content,
    t.get (stagingDir ++ [name]) = some (.file content) →
      t'.get (stagingDir ++ [name]) = some (.file content) ∨
        t'.get (finalDir ++ [name]) = some (.file content)

/-- When finalizing keeps the slab, for both callers: they differ in how they take the lock. The
directory looks complete with its marker, or with MDU #0 and the manifest alone, and then the staged
files that are not in it are lost. -/
theorem slabKept_iff {finalize : Tx FileTree FinalizeError Unit}
    (hfinalize : finalize = acquireLock pid stale stagingDir finalDir lockPath >>= fun lockHeld =>
      unlockAfter lockPath lockHeld (finalizeLocked stagingDir finalDir))
    (hsf : Apart stagingDir finalDir) (hfs : Apart finalDir stagingDir)
    (hlockf : Apart lockPath finalDir) (hlocks : Apart lockPath stagingDir)
    (hlockp : finalDir.dropLast ≠ lockPath)
    (hparent : t.isDir finalDir.dropLast = true) (hne : finalDir.dropLast ≠ finalDir)
    (hstaged : Staged stagingDir t)
    (hdir : mode2DirLooksComplete t finalDir = true → t.get finalDir = some .dir) :
    SlabKept finalize stagingDir finalDir t ↔ mode2DirLooksComplete t finalDir = false ∨
      ∀ name content, t.get (stagingDir ++ [name]) = some (.file content) →
        t.get (finalDir ++ [name]) = some (.file content) ∨
          name = mode2SlabCompleteMarker ∧ t.get (finalDir ++ [name]) = none := by
  subst hfinalize
  by_cases hcomplete : mode2DirLooksComplete t finalDir = true
  · obtain ⟨t', hexec, hget⟩ :=
      @exec_of_complete pid stale stagingDir finalDir lockPath t (hdir hcomplete) hsf
      hcomplete
    -- what was staged must be there, or be the marker that is added
    constructor
    · refine fun h => Or.inr fun name content hname => ?_
      have hkept := h.returned t' hexec name content hname
      rw [hget] at hkept
      split at hkept
      · rename_i hmarker
        exact Or.inr hmarker
      · exact Or.inl hkept
    -- and what is there is kept
    · rintro (h | h)
      · exact absurd (h.symm.trans hcomplete) (by decide)
      · constructor
        · intro t'' h' name content hname
          obtain ⟨-, rfl⟩ := Prod.mk.inj (hexec.symm.trans h')
          rw [hget]
          rcases h name content hname with hthere | hmarker
          · rw [if_neg (by rw [hthere]; simp), hthere]
          · rw [if_pos hmarker, ← hname, hmarker.1, hstaged.marker]
        · intro e t'' h'
          exact absurd (Prod.mk.inj (hexec.symm.trans h')).1 (by simp)
  -- otherwise the staged slab takes its place, when the lock can be had
  · rw [Bool.not_eq_true] at hcomplete
    refine iff_of_true ?_ (Or.inl hcomplete)
    obtain ⟨r, t₁, hexec, hsame, hr⟩ := @lockAttempts_spec pid stale stagingDir finalDir lockPath t
      (fun name => hlockf.ne [name]) 80 hcomplete
    have hacquire : (acquireLock pid stale stagingDir finalDir lockPath).exec t = (r, t₁) := by
      rw [acquireLock, Tx.exec_gets_bind, hcomplete, if_neg (by decide)]
      exact hexec
    -- the attempts for the lock have not touched the staged files
    have hstaging : ∀ name, t₁.get (stagingDir ++ [name]) = t.get (stagingDir ++ [name]) :=
      fun name => hsame _ (hlocks.ne [name])
    rcases hr with rfl | ⟨e, rfl⟩
    · -- the lock is held: nothing fails from here on
      have hstaged₁ : Staged stagingDir t₁ := by
        refine ⟨?_, fun name node h => hstaged.flat name node (hstaging name ▸ h),
          (hstaging _).trans hstaged.marker⟩
        have hne := hlocks.ne []
        rw [List.append_nil] at hne
        rw [hsame _ hne, hstaged.dir]
      obtain ⟨t₂, hlocked, hmoved⟩ := @finalizeLocked_spec stagingDir finalDir t₁ hsf hfs
        (by rw [FileTree.isDir, hsame _ hlockp]; exact hparent) hne hstaged₁
        (by rw [looksComplete_congr fun name => hsame _ (hlockf.ne [name]), hcomplete])
      have hrun : (acquireLock pid stale stagingDir finalDir lockPath >>= fun lockHeld =>
          unlockAfter lockPath lockHeld (finalizeLocked stagingDir finalDir)).exec t =
          (.ok (), (t₂.removeOne lockPath).getD t₂) := by
        rw [Tx.exec_bind, hacquire]
        simp only [exec_unlockAfter, hlocked, if_true]
      constructor
      · intro t' h' name content hname
        obtain ⟨-, rfl⟩ := Prod.mk.inj (hrun.symm.trans h')
        rw [sameOff_removeOne lockPath t₂ _ (hlockf.ne [name])]
        exact hmoved name _ ((hstaging name).trans hname)
      · intro e t' h'
        exact absurd (Prod.mk.inj (hrun.symm.trans h')).1 (by simp)
    -- without the lock nothing is finalized, and the staged files stay
    · have hrun : (acquireLock pid stale stagingDir finalDir lockPath >>= fun lockHeld =>
          unlockAfter lockPath lockHeld (finalizeLocked stagingDir finalDir)).exec t =
            (.error e, t₁) := by
        rw [Tx.exec_bind, hacquire]
      constructor
      · intro t' h'
        exact absurd (Prod.mk.inj (hrun.symm.trans h')).1 (by simp)
      · intro e' t' h' name content hname
        obtain ⟨-, rfl⟩ := Prod.mk.inj (hrun.symm.trans h')
        exact Or.inl ((hstaging name).trans hname)

end Finalize

/-- The name that `os.MkdirTemp` makes of `staging-`. -/
def stagingName (random : UInt32) : Str := "staging-".toList ++ decimal random.toNat

/-- No staging directory has the name of a slab. -/
theorem stagingName_ne_hexEncode (random : UInt32) (key : Bytes) :
    stagingName random ≠ hexEncode key := by
  intro h
  have hdecode := hexDecode_hexEncode key
  rw [← h] at hdecode
  cases hdecode

/-- No lock has the name of what it locks. -/
theorem lockName_ne (base : Str) : lockName base ≠ base := by
  intro h
  have hlen := congrArg List.length h
  have hdot : ".".toList.length = 1 := rfl
  rw [lockName, List.length_append, List.length_append, hdot] at hlen
  omega

/-- A staged slab is kept exactly when the final directory does not look complete yet, or has every
staged file; a missing marker does no harm. This holds for every tree that the other uploads may
have left, with or without a lock. -/
theorem finalize_keeps_slab (pid : Nat) (stale : Nat → Bool) (parent : Path)
    (random : UInt32) (key : Bytes)
    (slab : Mode2Slab) (t : FileTree) (hwf : t.WellFormed) (hparent : t.isDir parent = true)
    (hfresh : t.get (parent ++ [stagingName random]) = none) :
    SlabKept (mode2FinalizeStagingDir pid stale parent (stagingName random) (hexEncode key))
        (parent ++ [stagingName random]) (parent ++ [hexEncode key])
        (stageSlab slab (parent ++ [stagingName random]) t) ↔
      mode2DirLooksComplete t (parent ++ [hexEncode key]) = false ∨
      ∀ name content,
        (stageSlab slab (parent ++ [stagingName random]) t).get
          (parent ++ [stagingName random] ++ [name]) =
          some (.file content) →
        t.get (parent ++ [hexEncode key] ++ [name]) = some (.file content) ∨
          name = mode2SlabCompleteMarker ∧ t.get (parent ++ [hexEncode key] ++ [name]) = none := by
  -- the staging directory, the lock and the slab have different names
  have hnames := stagingName_ne_hexEncode random key
  have hlock : lockName (hexEncode key) ≠ stagingName random := by
    intro h
    exact absurd (List.head_eq_of_cons_eq h) (by decide)
  have hsf : Apart (parent ++ [stagingName random]) (parent ++ [hexEncode key]) :=
    apart_siblings hnames
  -- staging does not touch the final directory
  have hfinal : ∀ r,
      (stageSlab slab (parent ++ [stagingName random]) t).get (parent ++ [hexEncode key] ++ r) =
      t.get (parent ++ [hexEncode key] ++ r) := fun r => get_stageSlab (hsf r)
  have hfinal₀ := hfinal []
  rw [List.append_nil] at hfinal₀
  have hlooks : mode2DirLooksComplete (stageSlab slab (parent ++ [stagingName random]) t)
      (parent ++ [hexEncode key]) = mode2DirLooksComplete t (parent ++ [hexEncode key]) :=
    looksComplete_congr fun name => hfinal [name]
  have hparent' : (stageSlab slab (parent ++ [stagingName random]) t).isDir parent = true := by
    rw [FileTree.isDir, get_stageSlab fun hpre => absurd hpre.length_le (by simp)]
    exact hparent
  -- so the general statement is about the tree before the staging
  have hiff := @slabKept_iff pid stale (parent ++ [stagingName random]) (parent ++ [hexEncode key])
    (parent ++ [lockName (hexEncode key)]) (stageSlab slab (parent ++ [stagingName random]) t)
    (mode2FinalizeStagingDir pid stale parent (stagingName random) (hexEncode key)) rfl hsf
    (apart_siblings hnames.symm) (apart_siblings (lockName_ne _)) (apart_siblings hlock)
    (by rw [List.dropLast_concat]; simp) (by rw [List.dropLast_concat]; exact hparent')
    (by rw [List.dropLast_concat]; simp) (staged_stageSlab slab hwf (by simp) hfresh)
    (fun h => hfinal₀.trans (dir_of_looksComplete hwf (by simp) (hlooks ▸ h)))
  rw [hiff, hlooks]
  simp only [hfinal]

/-! ### A run -/

/-- A slab of one user MDU on one slot. -/
def sampleSlab : Mode2Slab := ⟨List.replicate mduSize 0, [], [[[1]]], List.replicate blobSize 0⟩

/-- The key of the samples. -/
def sampleKey : Bytes := 0xc0 :: List.replicate 47 0

/-- A directory into which MDU #0 and the manifest were uploaded, and no shard. -/
def uploadedTree (dir : Str) (mdu0 manifest : Bytes) : FileTree :=
  ((KVStore.empty.set [dir] Node.dir).set [dir, "mdu_0.bin".toList] (.file mdu0)).set
    [dir, "manifest.bin".toList] (.file manifest)

/-- What the sample tree holds: a directory with two files. -/
theorem get_uploadedTree (dir : Str) (mdu0 manifest : Bytes) (q : Path) :
    (uploadedTree dir mdu0 manifest).get q =
      if q = [dir, "manifest.bin".toList] then some (.file manifest)
      else if q = [dir, "mdu_0.bin".toList] then some (.file mdu0)
      else if q = [dir] then some .dir else none := by
  rw [uploadedTree, KVStore.get_set, KVStore.get_set, KVStore.get_set, KVStore.get_empty]
  split_ifs <;> rfl

/-- The sample tree is well formed. -/
theorem uploadedTree_wellFormed (dir : Str) (mdu0 manifest : Bytes) :
    (uploadedTree dir mdu0 manifest).WellFormed := by
  have hdir : (uploadedTree dir mdu0 manifest).isDir [dir] = true := by
    rw [FileTree.isDir, get_uploadedTree]
    simp
  intro q node hq
  rw [get_uploadedTree] at hq
  split at hq
  · rename_i h
    rw [h]
    exact hdir
  · split at hq
    · rename_i h
      rw [h]
      exact hdir
    · split at hq
      · rename_i h
        rw [h]
        rfl
      · cases hq

/-- The sample directory looks complete, without a slab behind it. -/
theorem uploadedTree_complete {dir : Str} {mdu0 manifest : Bytes} (h0 : mdu0.length = mduSize)
    (hm : manifest.length = blobSize) : mode2DirLooksComplete (uploadedTree dir mdu0 manifest)
    [dir] = true := by
  have hmdu0 : (uploadedTree dir mdu0 manifest).fileSize [dir, "mdu_0.bin".toList] =
      some mduSize := by
    rw [FileTree.fileSize, get_uploadedTree, if_neg (by simp), if_pos rfl]
    exact congrArg some h0
  have hmanifest : (uploadedTree dir mdu0 manifest).fileSize [dir, "manifest.bin".toList] =
      some blobSize := by
    rw [FileTree.fileSize, get_uploadedTree, if_pos rfl]
    exact congrArg some hm
  rw [mode2DirLooksComplete, List.singleton_append, List.singleton_append, List.singleton_append,
    hmdu0, hmanifest, Option.any_some, Option.any_some, decide_eq_true rfl]
  exact Bool.or_eq_true_iff.mpr (Or.inr (by decide))

/-- An MDU #0 of another size makes no complete slab. -/
theorem uploadedTree_incomplete {dir : Str} {mdu0 : Bytes} (manifest : Bytes)
    (h0 : mdu0.length ≠ mduSize) :
    mode2DirLooksComplete (uploadedTree dir mdu0 manifest) [dir] = false := by
  have hmarker : (uploadedTree dir mdu0 manifest).get [dir, mode2SlabCompleteMarker] = none := by
    have hne : ∀ name : Str, mode2SlabCompleteMarker ≠ name →
        [dir, mode2SlabCompleteMarker] ≠ [dir, name] := fun name hname heq =>
      hname (List.cons.inj (List.cons.inj heq).2).1
    rw [get_uploadedTree, if_neg (hne _ (by decide)), if_neg (hne _ (by decide)), if_neg (by simp)]
  have hmdu0 : (uploadedTree dir mdu0 manifest).fileSize [dir, "mdu_0.bin".toList] =
      some mdu0.length := by
    rw [FileTree.fileSize, get_uploadedTree, if_neg (by simp), if_pos rfl]
  rw [mode2DirLooksComplete, List.singleton_append, List.singleton_append, List.singleton_append,
    hmarker, hmdu0, Option.any_some, decide_eq_false h0]
  rfl

/-- Over what an interrupted upload has left in the final directory, a slab is kept. -/
theorem finalize_keeps_slab_interrupted :
    SlabKept (mode2FinalizeStagingDir 1 (fun _ => false) [] (stagingName 0) (hexEncode sampleKey))
      [stagingName 0] [hexEncode sampleKey]
      (stageSlab sampleSlab [stagingName 0] (uploadedTree (hexEncode sampleKey) [1, 2] [3])) := by
  have hfresh : (uploadedTree (hexEncode sampleKey) [1, 2] [3]).get ([] ++ [stagingName 0]) =
      none := by
    rw [List.nil_append, get_uploadedTree, if_neg (by simp), if_neg (by simp),
      if_neg (by simpa using stagingName_ne_hexEncode 0 sampleKey)]
  exact (finalize_keeps_slab 1 (fun _ => false) [] 0 sampleKey sampleSlab
    (uploadedTree (hexEncode sampleKey) [1, 2] [3]) (uploadedTree_wellFormed _ _ _) rfl hfresh).mpr
      (Or.inl (uploadedTree_incomplete [3] (by decide)))

/-- With MDU #0 and the manifest in the final directory, the shards of the staged slab are dropped:
the directory has no marker, but it looks complete. -/
theorem staged_shard_dropped :
    ¬∀ (pid : Nat) (stale : Nat → Bool) (parent : Path) (random : UInt32) (key : Bytes)
    (slab : Mode2Slab)
      (t : FileTree), t.WellFormed → t.isDir parent = true →
        t.get (parent ++ [stagingName random]) = none →
      SlabKept (mode2FinalizeStagingDir pid stale parent (stagingName random) (hexEncode key))
        (parent ++ [stagingName random]) (parent ++ [hexEncode key])
        (stageSlab slab (parent ++ [stagingName random]) t) := by
  intro h
  -- the names are different, and the rest does not look into them
  have hnames := stagingName_ne_hexEncode 0 sampleKey
  generalize hbase : hexEncode sampleKey = base at hnames
  have hfresh : (uploadedTree base (List.replicate mduSize 0) (List.replicate blobSize 0)).get
      [stagingName 0] =
      none := by
    rw [get_uploadedTree, if_neg (by simp), if_neg (by simp), if_neg (by simpa using hnames)]
  have hkept :=
    h 1 (fun _ => false) [] 0 sampleKey sampleSlab _ (uploadedTree_wellFormed base _ _) rfl hfresh
  rw [hbase, List.nil_append, List.nil_append] at hkept
  have hsf : Apart [stagingName 0] [base] := @apart_siblings [] _ _ hnames
  generalize ht : uploadedTree base (List.replicate mduSize 0) (List.replicate blobSize 0) =
    t at hkept
  have hfinal : ∀ r, (stageSlab sampleSlab [stagingName 0] t).get ([base] ++ r) =
      t.get ([base] ++ r) :=
    fun r => get_stageSlab (hsf r)
  -- the final directory looks complete, though it has no shard
  have hcomplete : mode2DirLooksComplete (stageSlab sampleSlab [stagingName 0] t) [base] =
      true := by
    rw [looksComplete_congr fun name => hfinal [name], ← ht]
    exact uploadedTree_complete List.length_replicate List.length_replicate
  have hdir : (stageSlab sampleSlab [stagingName 0] t).get [base] = some .dir := by
    rw [← List.append_nil [base], hfinal, List.append_nil, ← ht, get_uploadedTree]
    simp
  obtain ⟨t', hexec, hget⟩ := @exec_of_complete 1 (fun _ => false) [stagingName 0] [base]
    [lockName base] _ hdir hsf hcomplete
  -- the staged slab has one
  have hshard : (stageSlab sampleSlab [stagingName 0] t).get
      ([stagingName 0] ++ ["mdu_1_slot_0.bin".toList]) =
      some (.file [1]) := by
    have hfiles : stagedFiles sampleSlab = [("mdu_1_slot_0.bin".toList, [1]),
        ("mdu_0.bin".toList, List.replicate mduSize 0),
        ("manifest.bin".toList, List.replicate blobSize 0),
        (mode2SlabCompleteMarker, markerContent)] := rfl
    have hne : ∀ name : Str, "mdu_1_slot_0.bin".toList ≠ name →
        [stagingName 0] ++ ["mdu_1_slot_0.bin".toList] ≠ [stagingName 0] ++ [name] := by
      intro name hname
      simpa using hname
    rw [stageSlab, hfiles, List.foldl_cons, List.foldl_cons, List.foldl_cons, List.foldl_cons,
      List.foldl_nil,
      KVStore.get_set_ne _ (hne _ (by decide)), KVStore.get_set_ne _ (hne _ (by decide)),
      KVStore.get_set_ne _ (hne _ (by decide)), KVStore.get_set_self]
  -- and it should be in the final directory now
  have hmissing := hkept.returned t' hexec _ _ hshard
  rw [hget, if_neg (fun hmarker => absurd hmarker.1 (by decide)), hfinal, ← ht, get_uploadedTree,
    if_neg (by simp), if_neg (by simp), if_neg (by simp)] at hmissing
  cases hmissing

end NilStore.Gateway.Staging
