import Mathlib.Data.List.Infix
import NilStore.Lib.GoString
import NilStore.Lib.KVStore

/-!
# `NilStore.Lib.FileTree`: a tree of files

A path is the list of its components, from the root down, and a tree has a file or a directory at
some paths. The operations are those of a file system on one volume: they fail where a file or a
directory is in the way, and `rename` is one step.

What an operation does is stated by the node at each path afterwards (`get_mkdirAll_of_some`,
`get_removeAll`, `get_moveDir`).
-/

set_option autoImplicit false

namespace NilStore.Lib

/-! ### Stores by keys -/

namespace KVStore

variable {κ ν : Type} [LinearOrder κ]

/-- Removing a path leaves every other path alone. -/
theorem get_remove_ne (m : KVStore κ ν) {k k' : κ} (h : k' ≠ k) :
    (m.remove k).get k' = m.get k' := by
  rw [get_remove, if_neg h]

/-- The entries whose keys are kept. -/
def filterKeys (m : KVStore κ ν) (keep : κ → Bool) : KVStore κ ν :=
  ⟨m.entries.filter fun e => keep e.1, m.sorted.filter _⟩

/-- Filtering by key keeps exactly the entries whose key passes. -/
theorem get_filterKeys (m : KVStore κ ν) (keep : κ → Bool) (k : κ) :
    (m.filterKeys keep).get k = if keep k then m.get k else none := by
  refine Option.ext fun v => ?_
  rw [← mem_entries, filterKeys]
  simp only [List.mem_filter]
  rw [mem_entries]
  split
  · rename_i hkeep
    exact ⟨fun h => h.1, fun h => ⟨h, hkeep⟩⟩
  · rename_i hkeep
    exact ⟨fun h => absurd h.2 hkeep, fun h => nomatch h⟩

/-- The store that has the values of a function at the given keys. -/
def ofKeys (keys : List κ) (f : κ → Option ν) : KVStore κ ν :=
  keys.foldl (fun m k => match f k with
    | some v => m.set k v
    | none => m) empty

/-- A map built from a list of keys has an entry for a key of the list where the function gives
one. -/
theorem get_ofKeys (keys : List κ) (f : κ → Option ν) (k : κ) :
    (ofKeys keys f).get k = if k ∈ keys then f k else none := by
  -- the loop, from any map: the last entry for the key is that of the function
  have hfold : ∀ m : KVStore κ ν, (keys.foldl (fun m k => match f k with
      | some v => m.set k v
      | none => m) m).get k = if k ∈ keys ∧ (f k).isSome then f k else m.get k := by
    induction keys with
    | nil => exact fun m => (if_neg fun h => List.not_mem_nil h.1).symm
    | cons a rest ih =>
        intro m
        rw [List.foldl_cons, ih]
        by_cases hk : k = a
        · subst hk
          cases hf : f k with
          | none => simp
          | some v => simp
        · have hmem : k ∈ a :: rest ↔ k ∈ rest := by simp [hk]
          simp only [hmem]
          congr 1
          cases f a with
          | none => rfl
          | some v => exact get_set_ne m hk v
  rw [ofKeys, hfold, get_empty]
  cases hf : f k with
  | none => simp
  | some v => simp

end KVStore

/-! ### Trees -/

/-- The components of a path. The root is the empty list. -/
abbrev Path := List Str

/-- What is at a path. -/
inductive Node where
  | file (content : Bytes)
  | dir
deriving DecidableEq

/-- A tree of files and directories. What is not a key does not exist. -/
abbrev FileTree := KVStore Path Node

namespace FileTree

/-- The size that `stat` gives for a regular file. -/
def fileSize (t : FileTree) (p : Path) : Option Nat :=
  match t.get p with
  | some (.file content) => some content.length
  | _ => none

/-- The root is a directory. -/
def isDir (t : FileTree) (p : Path) : Bool := p = [] ∨ t.get p = some .dir

/-- The names in a directory, in their order. -/
def readDir (t : FileTree) (p : Path) : List Str :=
  t.entries.filterMap fun e => if e.1 ≠ [] ∧ e.1.dropLast = p then e.1.getLast? else none

/-- The path and what is below it goes. It is no error when there is nothing. -/
def removeAll (t : FileTree) (p : Path) : FileTree := t.filterKeys fun q => !p.isPrefixOf q

/-- The path becomes a directory, and so does every path above it. -/
def mkdirAll (t : FileTree) (p : Path) : Option FileTree :=
  (p.inits.filter (· ≠ [])).foldlM (fun t q => match t.get q with
    | some .dir => some t
    | some (.file _) => none
    | none => some (t.set q .dir)) t

/-- The tree at `src` stands at `dst`. What was at `dst` before is replaced. -/
def moveDir (t : FileTree) (src dst : Path) : FileTree :=
  KVStore.ofKeys (t.entries.map fun e =>
      if src <+: e.1 then dst ++ e.1.drop src.length else e.1) fun q =>
    if dst <+: q then t.get (src ++ q.drop dst.length) else if src <+: q then none else t.get q

/-- A file takes the place of another one, and a directory goes where nothing is. A directory in the
place of the target is in the way of both. -/
def rename (t : FileTree) (src dst : Path) : Option FileTree :=
  match t.get src with
  | none => none
  | some (.file content) =>
      if t.get dst = some .dir ∨ t.isDir dst.dropLast = false then none
      else some ((t.remove src).set dst (.file content))
  | some .dir =>
      if src <+: dst ∨ (t.get dst).isSome ∨ t.isDir dst.dropLast = false then none
      else some (t.moveDir src dst)

/-- A file goes, or a directory that is empty. -/
def removeOne (t : FileTree) (p : Path) : Option FileTree :=
  match t.get p with
  | none => none
  | some (.file _) => some (t.remove p)
  | some .dir => if t.readDir p = [] then some (t.remove p) else none

/-- A file with these bytes is written, unless a directory is in its place. -/
def writeFile (t : FileTree) (p : Path) (content : Bytes) : Option FileTree :=
  if t.get p = some .dir ∨ t.isDir p.dropLast = false then none else some (t.set p (.file content))

/-- `filepath.Join` of a clean path and a name that may have slashes. -/
def join (p : Path) (name : Str) : Path :=
  (name.splitOn '/').foldl (fun p c =>
    if c = [] ∨ c = ['.'] then p else if c = ['.', '.'] then p.dropLast else p ++ [c]) p

/-- A name without slashes is one more component. -/
theorem join_of_not_mem {p : Path} {name : Str} (h : '/' ∉ name) (hne : name ≠ [])
    (hdot : name ≠ ['.']) (hdots : name ≠ ['.', '.']) : join p name = p ++ [name] := by
  rw [join, List.splitOn_eq_singleton h, List.foldl_cons, List.foldl_nil,
    if_neg (not_or.mpr ⟨hne, hdot⟩), if_neg hdots]

/-- A directory lists exactly the names of the entries right below it. -/
theorem mem_readDir {t : FileTree} {p : Path} {name : Str} :
    name ∈ t.readDir p ↔ (t.get (p ++ [name])).isSome := by
  rw [readDir, List.mem_filterMap]
  constructor
  · rintro ⟨⟨q, node⟩, hmem, heq⟩
    simp only at heq
    split at heq
    · rename_i hcond
      have hq : q = p ++ [name] := by
        have happend := List.dropLast_append_getLast? name heq
        rw [hcond.2] at happend
        exact happend.symm
      rw [← hq, KVStore.mem_entries.mp hmem]
      rfl
    · cases heq
  · intro h
    obtain ⟨node, hnode⟩ := Option.isSome_iff_exists.mp h
    refine ⟨(p ++ [name], node), KVStore.mem_entries.mpr hnode, ?_⟩
    rw [if_pos ⟨by simp, by simp⟩, List.getLast?_append, List.getLast?_singleton, Option.some_or]

/-- `os.RemoveAll` removes a path with everything below it and nothing else. -/
theorem get_removeAll (t : FileTree) (p q : Path) :
    (t.removeAll p).get q = if p <+: q then none else t.get q := by
  rw [removeAll, KVStore.get_filterKeys]
  by_cases h : p <+: q
  · rw [if_pos h, if_neg]
    simp [List.isPrefixOf_iff_prefix.mpr h]
  · rw [if_neg h, if_pos]
    rw [Bool.not_eq_true', Bool.eq_false_iff]
    exact fun hpre => h (List.isPrefixOf_iff_prefix.mp hpre)

/-- Moving a directory brings what lay below the source to the target and clears the source. -/
theorem get_moveDir (t : FileTree) (src dst q : Path) :
    (t.moveDir src dst).get q =
      if dst <+: q then t.get (src ++ q.drop dst.length) else if src <+: q then none
        else t.get q := by
  rw [moveDir, KVStore.get_ofKeys]
  split
  · rfl
  · rename_i hnot
    -- A path that is not listed has nothing to move to it.
    by_contra hne
    apply hnot
    rw [List.mem_map]
    -- a path below the target, one below the source, and any other
    split at hne
    · rename_i hdst
      obtain ⟨node, hnode⟩ := Option.ne_none_iff_exists'.mp (Ne.symm hne)
      refine ⟨(src ++ q.drop dst.length, node), KVStore.mem_entries.mpr hnode, ?_⟩
      obtain ⟨r, rfl⟩ := hdst
      rw [if_pos (List.prefix_append _ _), List.drop_left, List.drop_left]
    · split at hne
      · exact absurd rfl hne
      · rename_i hsrc
        obtain ⟨node, hnode⟩ := Option.ne_none_iff_exists'.mp (Ne.symm hne)
        exact ⟨(q, node), KVStore.mem_entries.mpr hnode, if_neg hsrc⟩

/-- Making directories leaves what is there, and adds nothing but directories above the path. Where
a file is in the way, the call fails, so all the paths are directories afterwards. -/
theorem get_mkdirAll_of_some {t t' : FileTree} {p : Path} (h : t.mkdirAll p = some t') :
    (∀ q node, t.get q = some node → t'.get q = some node) ∧
      (∀ q, ¬(q <+: p ∧ q ≠ []) → t'.get q = t.get q) ∧ ∀ q, q <+: p → q ≠ [] →
        t'.get q = some .dir := by
  -- the loop over the paths above, from the top down
  have hfold : ∀ (qs : List Path) {t t' : FileTree}, qs.foldlM (fun t q => match t.get q with
      | some .dir => some t
      | some (.file _) => none
      | none => some (t.set q .dir)) t = some t' →
      (∀ q node, t.get q = some node → t'.get q = some node) ∧ (∀ q, q ∉ qs → t'.get q = t.get q) ∧
        ∀ q ∈ qs, t'.get q = some .dir := by
    intro qs
    induction qs with
    | nil =>
        intro t t' h
        cases h
        exact ⟨fun q node hq => hq, fun q _ => rfl, nofun⟩
    | cons a rest ih =>
        intro t t' h
        rw [List.foldlM_cons, Option.bind_eq_bind, Option.bind_eq_some_iff] at h
        obtain ⟨next, hnext, h⟩ := h
        obtain ⟨hkeep, hsame, hdirs⟩ := ih h
        -- one step: a directory is there already, or it is made
        have hstep : (∀ q node, t.get q = some node → next.get q = some node) ∧
            (∀ q, q ≠ a → next.get q = t.get q) ∧ next.get a = some .dir := by
          split at hnext
          · rename_i hdir
            cases hnext
            exact ⟨fun q node hq => hq, fun q _ => rfl, hdir⟩
          · cases hnext
          · rename_i hnone
            cases hnext
            refine ⟨fun q node hq => ?_, fun q hq =>
              KVStore.get_set_ne t hq .dir, KVStore.get_set_self t a .dir⟩
            rw [KVStore.get_set_ne t (fun heq => by rw [heq, hnone] at hq; cases hq) .dir]
            exact hq
        refine ⟨fun q node hq => hkeep q node (hstep.1 q node hq), fun q hq => ?_, fun q hq => ?_⟩
        · rw [List.mem_cons, not_or] at hq
          rw [hsame q hq.2, hstep.2.1 q hq.1]
        · rcases List.mem_cons.mp hq with rfl | hq
          · exact hkeep q _ hstep.2.2
          · exact hdirs q hq
  obtain ⟨hkeep, hsame, hdirs⟩ := hfold _ h
  refine ⟨hkeep, fun q hq => hsame q fun hmem => hq ?_, fun q hpre hne => hdirs q ?_⟩
  · obtain ⟨hinit, hne⟩ := List.mem_filter.mp hmem
    exact ⟨(List.mem_inits _ _).mp hinit, of_decide_eq_true hne⟩
  · exact List.mem_filter.mpr ⟨(List.mem_inits _ _).mpr hpre, decide_eq_true hne⟩

/-- After `os.MkdirAll` succeeded the path is a directory. -/
theorem isDir_mkdirAll {t t' : FileTree} {p : Path} (h : t.mkdirAll p = some t') :
    t'.isDir p = true := by
  rw [isDir]
  by_cases hp : p = []
  · exact decide_eq_true (Or.inl hp)
  · exact decide_eq_true (Or.inr ((get_mkdirAll_of_some h).2.2 p List.prefix_rfl hp))

/-- Making directories makes no file. -/
theorem fileSize_mkdirAll {t t' : FileTree} {p : Path} (h : t.mkdirAll p = some t') (q : Path) :
    t'.fileSize q = t.fileSize q := by
  obtain ⟨hkeep, hsame, hdirs⟩ := get_mkdirAll_of_some h
  rw [fileSize, fileSize]
  by_cases hq : q <+: p ∧ q ≠ []
  · cases hnode : t.get q with
    | some node => rw [hkeep q node hnode]
    | none => rw [hdirs q hq.1 hq.2]
  · rw [hsame q hq]

/-- A directory lists no name twice. -/
theorem nodup_readDir (t : FileTree) (p : Path) : (t.readDir p).Nodup := by
  have hkeys : (t.entries.map Prod.fst).Nodup :=
    List.pairwise_map.mpr (t.sorted.imp fun h => ne_of_lt h)
  have hread : t.readDir p = (t.entries.map Prod.fst).filterMap fun q =>
      if q ≠ [] ∧ q.dropLast = p then q.getLast? else none := by
    rw [List.filterMap_map]
    rfl
  rw [hread]
  refine hkeys.filterMap fun q q' name hq hq' => ?_
  have hpath : ∀ {q : Path}, name ∈ (if q ≠ [] ∧ q.dropLast = p then q.getLast? else none) →
      q = p ++ [name] := by
    intro q hq
    split at hq
    · rename_i hcond
      have happend := List.dropLast_append_getLast? name hq
      rw [hcond.2] at happend
      exact happend.symm
    · cases hq
  rw [hpath hq, hpath hq']

/-! ### Trees whose nodes lie in directories -/

/-- What is not the root is in a directory. -/
def WellFormed (t : FileTree) : Prop := ∀ q node, t.get q = some node → t.isDir q.dropLast = true

/-- Nothing is below what is no directory. -/
theorem WellFormed.get_below {t : FileTree} (h : t.WellFormed) {p : Path} (hp : p ≠ [])
    (hdir : t.get p ≠ some .dir) {r : Path} (hr : r ≠ []) : t.get (p ++ r) = none := by
  induction r using List.reverseRecOn with
  | nil => exact absurd rfl hr
  | append_singleton r name ih =>
      by_contra hne
      obtain ⟨node, hnode⟩ := Option.ne_none_iff_exists'.mp hne
      have hparent := h _ node hnode
      rw [← List.append_assoc, List.dropLast_concat, isDir, decide_eq_true_iff] at hparent
      rcases hparent with hnil | hparent
      · exact hp (List.append_eq_nil_iff.mp hnil).1
      · by_cases hr' : r = []
        · rw [hr', List.append_nil] at hparent
          exact hdir hparent
        · rw [ih hr'] at hparent
          cases hparent

/-- Renaming a directory onto a free path with an existing parent moves its whole tree. -/
theorem rename_dir {t : FileTree} {src dst : Path} (hsrc : t.get src = some .dir)
    (hpre : ¬src <+: dst) (hdst : t.get dst = none) (hparent : t.isDir dst.dropLast = true) :
    t.rename src dst = some (t.moveDir src dst) := by
  rw [rename, hsrc]
  refine if_neg (not_or.mpr ⟨hpre, not_or.mpr ⟨by rw [hdst]; decide, ?_⟩⟩)
  rw [hparent]
  decide

/-- Renaming a file replaces a file at the target, but never a directory. -/
theorem rename_file {t : FileTree} {src dst : Path} {content : Bytes}
    (hsrc : t.get src = some (.file content))
    (hdst : t.get dst ≠ some .dir) (hparent : t.isDir dst.dropLast = true) :
    t.rename src dst = some ((t.remove src).set dst (.file content)) := by
  rw [rename, hsrc]
  refine if_neg (not_or.mpr ⟨hdst, ?_⟩)
  rw [hparent]
  decide

end FileTree

end NilStore.Lib
