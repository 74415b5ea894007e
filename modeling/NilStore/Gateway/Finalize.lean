import NilStore.Gateway.Mode2Ingest
import NilStore.Gateway.SpUploads

/-!
# `NilStore.Gateway.Finalize`: a staged slab takes its place

A build writes the files of its slab into a staging directory, which `mode2FinalizeStagingDir` of
`nil_gateway/ingest_mode2.go` then renames to the directory of the manifest root. That directory may
be there already, from uploads or from another build: if it looks complete the staged slab is thrown
away, and else the staged files are moved into it, or it is replaced.

The functions run as transactions on a `FileTree` that leave their writes when they fail. One
process finalises, so another one's lock file does not go away by itself; whether it is older than
two minutes is told for each attempt.
-/

set_option autoImplicit false

namespace NilStore.Gateway.Staging

open NilStore.Lib NilStore.Core NilStore.Gateway

/-! ### The staging directory -/

/-- `mode2SlabCompleteMarker`. The file says that the slab around it was written to the end. -/
def mode2SlabCompleteMarker : Str := ".slab_complete".toList

/-- What is written into the marker. Only the existence of the marker is looked at. -/
def markerContent : Bytes := utf8 "ok\n".toList

/-- The files of a build, in the order of their writes. -/
def stagedFiles (slab : Mode2Slab) : List (Str × Bytes) :=
  (slab.userShards.mapIdx fun i shards => shards.mapIdx fun slot shard =>
    ("mdu_".toList ++ decimal (1 + slab.witnessMdus.length + i : Nat) ++ "_slot_".toList ++
      decimal slot ++ ".bin".toList, shard)).flatten ++
  (slab.witnessMdus.mapIdx fun i mdu =>
    ("mdu_".toList ++ decimal (1 + i : Nat) ++ ".bin".toList, mdu)) ++
  [("mdu_0.bin".toList, slab.mdu0), ("manifest.bin".toList, slab.manifest),
    (mode2SlabCompleteMarker, markerContent)]

/-- `os.MkdirTemp`, and then the writes. The marker is written last. -/
def stageSlab (slab : Mode2Slab) (stagingDir : Path) (t : FileTree) : FileTree :=
  (stagedFiles slab).foldl (fun t f => t.set (stagingDir ++ [f.1]) (.file f.2))
    (t.set stagingDir .dir)

/-! ### The checks of a directory -/

/-- `mode2DirLooksComplete`. Without a marker the sizes of two files are taken for a sign of a whole
slab. -/
def mode2DirLooksComplete (t : FileTree) (dir : Path) : Bool :=
  (t.get (dir ++ [mode2SlabCompleteMarker])).isSome ||
    (t.fileSize (dir ++ ["mdu_0.bin".toList])).any (fun size => size = mduSize) &&
      (t.fileSize (dir ++ ["manifest.bin".toList])).any (fun size => 0 < size ∧ size ≤ 2 ^ 20)

/-- `mode2EnsureCompleteMarker`. An error of the write is ignored. -/
def mode2EnsureCompleteMarker (dir : Path) (t : FileTree) : FileTree :=
  if (t.get (dir ++ [mode2SlabCompleteMarker])).isSome then t
  else (t.writeFile (dir ++ [mode2SlabCompleteMarker]) markerContent).getD t

/-! ### Finalising -/

/-- The errors of the finalisation, without their texts. -/
inductive FinalizeError where
  | lockFailed
  | lockTimeout
  | readDir
  | mkdir
  | copyFailed
  | tooDeep
  | renameFailed
deriving DecidableEq

/-- Whether an operation goes through. When it does not, the tree is as before. -/
def succeeds (f : FileTree → Option FileTree) : Tx FileTree FinalizeError Bool := fun t =>
  match f t with
  | some t' => (.ok true, t')
  | none => (.ok false, t)

/-- Whether a function returns no error. What it has done to the tree until then stays. -/
def returnsNil (x : Tx FileTree FinalizeError Unit) : Tx FileTree FinalizeError Bool := fun t =>
  match x.exec t with
  | (.ok _, t') => (.ok true, t')
  | (.error _, t') => (.ok false, t')

/-- One round of the loop of `mode2MergeStagingIntoFinal`. The recursion into a directory is a
parameter. -/
def mergeEntry (merge : Path → Path → Tx FileTree FinalizeError Unit) (stagingDir finalDir : Path)
    (name : Str) :
    Tx FileTree FinalizeError Unit := do
  let src := stagingDir ++ [name]
  let dst := finalDir ++ [name]
  if ← Tx.gets fun t => t.isDir src then
    Tx.updateOr (·.mkdirAll dst) .mkdir
    merge src dst
    Tx.update (·.removeAll src)
  else if ← succeeds (·.rename src dst) then return ()
  else
    -- what is in the way is overwritten
    Tx.update (·.removeAll dst)
    if ← succeeds (·.rename src dst) then return ()
    else
      Tx.updateOr (fun t => match t.get src with
        | some (.file content) => t.writeFile dst content
        | _ => none) .copyFailed
      Tx.update (·.remove src)

/-- The loop over the entries of a directory. The first error ends it. -/
def mergeEntries (merge : Path → Path → Tx FileTree FinalizeError Unit)
    (stagingDir finalDir : Path) :
    List Str → Tx FileTree FinalizeError Unit
  | [] => return ()
  | name :: names => do
      mergeEntry merge stagingDir finalDir name
      mergeEntries merge stagingDir finalDir names

/-- `mode2MergeStagingIntoFinal`, into directories of this depth. A staged file replaces what is
there, and what is not staged stays. -/
def mode2MergeStagingIntoFinal : Nat → Path → Path → Tx FileTree FinalizeError Unit
  | 0, _, _ => throw .tooDeep
  | depth + 1, stagingDir, finalDir => do
      Tx.failIf (¬(← Tx.gets fun t => t.isDir stagingDir)) .readDir
      let entries ← Tx.gets fun t => t.readDir stagingDir
      mergeEntries (mode2MergeStagingIntoFinal depth) stagingDir finalDir entries
      Tx.update (·.removeAll stagingDir)

/-- The name of the lock file of a directory. -/
def lockName (base : Str) : Str := ".".toList ++ base ++ ".lock".toList

/-- What is written into the lock file. It names the process that holds the lock. -/
def lockContent (pid : Nat) : Bytes := utf8 ("pid=".toList ++ decimal pid ++ "\n".toList)

/-- The staged slab is thrown away for the one that is there. -/
def keepExisting (stagingDir finalDir : Path) : Tx FileTree FinalizeError Unit := do
  Tx.update (mode2EnsureCompleteMarker finalDir)
  Tx.update (·.removeAll stagingDir)

section

variable (pid : Nat) (stale : Nat → Bool) (stagingDir finalDir lockPath : Path)

/-- The attempts to take the lock, this many of them. The answer is `lockHeld`. -/
def lockAttempts : Nat → Tx FileTree FinalizeError Bool
  | 0 => throw .lockTimeout
  | n + 1 => do
      if (← Tx.gets fun t => t.get lockPath).isNone then
        Tx.updateOr (fun t => t.writeFile lockPath (lockContent pid)) .lockFailed
        return true
      else if ← Tx.gets fun t => mode2DirLooksComplete t finalDir then
        keepExisting stagingDir finalDir
        return false
      else
        -- a lock that a crash has left
        if stale n then Tx.update fun t => (t.removeOne lockPath).getD t
        lockAttempts n

/-- `acquireLock`. The answer is `lockHeld`. It is false when the slab turned out to be there
already, and then the staged one is thrown away. -/
def acquireLock : Tx FileTree FinalizeError Bool := do
  if ← Tx.gets fun t => mode2DirLooksComplete t finalDir then
    keepExisting stagingDir finalDir
    return false
  else lockAttempts pid stale stagingDir finalDir lockPath 80

/-- What is done with the lock held. The rename is tried first, and a merge only into a directory
that is not complete. -/
def finalizeLocked : Tx FileTree FinalizeError Unit := do
  if ← succeeds (·.rename stagingDir finalDir) then return ()
  else
    match ← Tx.gets fun t => t.get finalDir with
    | none =>
        -- the destination is gone after the rename failed
        if ← succeeds (·.rename stagingDir finalDir) then return ()
        else throw .renameFailed
    | some .dir =>
        if ← Tx.gets fun t => mode2DirLooksComplete t finalDir then keepExisting stagingDir finalDir
        else
          let depth ← Tx.gets fun t => t.entries.length + 1
          if ← returnsNil (mode2MergeStagingIntoFinal depth stagingDir finalDir) then
            Tx.update (mode2EnsureCompleteMarker finalDir)
          else
            -- the merge has failed, so the old directory gives way to the new one
            Tx.update (·.removeAll finalDir)
            if ← succeeds (·.rename stagingDir finalDir) then
              Tx.update (mode2EnsureCompleteMarker finalDir)
            else throw .renameFailed
    | some (.file _) =>
        if ← succeeds (·.removeOne finalDir) then
          if ← succeeds (·.rename stagingDir finalDir) then return ()
          else throw .renameFailed
        else throw .renameFailed

/-- The deferred removal of the lock file. It is done after errors too. -/
def unlockAfter (lockHeld : Bool) (x : Tx FileTree FinalizeError Unit) :
    Tx FileTree FinalizeError Unit := fun t =>
  match x.exec t with
  | (r, t') => (r, if lockHeld then (t'.removeOne lockPath).getD t' else t')

end

/-- `mode2FinalizeStagingDir`, of two directories in `parent`. -/
def mode2FinalizeStagingDir (pid : Nat) (stale : Nat → Bool) (parent : Path) (staging base : Str) :
    Tx FileTree FinalizeError Unit := do
  let lockPath := parent ++ [lockName base]
  let lockHeld ← acquireLock pid stale (parent ++ [staging]) (parent ++ [base]) lockPath
  unlockAfter lockPath lockHeld (finalizeLocked (parent ++ [staging]) (parent ++ [base]))

end NilStore.Gateway.Staging
