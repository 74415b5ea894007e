import NilStore.Gateway.PlanSession
import NilStore.Lib.Loops
import NilStore.Lib.Tiling
import NilStore.Website.UseFetch

/-!
# `NilStore.Proofs.Downloads`: what a download puts together

The chunks of a download cut its range into pieces (`planDownload_spec`). They are fetched provider
by provider, so the Blob has the pieces in the order of `regroup` (`download_eq`). It is the range
of the file, for every file, exactly when no provider comes back after another one
(`fetchFile_range_iff`). In Mode 1 there is one provider. In Mode 2 with more than one data slot the
providers alternate from blob to blob, and a range of `K + 1` blobs in an MDU comes back in another
order.
-/

set_option autoImplicit false

namespace NilStore.Website

open NilStore.Lib

/-! ### The chunks of a range -/

/-- A chunk never goes beyond what is left of the range. -/
theorem nextChunkLen_le {rawMduCapacity blobSizeBytes absOffset remaining chunkLen : Nat}
    (h : nextChunkLen rawMduCapacity blobSizeBytes absOffset remaining = .ok chunkLen) :
    chunkLen ≤ remaining := by
  rw [nextChunkLen] at h
  obtain ⟨blobBoundary, -, h⟩ := except_bind_ok.mp h
  cases h
  omega

/-- The chunks stand one after the other, from the cursor to the end of what remains. The loop
refuses an empty chunk, so every one of them has bytes. -/
theorem planChunksFrom_tiles {fileStartOffset rawMduCapacity blobSizeBytes : Nat}
    (remaining : Nat) :
    ∀ {cursor : Nat} {chunks : List FileRangeChunk},
      planChunksFrom fileStartOffset rawMduCapacity blobSizeBytes cursor remaining = .ok chunks →
        Tiles FileRangeChunk.rangeStart FileRangeChunk.rangeLen cursor chunks
          (cursor + remaining) := by
  -- by what remains; each chunk takes some of it
  induction remaining using Nat.strong_induction_on with
  | _ remaining ih =>
      intro cursor chunks h
      rw [planChunksFrom] at h
      split at h
      · rename_i hpos
        obtain ⟨chunkLen, hlen, h⟩ := except_bind_ok.mp h
        have hle := nextChunkLen_le hlen
        -- an empty chunk is an error
        split at h
        · cases h
        · rename_i hne
          obtain ⟨rest, hrest, h⟩ := except_bind_ok.mp h
          cases h
          have htail := ih (remaining - chunkLen) (by omega) hrest
          have hend : cursor + chunkLen + (remaining - chunkLen) = cursor + remaining := by omega
          rw [hend] at htail
          exact ⟨rfl, Nat.pos_of_ne_zero hne, htail⟩
      · rename_i hzero
        cases h
        show cursor = cursor + remaining
        omega

/-- What `planNilfsFileRangeChunks` returns cuts the part of the range that is in the file. -/
theorem planNilfsFileRangeChunks_tiles {opts : ChunkOpts} {chunks : List FileRangeChunk}
    (h : planNilfsFileRangeChunks opts = .ok chunks) :
    opts.rangeStart < opts.fileSizeBytes ∧
      Tiles FileRangeChunk.rangeStart FileRangeChunk.rangeLen opts.rangeStart chunks
        (opts.rangeStart + min opts.rangeLen (opts.fileSizeBytes - opts.rangeStart)) := by
  simp only [planNilfsFileRangeChunks, except_bind_ok, rejectIf_eq_ok] at h
  obtain ⟨_, -, _, -, _, hstart, _, -, h⟩ := h
  exact ⟨Nat.lt_of_not_le hstart, planChunksFrom_tiles _ h⟩

/-! ### The plan of a download -/

/-- The pieces of a plan. -/
def PlannedTiles (lo : Nat) (chunks : List PlannedChunk) (hi : Nat) : Prop :=
  Tiles PlannedChunk.rangeStart PlannedChunk.rangeLen lo chunks hi

/-- A planned chunk is a chunk with the answer of the plan call. -/
theorem planChunk_range {env : FetchEnv} {file : FileRef} {c : FileRangeChunk}
    {planned : PlannedChunk} (h : planChunk env file c = .ok planned) :
    planned.rangeStart = c.rangeStart ∧ planned.rangeLen = c.rangeLen := by
  simp only [planChunk, except_bind_ok] at h
  obtain ⟨planJson, -, _, -, _, -, _, -, h⟩ := h
  cases h
  exact ⟨rfl, rfl⟩

/-- Planning the chunks one by one keeps the tiling of the range. -/
theorem Tiles.planned {env : FetchEnv} {file : FileRef} {lo hi : Nat} {chunks : List FileRangeChunk}
    {planned : List PlannedChunk}
    (hplanned : List.Forall₂ (fun c p => planChunk env file c = .ok p) chunks planned)
    (h : Tiles FileRangeChunk.rangeStart FileRangeChunk.rangeLen lo chunks hi) :
    PlannedTiles lo planned hi := by
  induction hplanned generalizing lo with
  | nil => exact h
  | cons hhead _ ih =>
      obtain ⟨hstart, hlen⟩ := planChunk_range hhead
      obtain ⟨heq, hpos, hrest⟩ := h
      exact ⟨hstart.trans heq, hlen ▸ hpos, hlen ▸ ih hrest⟩

/-- Either the layout of the file is known, and the pieces cut the part of the range that is in the
file, or there is one piece. Without the layout the page fetches the whole range at once. -/
theorem planDownload_spec {env : FetchEnv} {input : FetchInput} {plan : DownloadPlan}
    (h : planDownload env input = .ok plan) :
    (∃ size, input.fileSizeBytes = some size ∧ plan.rangeStart < size ∧
      PlannedTiles plan.rangeStart plan.plannedChunks
        (plan.rangeStart + min plan.rangeLen (size - plan.rangeStart))) ∨
      ∃ chunk, plan.plannedChunks = [chunk] ∧ chunk.rangeStart = plan.rangeStart ∧
        chunk.rangeLen = plan.rangeLen := by
  simp only [planDownload, except_bind_ok] at h
  obtain ⟨file, -, rangeLen, -, chunks, hchunks, plannedChunks, hplanned, h⟩ := h
  cases h
  have hplanned := forall₂_of_mapM_eq_ok hplanned
  rw [FetchInput.chunks] at hchunks
  split at hchunks
  · rename_i fileStartOffset fileSizeBytes mduSizeBytes blobSizeBytes _ hsize _ _
    obtain ⟨hstart, htiles⟩ := planNilfsFileRangeChunks_tiles hchunks
    exact Or.inl ⟨fileSizeBytes, hsize, hstart, Tiles.planned hplanned htiles⟩
  -- without the four sizes the range is one chunk
  · split at hchunks
    · cases hchunks
    · cases hchunks
      cases hplanned with
      | cons hhead hnil =>
          cases hnil
          exact Or.inr ⟨_, rfl, planChunk_range hhead⟩

/-! ### The groups -/

/-- A group collects its chunks in order and names the provider of one of them. -/
theorem collect_addToGroup (leafCount : Nat) (l : List PlannedChunk) {g : ProviderGroup}
    (h : collect (addToGroup leafCount) l = some g) :
    g.chunks = l ∧ ∃ chunk ∈ l, g.provider = chunk.provider := by
  induction l using List.reverseRecOn generalizing g with
  | nil => cases h
  | append_singleton l chunk ih =>
      rw [collect_concat] at h
      cases h
      cases hold : collect (addToGroup leafCount) l with
      | none =>
          have hnil : l = [] := by
            cases l using List.reverseRecOn with
            | nil => rfl
            | append_singleton l last =>
                rw [collect_concat] at hold
                cases hold
          rw [hnil]
          exact ⟨rfl, chunk, by simp, rfl⟩
      | some old =>
          obtain ⟨hchunks, first, hfirst, hprovider⟩ := ih hold
          exact ⟨congrArg (· ++ [chunk]) hchunks, first, by simp [hfirst], hprovider⟩

/-- The chunks of the groups, one group after the other. -/
theorem providerGroups_chunks (leafCount : Nat) (plannedChunks : List PlannedChunk) :
    (providerGroups leafCount plannedChunks).flatMap (·.chunks) =
      regroup (·.provider) plannedChunks := by
  obtain ⟨-, hkeys, hvalue⟩ :=
    groupOn_spec PlannedChunk.provider (addToGroup leafCount) plannedChunks
  rw [regroup, ← hkeys, providerGroups, List.flatMap_map, List.flatMap_map]
  refine List.flatMap_congr ?_
  rintro ⟨provider, g⟩ hg
  exact (collect_addToGroup leafCount _ (hvalue provider g hg)).1

/-! ### The fetch loop -/

/-- The transport returns exactly the bytes of the chunk it is asked for, when it returns any. -/
def Exact (file : Bytes) (fetchRange : FetchRangeRequest → Except FetchError Bytes) : Prop :=
  ∀ request bytes, fetchRange request = .ok bytes →
    bytes = slice file request.rangeStart request.rangeLen

/-- What the chunks hold of a file. -/
def chunkBytes (file : Bytes) (chunks : List PlannedChunk) : Bytes :=
  pieces PlannedChunk.rangeStart PlannedChunk.rangeLen file chunks

section Fetch

variable {env : FetchEnv} {file : Bytes}

/-- Signed or not, what comes back are the bytes of the chunk. -/
theorem fetchChunk_exact (hexact : Exact file env.fetchRange) {signed : PlanRequest}
    {request : FetchRangeRequest} {metaAuth metaAuth' : Option FetchRangeAuth} {buf : Bytes}
    (h : fetchChunk env signed request metaAuth = .ok (buf, metaAuth')) :
    buf = slice file request.rangeStart request.rangeLen := by
  rw [fetchChunk] at h
  split at h
  · rename_i bytes hfetch
    cases h
    exact hexact { request with auth := metaAuth } _ hfetch
  · split at h
    · cases h
    · obtain ⟨auth, -, h⟩ := except_bind_ok.mp h
      obtain ⟨bytes, hfetch, h⟩ := except_bind_ok.mp h
      cases h
      exact hexact { request with auth := some auth } _ (mapError_eq_ok.mp hfetch)
  · cases h

/-- Fetching the parts of a group appends exactly their bytes. -/
theorem fetchParts_exact (hexact : Exact file env.fetchRange) {plan : DownloadPlan}
    {sessionId provider : Str} {chunks : List PlannedChunk}
    {state state' : List Bytes × Option FetchRangeAuth}
    (h : chunks.foldlM (fetchPart env plan sessionId provider) state = .ok state') :
    state'.1.flatten = state.1.flatten ++ chunkBytes file chunks := by
  induction chunks generalizing state with
  | nil =>
      cases h
      simp [chunkBytes, pieces]
  | cons chunk rest ih =>
      rw [List.foldlM_cons] at h
      obtain ⟨next, hnext, h⟩ := except_bind_ok.mp h
      obtain ⟨⟨buf, metaAuth⟩, hbuf, hnext⟩ := except_bind_ok.mp hnext
      cases hnext
      rw [ih h, fetchChunk_exact hexact hbuf]
      simp [chunkBytes, pieces]

/-- Fetching the groups appends the bytes of all their chunks, group after group. -/
theorem fetchGroups_exact (hexact : Exact file env.fetchRange) {plan : DownloadPlan}
    {sessions : List (Str × Str)} {groups : List ProviderGroup}
    {state state' : List Bytes × Option FetchRangeAuth}
    (h : groups.foldlM (fetchGroup env plan sessions) state = .ok state') :
    state'.1.flatten = state.1.flatten ++ chunkBytes file (groups.flatMap (·.chunks)) := by
  induction groups generalizing state with
  | nil =>
      cases h
      simp [chunkBytes, pieces]
  | cons group rest ih =>
      rw [List.foldlM_cons] at h
      obtain ⟨next, hnext, h⟩ := except_bind_ok.mp h
      obtain ⟨sessionId, -, hnext⟩ := except_bind_ok.mp hnext
      rw [ih h, fetchParts_exact hexact hnext]
      simp [chunkBytes, pieces]

/-- The Blob has the chunks provider by provider. -/
theorem download_eq (hexact : Exact file env.fetchRange) {plan : DownloadPlan} {blob : Bytes}
    (h : download env plan = .ok blob) :
    blob = chunkBytes file (regroup (·.provider) plan.plannedChunks) := by
  simp only [download, except_bind_ok] at h
  obtain ⟨computed, -, _, -, _, -, ⟨parts, metaAuth⟩, hparts, _, -, _, -, h⟩ := h
  cases h
  rw [fetchGroups_exact hexact hparts, providerGroups_chunks]
  rfl

end Fetch

/-! ### Every file -/

/-- A transport that serves a file. -/
def FetchEnv.serving (env : FetchEnv) (file : Bytes) : FetchEnv :=
  { env with fetchRange := fun request => .ok (slice file request.rangeStart request.rangeLen) }

/-- A network that serves the file answers every range exactly. -/
theorem exact_serving (env : FetchEnv) (file : Bytes) :
    Exact file (env.serving file).fetchRange := by
  intro request bytes h
  cases h
  rfl

/-- On such a network no part of a group fails. -/
theorem fetchParts_serving (env : FetchEnv) (file : Bytes) (plan : DownloadPlan)
    (sessionId provider : Str)
    (chunks : List PlannedChunk) (state : List Bytes × Option FetchRangeAuth) :
    ∃ next, chunks.foldlM (fetchPart (env.serving file) plan sessionId provider) state =
      .ok next := by
  induction chunks generalizing state with
  | nil => exact ⟨state, rfl⟩
  | cons chunk rest ih => exact ih _

/-- Whether a served download comes to its end does not depend on the file. The sessions, the
openings and the confirmations see no bytes of it. -/
theorem download_serving {env : FetchEnv} {plan : DownloadPlan} {file blob : Bytes}
    (h : download (env.serving file) plan = .ok blob) (file' : Bytes) :
    ∃ blob', download (env.serving file') plan = .ok blob' := by
  simp only [download, except_bind_ok] at h ⊢
  obtain ⟨computed, hcomputed, _, hsessions, _, hopen, parts, -, _, hconfirm, _, hproof, -⟩ := h
  -- the groups are fetched from the other file too
  have hparts : ∃ parts, (providerGroups plan.leafCount plan.plannedChunks).foldlM
      (fetchGroup (env.serving file') plan (sessionsByProvider computed)) ([], none) =
        .ok parts := by
    rw [forM_eq_ok] at hsessions
    generalize providerGroups plan.leafCount plan.plannedChunks = groups at hsessions ⊢
    generalize (([], none) : List Bytes × Option FetchRangeAuth) = state
    -- by the groups, each with its session
    induction groups generalizing state with
    | nil => exact ⟨state, rfl⟩
    | cons group rest ih =>
        have hsession := hsessions group List.mem_cons_self
        rw [rejectIf_eq_ok, Option.isNone_iff_eq_none] at hsession
        obtain ⟨sessionId, hsession⟩ := Option.ne_none_iff_exists'.mp hsession
        obtain ⟨next, hparts⟩ :=
          fetchParts_serving env file' plan sessionId group.provider group.chunks state
        have hnext : fetchGroup (env.serving file') plan (sessionsByProvider computed) state group =
            .ok next := by
          rw [fetchGroup, hsession]
          exact hparts
        obtain ⟨last, hlast⟩ := ih (fun g hg => hsessions g (List.mem_cons_of_mem _ hg)) next
        exact ⟨last, by rw [List.foldlM_cons, hnext]; exact hlast⟩
  obtain ⟨parts', hparts'⟩ := hparts
  exact ⟨parts'.1.flatten, computed, hcomputed, _, hsessions, _, hopen, parts', hparts',
    _, hconfirm, _, hproof, rfl⟩

/-- A range that goes beyond the end of the file. -/
theorem slice_min {file : Bytes} {start len : Nat} :
    slice file start (min len (file.length - start)) = slice file start len := by
  rw [slice, slice, ← List.length_drop, List.take_eq_take_iff]
  omega

section Range

variable {env : FetchEnv} {input : FetchInput} {plan : DownloadPlan}

/-- The file has the size that the page was told, if it was told one. -/
def FetchInput.SizeOf (input : FetchInput) (file : Bytes) : Prop :=
  ∀ size, input.fileSizeBytes = some size → file.length = size

/-- In the order of the chunks, they hold the range. -/
theorem chunkBytes_range (hplan : planDownload env input = .ok plan) {file : Bytes}
    (hsize : input.SizeOf file) :
    chunkBytes file plan.plannedChunks = slice file plan.rangeStart plan.rangeLen := by
  rcases planDownload_spec hplan with ⟨size, hknown, -, htiles⟩ | ⟨chunk, hone, hstart, hlen⟩
  · have hpieces := Tiles.flatten htiles file
    rw [Nat.add_sub_cancel_left, ← hsize size hknown, slice_min] at hpieces
    exact hpieces
  · rw [hone, ← hstart, ← hlen]
    exact List.append_nil _

/-- There are two different bytes. -/
theorem nontrivial_byte : Nontrivial UInt8 := ⟨0, 1, by decide⟩

/-- Every file comes back in order when no provider comes back after another one. -/
theorem fetchFile_range (hplan : planDownload env input = .ok plan)
    (htogether : Together (plan.plannedChunks.map (·.provider))) {file : Bytes}
    (hsize : input.SizeOf file) {fetchRange : FetchRangeRequest → Except FetchError Bytes}
    (hexact : Exact file fetchRange) {blob : Bytes}
    (h : fetchFile { env with fetchRange := fetchRange } input = .ok blob) :
    blob = slice file plan.rangeStart plan.rangeLen := by
  obtain ⟨plan', hplan', h⟩ := except_bind_ok.mp h
  -- the plan does not depend on the transport of the bytes
  have hsame : plan' = plan := Except.ok.inj (hplan'.symm.trans hplan)
  rw [download_eq hexact h, hsame, (regroup_eq_iff _).mpr htogether, chunkBytes_range hplan hsize]

/-- Otherwise some file comes back in another order. If every file came back in order, the pieces
would be tiles of the range in the order of the groups too, and that is the order of the plan only
when the chunks of each provider stand together. -/
theorem exists_reordered (hplan : planDownload env input = .ok plan)
    (hcompletes : ∃ file blob, fetchFile (env.serving file) input = .ok blob)
    (hapart : ¬Together (plan.plannedChunks.map (·.provider))) :
    ∃ file blob, input.SizeOf file ∧ fetchFile (env.serving file) input = .ok blob ∧
      blob ≠ slice file plan.rangeStart plan.rangeLen := by
  by_contra hnone
  push Not at hnone
  apply hapart
  rcases planDownload_spec hplan with ⟨size, hknown, hstart, htiles⟩ | ⟨chunk, hone, -, -⟩
  · have hend : plan.rangeStart + min plan.rangeLen (size - plan.rangeStart) ≤ size := by omega
    have := nontrivial_byte
    refine (regroup_eq_iff _).mp
      (Tiles.eq_of_flatten htiles hend (regroup_perm _) fun (file : Bytes) hfile => ?_)
    have hsize : input.SizeOf file := by
      intro size' hsize'
      rw [hknown] at hsize'
      exact hfile.trans (Option.some.inj hsize')
    -- one download has come to its end, so that of any file does
    obtain ⟨first, blob, hfirst⟩ := hcompletes
    obtain ⟨plan', hplan', hfirst⟩ := except_bind_ok.mp hfirst
    have hsame : plan' = plan := Except.ok.inj (hplan'.symm.trans hplan)
    obtain ⟨blob', hblob⟩ := download_serving (hsame ▸ hfirst) file
    have hrange := hnone file blob' hsize (except_bind_ok.mpr ⟨plan, hplan, hblob⟩)
    rw [download_eq (exact_serving env file) hblob, ← chunkBytes_range hplan hsize] at hrange
    exact hrange
  · rw [hone]
    exact together_of_forall_eq fun p hp => List.mem_singleton.mp hp

end Range

/-- For every plan of the chunks of a range: the Blob is the range, for every file, exactly when no
provider comes back after another one in the order of the chunks. -/
theorem fetchFile_range_iff (env : FetchEnv) (input : FetchInput) (plan : DownloadPlan)
    (hplan : planDownload env input = .ok plan)
    (hcompletes : ∃ file blob, fetchFile (env.serving file) input = .ok blob) :
    (∀ file fetchRange blob, input.SizeOf file → Exact file fetchRange →
      fetchFile { env with fetchRange := fetchRange } input = .ok blob →
        blob = slice file plan.rangeStart plan.rangeLen) ↔
      Together (plan.plannedChunks.map (·.provider)) := by
  constructor
  · intro hall
    by_contra hapart
    obtain ⟨file, blob, hsize, hblob, hne⟩ := exists_reordered hplan hcompletes hapart
    exact hne (hall file _ blob hsize (exact_serving env file) hblob)
  · intro htogether file fetchRange blob hsize hexact h
    exact fetchFile_range hplan htogether hsize hexact h

/-! ### A download from the gateway -/

open NilStore.Gateway NilStore.Chain in
/-- `transport.plan`, when the gateway answers. -/
def gatewayPlan (stripe : StripeParams) (file : FileMeta) (cachedProviderAddress : Str)
    (dealProviders : Except String (List Str)) (request : PlanRequest) :
    Except String GatewayPlanResponse := do
  let plan ← (planRange stripe file (.ofNat request.rangeStart) (.ofNat request.rangeLen)
    cachedProviderAddress dealProviders).mapError (·.error)
  return ⟨plan.provider, plan.startMduIndex.toNat, plan.startBlobIndex.toNat, plan.blobCount.toNat⟩

/-- A file of three blobs. -/
def threeBlobs : FetchInput where
  dealId := "7".toList
  manifestRoot := "0xab".toList
  owner := "nil1owner".toList
  filePath := "a.bin".toList
  rangeStart := none
  rangeLen := none
  fileStartOffset := some 0
  fileSizeBytes := some 380928
  mduSizeBytes := some 8388608
  blobSizeBytes := some 131072

open NilStore.Gateway NilStore.Chain in
/-- A page in front of a gateway, for a file of a deal with the given service hint and providers. -/
def pageOf (serviceHint : Str) (file : FileMeta) (providers : List Str) : FetchEnv where
  plan := gatewayPlan (planStripe (.ok serviceHint)) file [] (.ok providers)
  openBaseNonce := 1700000000000
  computeRetrievalSessionIds := fun requests =>
    .ok (requests.map (·.provider), requests.map fun request => "0x".toList ++ request.provider)
  openRetrievalSessions := fun _ => .ok ()
  fetchRange := fun _ => .error (.other "offline")
  signMetaAuth := fun _ => .error "rejected"
  confirmRetrievalSessions := fun _ => .ok ()
  sessionProof := fun _ _ => .ok ()

/-- A page for the three blobs, with three providers. -/
def threePage (serviceHint : Str) : FetchEnv :=
  pageOf serviceHint ⟨0, 380928, 1⟩ ["nil1a".toList, "nil1b".toList, "nil1c".toList]

/-- The planned chunks of the three blobs, with `K = 2`. -/
theorem planDownload_threeBlobs :
    (planDownload (threePage "General:rs=2+1".toList) threeBlobs).map (fun plan =>
      (plan.rangeStart, plan.rangeLen, plan.plannedChunks.map (·.provider))) =
        .ok (0, 380928, ["nil1a".toList, "nil1b".toList, "nil1a".toList]) := by
  decide +kernel

/-- With `K = 2` the second blob of the three is at another provider than the first and the third,
and comes last. -/
theorem fetchFile_reordered : ∃ file blob, file.length = 380928 ∧
    fetchFile ((threePage "General:rs=2+1".toList).serving file) threeBlobs = .ok blob ∧
      blob ≠ Lib.slice file 0 380928 := by
  have hshape := planDownload_threeBlobs
  cases hplan : planDownload (threePage "General:rs=2+1".toList) threeBlobs with
  | error text =>
      rw [hplan] at hshape
      cases hshape
  | ok plan =>
      rw [hplan] at hshape
      simp only [Except.map, Except.ok.injEq, Prod.mk.injEq] at hshape
      obtain ⟨hstart, hlen, hproviders⟩ := hshape
      have hcompletes : fetchFile ((threePage "General:rs=2+1".toList).serving []) threeBlobs =
          .ok [] := by
        decide +kernel
      have hapart : ¬Together (plan.plannedChunks.map (·.provider)) := by
        rw [hproviders]
        decide +kernel
      obtain ⟨file, blob, hsize, hblob, hne⟩ := exists_reordered hplan ⟨[], [], hcompletes⟩ hapart
      rw [hstart, hlen] at hne
      exact ⟨file, blob, hsize _ rfl, hblob, hne⟩

/-- A file of two blobs, and a page for it. -/
def twoBlobs : FetchInput := { threeBlobs with fileSizeBytes := some 253952 }

open NilStore.Gateway NilStore.Chain in
/-- The page of a file of two blobs with three providers. -/
def twoPage (serviceHint : Str) : FetchEnv :=
  pageOf serviceHint ⟨0, 253952, 1⟩ ["nil1a".toList, "nil1b".toList, "nil1c".toList]

/-- With `K = 2` two blobs are at two providers, one after the other, and the file comes back as it
is. -/
theorem fetchFile_range_twoProviders : ∃ plan,
    planDownload (twoPage "General:rs=2+1".toList) twoBlobs = .ok plan ∧
      plan.plannedChunks.map (·.provider) = ["nil1a".toList, "nil1b".toList] ∧
      ∀ file fetchRange blob, twoBlobs.SizeOf file → Exact file fetchRange →
        fetchFile { twoPage "General:rs=2+1".toList with fetchRange := fetchRange } twoBlobs =
          .ok blob →
          blob = Lib.slice file plan.rangeStart plan.rangeLen := by
  have hshape : (planDownload (twoPage "General:rs=2+1".toList) twoBlobs).map (fun plan =>
      plan.plannedChunks.map (·.provider)) = .ok ["nil1a".toList, "nil1b".toList] := by
    decide +kernel
  cases hplan : planDownload (twoPage "General:rs=2+1".toList) twoBlobs with
  | error text =>
      rw [hplan] at hshape
      cases hshape
  | ok plan =>
      rw [hplan] at hshape
      have hproviders : plan.plannedChunks.map (·.provider) = ["nil1a".toList, "nil1b".toList] :=
        Except.ok.inj hshape
      -- one download that comes to its end
      have hcompletes : fetchFile ((twoPage "General:rs=2+1".toList).serving []) twoBlobs =
          .ok [] := by
        decide +kernel
      refine ⟨plan, rfl, hproviders,
        (fetchFile_range_iff _ _ plan hplan ⟨[], [], hcompletes⟩).mpr ?_⟩
      rw [hproviders]
      decide +kernel

end NilStore.Website
