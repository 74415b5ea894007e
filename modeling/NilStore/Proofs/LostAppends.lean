import NilStore.Chain.Ledger
import NilStore.Gateway.Uploads
import NilStore.Lib.Runs
import NilStore.Proofs.FileTables
import NilStore.Proofs.SlabAppend
import NilStore.Proofs.WitnessCapacity

/-!
# `NilStore.Proofs.LostAppends`: appends that are lost

`UpdateDealContent` replaces the root of a deal whatever it was. So of two runs that read the same
root, the second to commit takes the file of the first out of the deal (`overlap_loses`). Where each
commit finds the root that its run has read, no committed file is lost (`noneLost_of_current`).

The invariant (`UploadWorld.Sound`) is that the slab of the deal holds all the committed files, and
that the slab of a waiting run holds its own file and all those of the slab that the run has read.
-/

set_option autoImplicit false

namespace NilStore.Gateway

open NilStore.Lib NilStore.Core NilStore.Chain

/-! ### Lost files -/

section

variable {β : Type} (env : Env β) (crypto : SlabCrypto) (dealId : UInt64)

/-- The slab that the deal is committed to has the file under its path, with its content. -/
def UploadWorld.Holds (w : UploadWorld β) (fileRecordPath file : Bytes) : Prop :=
  ∃ deal stripe slab b records, w.chain.deals.get dealId.toNat = some deal ∧
    stripeParamsFromHint deal.serviceHint = .ok stripe ∧
    w.slabs.get deal.manifestRoot = some slab ∧ loadRecords slab.mdu0 = .ok (b, records) ∧
    HoldsFile crypto stripe slab records (recordPath fileRecordPath) file

/-- All the committed files are there. -/
def UploadWorld.NoneLost (w : UploadWorld β) : Prop :=
  ∀ e ∈ w.committed, w.Holds crypto dealId e.1 e.2

/-- The file of a step is a file: its size is an `int64`, and it is recorded under a name that no
other run has. -/
structure UploadWorld.NewFile (w : UploadWorld β) (file fileRecordPath : Bytes) : Prop where
  size : file.length < 2 ^ 63
  name : recordPath fileRecordPath ≠ []
  runs : ∀ r ∈ w.runs, recordPath r.fileRecordPath ≠ recordPath fileRecordPath
  committed : ∀ e ∈ w.committed, recordPath e.1 ≠ recordPath fileRecordPath

/-- Roots bind: a directory that is there for the root of a built slab holds that slab. -/
def UploadWorld.Binds (w : UploadWorld β) : UploadStep → Prop
  | .build file fileRecordPath => ∀ r, w.build crypto dealId file fileRecordPath = .ok r →
      ∀ slab, w.slabs.get r.result.manifestRoot = some slab → slab = r.result.slab
  | .commit .. => True

/-- What a step is asked for: a new file, or a commit that is made, if the chain takes it, while the
deal has the root that the run has read. -/
def UploadWorld.Current (w : UploadWorld β) : UploadStep → Prop
  | .build file fileRecordPath => w.NewFile file fileRecordPath
  | .commit i ctx creator size => ∀ r, w.runs[i]? = some r →
      ∀ chain, (updateDealContent env ctx (r.commitMsg dealId creator size)).exec w.chain =
        (.ok (), chain) →
      ∀ deal, w.chain.deals.get dealId.toNat = some deal → deal.manifestRoot = r.chainRoot

/-! ### What a built slab has -/

/-- The slab of a run: it holds the file of the run, and the files of the slab that the run has
read. -/
structure UploadRun.Sound (slabs : KVStore Bytes Mode2Slab) (stripe : StripeParams)
    (r : UploadRun) : Prop where
  name : recordPath r.fileRecordPath ≠ []
  length : r.result.manifestRoot.length = 48
  slab : slabs.get r.result.manifestRoot = some r.result.slab
  holds : ∃ records, r.result.slab.Good stripe records ∧
    HoldsFile crypto stripe r.result.slab records (recordPath r.fileRecordPath) r.file ∧
    (r.chainRoot ≠ [] → ∃ old, slabs.get r.chainRoot = some old ∧
      ∀ oldRecords, old.Good stripe oldRecords → ∀ name file, name ≠ recordPath r.fileRecordPath →
        HoldsFile crypto stripe old oldRecords name file →
        HoldsFile crypto stripe r.result.slab records name file)

/-- The slab of the deal holds these files. -/
def SlabHolds (slabs : KVStore Bytes Mode2Slab) (stripe : StripeParams) (root : Bytes)
    (files : List (Bytes × Bytes)) : Prop :=
  root ≠ [] ∧ ∃ slab records, slabs.get root = some slab ∧ slab.Good stripe records ∧
    ∀ e ∈ files, HoldsFile crypto stripe slab records (recordPath e.1) e.2

/-- The invariant. -/
structure UploadWorld.Sound (w : UploadWorld β) : Prop where
  deal : (w.runs ≠ [] ∨ w.committed ≠ []) →
    ∃ deal stripe, w.chain.deals.get dealId.toNat = some deal ∧
    stripeParamsFromHint deal.serviceHint = .ok stripe ∧
    (∀ r ∈ w.runs, r.Sound crypto w.slabs stripe) ∧
    (w.committed ≠ [] → SlabHolds crypto w.slabs stripe deal.manifestRoot w.committed)
  distinct : (w.runs.map fun r => recordPath r.fileRecordPath).Nodup ∧
    ∀ r ∈ w.runs, ∀ e ∈ w.committed, recordPath e.1 ≠ recordPath r.fileRecordPath

end

/-- The leaves of a stripe are few. -/
theorem leafCount_le {serviceHint : Str} {stripe : StripeParams}
    (h : stripeParamsFromHint serviceHint = .ok stripe) : stripe.leafCount.toNat ≤ 768 := by
  rcases stripeParamsFromHint_cases h with rfl | ⟨k, m, hk, hm, hrows, hsum, rfl⟩
  · decide
  · have hsum : (k + m).toNat ≤ 12 := UInt64.le_iff_toNat_le.mp hsum
    have hquot : (64 / k).toNat ≤ 64 := by
      rw [UInt64.toNat_div]
      exact Nat.div_le_self _ _
    have hprod : (k + m).toNat * (64 / k).toNat ≤ 12 * 64 := Nat.mul_le_mul hsum hquot
    show ((k + m) * (64 / k)).toNat ≤ 768
    rw [UInt64.toNat_mul]
    omega

/-- A table that is held is read. -/
theorem Mode2Slab.Good.loadRecords_eq {stripe : StripeParams} {slab : Mode2Slab}
    {records : List FileRecordV1} (h : slab.Good stripe records) :
    ∃ b, loadRecords slab.mdu0 = .ok (b, records) := by
  obtain ⟨b, hbuffer, hlists⟩ := h.lists
  obtain ⟨b', -, hload⟩ := Gateway.loadRecords_eq hlists
  rw [hbuffer] at hload
  exact ⟨b', hload⟩

section

variable {β : Type} {env : Env β} {crypto : SlabCrypto} {dealId : UInt64}

/-- What a build that succeeds leaves. -/
theorem buildSlab_ok {slabs : KVStore Bytes Mode2Slab} {deal : Deal} {file fileRecordPath : Bytes}
    {res : Mode2IngestResult} (h : buildSlab crypto slabs deal file fileRecordPath = .ok res) :
    ∃ stripe, stripeParamsFromHint deal.serviceHint = .ok stripe ∧ res.manifestRoot.length = 48 ∧
      ∃ records oldShards, Added crypto stripe res.slab records oldShards file fileRecordPath ∧
        (deal.manifestRoot ≠ [] → ∃ old, slabs.get deal.manifestRoot = some old ∧
          Copied stripe old records oldShards) := by
  rw [buildSlab, except_bind_ok] at h
  obtain ⟨stripe, hstripe, h⟩ := h
  refine ⟨stripe, hstripe, ?_⟩
  split at h
  · rename_i hroot
    obtain ⟨hlength, hadded⟩ := mode2BuildArtifacts_ok h
    exact ⟨hlength, [], [], hadded, fun hne => absurd hroot hne⟩
  · simp only [except_bind_ok, rejectIf_eq_ok, orFail_eq_ok] at h
    obtain ⟨-, -, old, hold, h⟩ := h
    obtain ⟨hlength, records, oldShards, hcopied, hadded⟩ := mode2BuildArtifactsAppend_ok h
    exact ⟨hlength, records, oldShards, hadded, fun _ => ⟨old, hold, hcopied⟩⟩

/-- A slab that is stored is there, and the others stay. -/
theorem mode2FinalizeStagingDir_get {slabs : KVStore Bytes Mode2Slab} {root : Bytes}
    {slab : Mode2Slab} (hbinds : ∀ slab', slabs.get root = some slab' → slab' = slab) :
    (mode2FinalizeStagingDir slabs root slab).get root = some slab ∧
      ∀ root' slab', slabs.get root' = some slab' →
        (mode2FinalizeStagingDir slabs root slab).get root' = some slab' := by
  rw [mode2FinalizeStagingDir]
  cases hget : slabs.get root with
  | some slab' =>
      obtain rfl := hbinds slab' hget
      exact ⟨hget, fun _ _ h => h⟩
  | none =>
      refine ⟨KVStore.get_set_self _ _ _, fun root' slab' h => ?_⟩
      have hne : root' ≠ root := by
        rintro rfl
        rw [hget] at h
        cases h
      show (slabs.set root slab).get root' = some slab'
      rw [KVStore.get_set_ne _ hne, h]

/-- The slab of a run stays, when slabs are added. -/
theorem UploadRun.Sound.mono {slabs slabs' : KVStore Bytes Mode2Slab} {stripe : StripeParams}
    {r : UploadRun} (h : r.Sound crypto slabs stripe)
    (hmono : ∀ root slab, slabs.get root = some slab → slabs'.get root = some slab) :
    r.Sound crypto slabs' stripe := by
  obtain ⟨records, hgood, hholds, hkeeps⟩ := h.holds
  refine ⟨h.name, h.length, hmono _ _ h.slab, records, hgood, hholds, fun hne => ?_⟩
  obtain ⟨old, hold, hkeeps⟩ := hkeeps hne
  exact ⟨old, hmono _ _ hold, hkeeps⟩

/-- A slab that is stored stays stored when more slabs are. -/
theorem SlabHolds.mono {slabs slabs' : KVStore Bytes Mode2Slab} {stripe : StripeParams}
    {root : Bytes} {files : List (Bytes × Bytes)} (h : SlabHolds crypto slabs stripe root files)
    (hmono : ∀ root slab, slabs.get root = some slab → slabs'.get root = some slab) :
    SlabHolds crypto slabs' stripe root files := by
  obtain ⟨hne, slab, records, hget, hgood, hall⟩ := h
  exact ⟨hne, slab, records, hmono _ _ hget, hgood, hall⟩

/-- A run is sound when it has built. -/
theorem UploadRun.sound_of_build {w : UploadWorld β} {file fileRecordPath : Bytes} {r : UploadRun}
    (hnew : w.NewFile file fileRecordPath) (h : w.build crypto dealId file fileRecordPath = .ok r)
    (hbinds : ∀ slab, w.slabs.get r.result.manifestRoot = some slab → slab = r.result.slab) :
    r.fileRecordPath = fileRecordPath ∧
      ∃ deal stripe, w.chain.deals.get dealId.toNat = some deal ∧
        stripeParamsFromHint deal.serviceHint = .ok stripe ∧
        r.Sound crypto
          (mode2FinalizeStagingDir w.slabs r.result.manifestRoot r.result.slab) stripe := by
  simp only [UploadWorld.build, except_bind_ok, orFail_eq_ok] at h
  obtain ⟨deal, hdeal, res, hbuild, h⟩ := h
  cases h
  obtain ⟨stripe, hstripe, hlength, records, oldShards, hadded, hold⟩ := buildSlab_ok hbuild
  obtain ⟨hself, hmono⟩ := mode2FinalizeStagingDir_get hbinds
  refine ⟨rfl, deal, stripe, hdeal, hstripe, hnew.name, hlength, hself, _,
    hadded.good hnew.size hnew.name, hadded.holds hnew.size hnew.name, fun hne => ?_⟩
  obtain ⟨old, hget, hcopied⟩ := hold hne
  refine ⟨old, hmono _ _ hget, fun oldRecords hgood name oldFile hother hholds => ?_⟩
  obtain rfl := hcopied.records_eq hgood
  exact hadded.keeps hcopied hnew.size hnew.name hgood (leafCount_le hstripe) hother hholds

/-- A commit that the chain takes gives the deal the root of the run. The gateway writes the root as
hex, and the chain decodes it again. -/
theorem UploadRun.commit_ok {r : UploadRun} {chain chain' : KeeperState β} {ctx : Ctx}
    {creator : Str} {size : UInt64} (hlength : r.result.manifestRoot.length = 48)
    (h : (updateDealContent env ctx (r.commitMsg dealId creator size)).exec chain =
      (.ok (), chain')) :
    ∃ deal deposit, chain.deals.get dealId.toNat = some deal ∧
      chain'.deals.get dealId.toNat =
        some (commitContent deal r.result.manifestRoot size deposit) := by
  have hdecode : decodeManifestRoot (canonicalRoot r.result.manifestRoot) =
      some r.result.manifestRoot := by
    have htrim : trimPrefix (canonicalRoot r.result.manifestRoot) "0x".toList =
        hexEncode r.result.manifestRoot := rfl
    rw [decodeManifestRoot, htrim, hexDecode_hexEncode, Option.filter_some,
      if_pos (by simpa using hlength)]
  -- the handler of the chain, step by step
  simp only [updateDealContent, Tx.exec_ofExcept_bind_ok, Tx.exec_reads_bind_ok,
    Tx.exec_failIf_bind_ok,
    Tx.exec_gets_bind, payTermDeposit_bind_ok, Tx.exec_update, orFail_eq_ok, Prod.mk.injEq, not_not]
      at h
  obtain ⟨payer, -, deal, hget, -, b, -, -, -, root, hroot, -, rfl⟩ := h
  have hroot : decodeManifestRoot (canonicalRoot r.result.manifestRoot) = some root := hroot
  rw [hdecode, Option.some.injEq] at hroot
  subst hroot
  exact ⟨deal, _, hget, KVStore.get_set_self _ _ _⟩

/-! ### The invariant -/

/-- What is sound for the stripe of the deal. -/
theorem UploadWorld.Sound.of_deal {w : UploadWorld β} (h : w.Sound crypto dealId) {deal : Deal}
    {stripe : StripeParams} (hdeal : w.chain.deals.get dealId.toNat = some deal)
    (hstripe : stripeParamsFromHint deal.serviceHint = .ok stripe) :
    (∀ r ∈ w.runs, r.Sound crypto w.slabs stripe) ∧
      (w.committed ≠ [] → SlabHolds crypto w.slabs stripe deal.manifestRoot w.committed) := by
  by_cases hnone : w.runs ≠ [] ∨ w.committed ≠ []
  · obtain ⟨deal', stripe', hdeal', hstripe', hruns, hcommitted⟩ := h.deal hnone
    obtain rfl := Option.some.inj (hdeal.symm.trans hdeal')
    obtain rfl := Except.ok.inj (hstripe.symm.trans hstripe')
    exact ⟨hruns, hcommitted⟩
  · rw [not_or, not_not, not_not] at hnone
    rw [hnone.1]
    exact ⟨nofun, fun hne => absurd hnone.2 hne⟩

/-- A build keeps the invariant: the new slab is stored under its root, and no other slab has that
root. -/
theorem UploadWorld.Sound.build {w : UploadWorld β} (h : w.Sound crypto dealId)
    {file fileRecordPath : Bytes} {r : UploadRun} (hnew : w.NewFile file fileRecordPath)
    (hbuild : w.build crypto dealId file fileRecordPath = .ok r)
    (hbinds : ∀ slab, w.slabs.get r.result.manifestRoot = some slab → slab = r.result.slab) :
    UploadWorld.Sound crypto dealId { w with
      slabs := mode2FinalizeStagingDir w.slabs r.result.manifestRoot r.result.slab
      runs := w.runs ++ [r] } := by
  obtain ⟨hpath, deal, stripe, hdeal, hstripe, hsound⟩ :=
    UploadRun.sound_of_build hnew hbuild hbinds
  obtain ⟨hruns, hcommitted⟩ := h.of_deal hdeal hstripe
  obtain ⟨-, hmono⟩ := mode2FinalizeStagingDir_get hbinds
  -- the deal is the same, and the runs are one more
  refine ⟨fun _ => ⟨deal, stripe, hdeal, hstripe, fun r' hr' => ?_, fun hne => ?_⟩, ?_, ?_⟩
  · rcases List.mem_append.mp hr' with hr' | hr'
    · exact (hruns r' hr').mono hmono
    · obtain rfl := List.mem_singleton.mp hr'
      exact hsound
  · exact (hcommitted hne).mono hmono
  -- the names of the runs stay different
  · show ((w.runs ++ [r]).map fun r => recordPath r.fileRecordPath).Nodup
    rw [List.map_append, List.nodup_append]
    refine ⟨h.distinct.1, List.nodup_singleton _, fun name hname name' hname' => ?_⟩
    obtain ⟨r', hr', rfl⟩ := List.mem_map.mp hname
    obtain rfl := List.mem_singleton.mp hname'
    show recordPath r'.fileRecordPath ≠ recordPath r.fileRecordPath
    rw [hpath]
    exact hnew.runs r' hr'
  -- and different from the names of what is committed
  · intro r' hr' e he
    rcases List.mem_append.mp hr' with hr' | hr'
    · exact h.distinct.2 r' hr' e he
    · obtain rfl := List.mem_singleton.mp hr'
      rw [hpath]
      exact hnew.committed e he

/-- The name of a run is not that of another one. -/
theorem recordPath_ne_of_mem_eraseIdx {runs : List UploadRun} {i : Nat} {r r' : UploadRun}
    (hnodup : (runs.map fun r => recordPath r.fileRecordPath).Nodup) (hr : runs[i]? = some r)
    (hr' : r' ∈ runs.eraseIdx i) : recordPath r.fileRecordPath ≠ recordPath r'.fileRecordPath := by
  intro hname
  obtain ⟨j, hne, hj⟩ := List.mem_eraseIdx_iff_getElem?.mp hr'
  have hlt : i < (runs.map fun r => recordPath r.fileRecordPath).length := by
    rw [List.length_map]
    exact (List.getElem?_eq_some_iff.mp hr).1
  refine hne ((List.getElem?_inj hlt hnodup).mp ?_).symm
  rw [List.getElem?_map, List.getElem?_map, hr, hj, Option.map_some, Option.map_some, hname]

/-- A commit of the root that the deal has keeps the invariant. The run was built on that root, so
its slab holds everything that was committed before, and its own file. -/
theorem UploadWorld.Sound.commit {w : UploadWorld β} (h : w.Sound crypto dealId) {i : Nat}
    {r : UploadRun}
    {ctx : Ctx} {creator : Str} {size : UInt64} {chain : KeeperState β} (hr : w.runs[i]? = some r)
    (hexec : (updateDealContent env ctx (r.commitMsg dealId creator size)).exec w.chain =
      (.ok (), chain))
    (hcurrent : ∀ deal, w.chain.deals.get dealId.toNat = some deal →
      deal.manifestRoot = r.chainRoot) :
    UploadWorld.Sound crypto dealId { w with
      chain := chain
      runs := w.runs.eraseIdx i
      committed := w.committed ++ [(r.fileRecordPath, r.file)] } := by
  have hmem : r ∈ w.runs := List.mem_of_getElem? hr
  obtain ⟨deal, stripe, hdeal, hstripe, hruns, hcommitted⟩ :=
    h.deal (Or.inl (List.ne_nil_of_mem hmem))
  have hsound := hruns r hmem
  -- the chain takes the root of the run
  obtain ⟨deal', deposit, hdeal', hnext⟩ := UploadRun.commit_ok hsound.length hexec
  obtain rfl := Option.some.inj (hdeal.symm.trans hdeal')
  obtain ⟨records, hgood, hholds, hkeeps⟩ := hsound.holds
  have hne : r.result.manifestRoot ≠ [] := by
    intro hnil
    have hlength := hsound.length
    rw [hnil] at hlength
    cases hlength
  -- every committed file is in the slab of the run
  have hall : ∀ e ∈ w.committed ++ [(r.fileRecordPath, r.file)],
      HoldsFile crypto stripe r.result.slab records (recordPath e.1) e.2 := by
    intro e he
    rcases List.mem_append.mp he with he | he
    · -- the run has read the slab that holds the files so far
      obtain ⟨hroot, old, oldRecords, hold, holdGood, hall⟩ := hcommitted (List.ne_nil_of_mem he)
      rw [hcurrent deal hdeal] at hroot hold
      obtain ⟨old', hold', hkeeps⟩ := hkeeps hroot
      obtain rfl := Option.some.inj (hold.symm.trans hold')
      exact hkeeps oldRecords holdGood _ _ (h.distinct.2 r hmem e he) (hall e he)
    · obtain rfl := List.mem_singleton.mp he
      exact hholds
  refine ⟨fun _ => ⟨_, stripe, hnext, hstripe, fun r' hr' => ?_, fun _ => ?_⟩, ?_, ?_⟩
  · exact hruns r' (List.mem_of_mem_eraseIdx hr')
  · exact ⟨hne, r.result.slab, records, hsound.slab, hgood, hall⟩
  · exact h.distinct.1.sublist ((List.eraseIdx_sublist _ _).map _)
  · intro r' hr' e he
    rcases List.mem_append.mp he with he | he
    · exact h.distinct.2 r' (List.mem_of_mem_eraseIdx hr') e he
    · obtain rfl := List.mem_singleton.mp he
      exact recordPath_ne_of_mem_eraseIdx h.distinct.1 hr hr'

/-- A step keeps the invariant. -/
theorem UploadWorld.Sound.step {w : UploadWorld β} (h : w.Sound crypto dealId) {e : UploadStep}
    (hbinds : w.Binds crypto dealId e) (hcurrent : w.Current env dealId e) :
    (w.step env crypto dealId e).Sound crypto dealId := by
  cases e with
  | build file fileRecordPath =>
      rw [UploadWorld.step]
      split
      · exact h
      · rename_i r hbuild
        exact h.build hcurrent hbuild (hbinds r hbuild)
  | commit i ctx creator size =>
      rw [UploadWorld.step]
      split
      · exact h
      · rename_i r hr
        split
        · exact h
        · rename_i u chain hexec
          exact h.commit hr hexec (hcurrent r hr chain hexec)

/-- Where the invariant holds, no committed file is lost. -/
theorem UploadWorld.Sound.noneLost {w : UploadWorld β} (h : w.Sound crypto dealId) :
    w.NoneLost crypto dealId := by
  intro e he
  have hne := List.ne_nil_of_mem he
  obtain ⟨deal, stripe, hdeal, hstripe, -, hcommitted⟩ := h.deal (Or.inr hne)
  obtain ⟨-, slab, records, hget, hgood, hall⟩ := hcommitted hne
  obtain ⟨b, hload⟩ := hgood.loadRecords_eq
  exact ⟨deal, stripe, slab, b, records, hdeal, hstripe, hget, hload, hall e he⟩

end

/-! ### Runs -/

section

variable {β : Type} (env : Env β) (crypto : SlabCrypto) (dealId : UInt64)

/-- Before the first step no run has built, and none has committed. -/
structure UploadWorld.Fresh (w : UploadWorld β) : Prop where
  runs : w.runs = []
  committed : w.committed = []

/-- **No append is lost** in a run in which each commit finds the root that its run has read. This
holds after every part of the run, whatever else the chain and the other uploads do in between; that
the roots bind the slabs is asked of the builds of this run only. -/
theorem noneLost_of_current (w : UploadWorld β) (hfresh : w.Fresh) (es : List UploadStep)
    (hbinds : Along (fun past e =>
      (run (UploadWorld.step env crypto dealId) w past).Binds crypto dealId e) es)
    (hcurrent : Along (fun past e =>
      (run (UploadWorld.step env crypto dealId) w past).Current env dealId e) es) :
    ∀ past, past <+: es →
      (run (UploadWorld.step env crypto dealId) w past).NoneLost crypto dealId := by
  rintro past ⟨rest, rfl⟩
  refine UploadWorld.Sound.noneLost (run_history
    (fun past e => (run (UploadWorld.step env crypto dealId) w past).Binds crypto dealId e ∧
      (run (UploadWorld.step env crypto dealId) w past).Current env dealId e)
    (fun _ w => UploadWorld.Sound crypto dealId w) ?_ ?_ (hbinds.left.and hcurrent.left))
  · refine ⟨fun hne => ?_, ?_, ?_⟩
    · rw [hfresh.runs, hfresh.committed] at hne
      simp at hne
    · rw [hfresh.runs]
      exact List.nodup_nil
    · rw [hfresh.runs]
      exact nofun
  · intro past e hsound hok
    exact hsound.step hok.1 hok.2

end

/-! ### Two runs that overlap -/

/-- The roots of a slab can be set. -/
theorem setRoots_isOk {b : Mdu0Builder} {index : UInt64} {roots : List Bytes}
    (hbound : index.toNat + roots.length ≤ 65536) (hroots : ∀ root ∈ roots, root.length = 32) :
    ∃ b', setRoots b index roots = .ok b' := by
  induction roots generalizing b index with
  | nil => exact ⟨b, rfl⟩
  | cons root roots ih =>
      rw [List.length_cons] at hbound
      have hset : ∃ b₁, cryptoFfiSetRoot b index root = .ok b₁ := by
        refine ⟨{ b with buffer := overwrite b.buffer (32 * index.toNat) root }, ?_⟩
        rw [cryptoFfiSetRoot, if_neg (not_not.mpr (hroots root List.mem_cons_self))]
        exact mapError_eq_ok.mpr ((Mdu0Builder.setRoot_eq_ok (by omega)).mpr ⟨by omega, rfl⟩)
      obtain ⟨b₁, hset⟩ := hset
      have hnext : (index + 1).toNat = index.toNat + 1 := by
        rw [UInt64.toNat_add, UInt64.toNat_one]
        omega
      obtain ⟨b', hb'⟩ := @ih b₁ (index + 1) (by omega) fun root hroot =>
        hroots root (List.mem_cons_of_mem _ hroot)
      exact ⟨b', except_bind_ok.mpr ⟨b₁, hset, hb'⟩⟩

/-- Bytes as a root. -/
def paddedRoot (bytes : Bytes) : Bytes := (bytes ++ List.replicate 32 0).take 32

/-- The commitments of an MDU of 128 leaves: its root, and zeros behind it. -/
def paddedFlat (bytes : Bytes) : Bytes := paddedRoot bytes ++ List.replicate 6112 0

/-- Each slot has the payload, and the payload is the root, with which the commitments start. -/
def copyCrypto : SlabCrypto where
  expandPayloadRs payload _ _ := .ok (paddedFlat payload, [payload, payload])
  computeMduRootFromWitnessFlat witnessFlat := .ok (witnessFlat.take 32)
  computeMduMerkleRoot _ := .ok (List.replicate 32 0)
  computeManifestCommitment roots := .ok (roots.getLastD [] ++ List.replicate 16 0, [])
  isG1 _ := true

/-- One blob for each of two slots. -/
def pairStripe : StripeParams := ⟨2, 1, 1, 64, 128, 2⟩

/-- Two providers, and a deal with a slot for each. It has no content. -/
@[irreducible] def pairState : KeeperState Ledger :=
  run (apply (sampleEnv noKeccak [])) (genesis defaultParams sampleBank)
    [.deliver (ctxAt 1) (registerMsg providerText), .deliver (ctxAt 1) (registerMsg otherText),
      .deliver (ctxAt 1) (createMsg 100 "General:rs=1+1")]

/-- The root of the slab whose last MDU is that of a file of one byte. -/
def byteRoot (x : UInt8) : Bytes := paddedRoot [x] ++ List.replicate 16 0

/-- The one MDU of such a file. -/
def byteMdu (x : UInt8) : UserMdu := ⟨paddedFlat [x], paddedRoot [x], [[x], [x]]⟩

/-- A padded root is a root. -/
theorem length_paddedRoot (bytes : Bytes) : (paddedRoot bytes).length = 32 := by
  rw [paddedRoot, List.length_take, List.length_append, List.length_replicate]
  omega

/-- There are 48 bytes for each leaf. -/
theorem length_paddedFlat (bytes : Bytes) : (paddedFlat bytes).length = 6144 := by
  rw [paddedFlat, List.length_append, length_paddedRoot, List.length_replicate]

/-- The root is read back from the commitments. -/
theorem take_paddedFlat (bytes : Bytes) : (paddedFlat bytes).take 32 = paddedRoot bytes :=
  List.take_left' (length_paddedRoot bytes)

/-- The root of a slab has 48 bytes. -/
theorem length_byteRoot (x : UInt8) : (byteRoot x).length = 48 := by
  rw [byteRoot, List.length_append, length_paddedRoot, List.length_replicate]

/-- A file of one byte is one chunk, and takes one MDU. -/
theorem userMdusOfByte (x : UInt8) : userMdusOfFile (UInt64.ofNat [x].length) = 1 := by
  show userMdusOfFile 1 = 1
  decide +kernel

/-- A file of one byte is expanded to its MDU, also where an append knows the length of the
commitments. -/
theorem expandByte_ok (x : UInt8) {wanted : Option Nat} (hwanted : ∀ n ∈ wanted, n = 6144) :
    (List.range (1 : UInt64).toNat).mapM (expandChunk copyCrypto pairStripe wanted [x]) =
      .ok [byteMdu x] := by
  have hchunk : fileChunk [x] 0 = [x] := by
    rw [fileChunk, Nat.zero_mul, List.drop_zero]
    exact List.take_of_length_le (show 1 ≤ rawMduCapacity by decide)
  have hlengths : ¬wanted.any (· ≠ (paddedFlat [x]).length) = true := by
    cases wanted with
    | none => exact Bool.false_ne_true
    | some n => simp [hwanted n rfl, length_paddedFlat]
  have hexpand : expandChunk copyCrypto pairStripe wanted [x] 0 = .ok (byteMdu x) := by
    rw [expandChunk, hchunk]
    refine except_bind_ok.mpr ⟨(paddedFlat [x], [[x], [x]]), rfl, except_bind_ok.mpr
      ⟨(), rejectIf_eq_ok.mpr hlengths, except_bind_ok.mpr ⟨paddedRoot [x], ?_, rfl⟩⟩⟩
    show Except.ok ((paddedFlat [x]).take 32) = _
    rw [take_paddedFlat]
  show (List.range 1).mapM (expandChunk copyCrypto pairStripe wanted [x]) = _
  rw [List.range_one, List.mapM_cons, hexpand]
  rfl

/-- The commitment to a slab has its last root. -/
theorem commitByte_ok (builder : Mdu0Builder) (witnessMdus witnessRoots userRoots : List Bytes)
    (userShards : List (List Bytes)) (x : UInt8) :
    commitSlab copyCrypto builder witnessMdus witnessRoots (userRoots ++ [paddedRoot [x]])
      userShards = .ok (byteRoot x, ⟨builder.buffer, witnessMdus, userShards, []⟩) := by
  have hlast : (List.replicate 32 (0 : UInt8) ::
      (witnessRoots ++ (userRoots ++ [paddedRoot [x]]))).getLastD [] = paddedRoot [x] := by
    rw [← List.append_assoc, ← List.cons_append, List.getLastD_concat]
  have hcommitment : copyCrypto.computeManifestCommitment (List.replicate 32 (0 : UInt8) ::
      (witnessRoots ++ (userRoots ++ [paddedRoot [x]]))) = .ok (byteRoot x, []) := by
    show Except.ok (List.getLastD _ _ ++ _, _) = _
    rw [hlast, byteRoot]
  refine except_bind_ok.mpr ⟨_, rfl, except_bind_ok.mpr ⟨(byteRoot x, []), hcommitment,
    except_bind_ok.mpr ⟨(), rejectIf_eq_ok.mpr ?_, rfl⟩⟩⟩
  rintro (hne | hne)
  · exact hne (length_byteRoot x)
  · cases hne

/-- A file of a sample name can be appended, where the table has room. -/
theorem appendSample_ok {b : Mdu0Builder} {records : List FileRecordV1} (hlists : b.Lists records)
    (hroom : records.length < 98302) {fileRecordPath : Bytes}
    (hpath : isUtf8 (recordPath fileRecordPath) = true)
    (hlength : (recordPath fileRecordPath).length ≤ 40) (startOffset : UInt64) :
    ∃ b', nilMdu0AppendFile b (truncateRecordPath fileRecordPath) 1 startOffset = .ok b' ∧
      b'.Lists (records ++ [fileRecord (recordPath fileRecordPath) 1 startOffset hlength]) := by
  obtain ⟨b', hb'⟩ := append_isOk hlists hroom
    (fileRecord (recordPath fileRecordPath) 1 startOffset hlength)
  have hname : cString (truncateRecordPath fileRecordPath) = recordPath fileRecordPath := rfl
  refine ⟨b', ?_, (hlists.append hb').1⟩
  simp only [nilMdu0AppendFile, hname]
  rw [if_neg (not_not.mpr hpath), dif_pos hlength, hb']
  rfl

/-- What a run has built for a file of one byte, where the deal had no content. -/
structure ByteBuilt (x : UInt8) (fileRecordPath : Bytes) (res : Mode2IngestResult) : Prop where
  build : mode2BuildArtifacts copyCrypto pairStripe [x] fileRecordPath = .ok res
  root : res.manifestRoot = byteRoot x
  witnessMdus : res.slab.witnessMdus = witnessMdus 1 (paddedFlat [x])
  userShards : res.slab.userShards = [[[x], [x]]]

/-- A slab is built for a file of one byte: MDU #0, one witness MDU and one MDU with the byte. -/
theorem byteSlab_ok (x : UInt8) {fileRecordPath : Bytes}
    (hpath : isUtf8 (recordPath fileRecordPath) = true)
    (hlength : (recordPath fileRecordPath).length ≤ 40) :
    ∃ res, ByteBuilt x fileRecordPath res := by
  have hcount : (Mdu0Builder.newWithCommitments 1 pairStripe.leafCount).witnessMduCount = 1 := by
    show witnessMduCountOf 1 pairStripe.leafCount = 1
    decide +kernel
  have hroots : ∀ root ∈ [paddedRoot [x]], root.length = 32 := by
    intro root hmem
    rw [List.mem_singleton.mp hmem, length_paddedRoot]
  -- the table with its roots and its record
  have hnew := Mdu0Builder.lists_new 1 pairStripe.leafCount
  obtain ⟨b₁, hb₁⟩ := @setRoots_isOk (Mdu0Builder.newWithCommitments 1 pairStripe.leafCount) 1
    [paddedRoot [x]] (show 1 + 1 ≤ 65536 by decide) hroots
  have hlists₁ := (setRoots_ok (by decide) hnew hb₁).1
  obtain ⟨b₂, hb₂⟩ := @setRoots_isOk b₁ 0 [List.replicate 32 0] (by decide) (by decide)
  have hlists₂ := (setRoots_ok (by decide) hlists₁ hb₂).1
  obtain ⟨b₃, happend, hlists₃⟩ := appendSample_ok hlists₂ (by decide) hpath hlength 0
  have hflat : [byteMdu x].flatMap (·.witnessFlat) = paddedFlat [x] :=
    List.flatMap_singleton _ _
  have hflats : checkWitnessFlats [byteMdu x] = .ok () := by
    refine except_bind_ok.mpr ⟨(), rejectIf_eq_ok.mpr ?_, rejectIf_eq_ok.mpr ?_⟩
    · rintro ⟨mdu, hmem, hnil⟩
      obtain rfl := List.mem_singleton.mp hmem
      have hlength := length_paddedFlat [x]
      rw [show paddedFlat [x] = [] from hnil] at hlength
      cases hlength
    · rintro ⟨mdu, hmem, hne⟩
      obtain rfl := List.mem_singleton.mp hmem
      exact hne rfl
  have hwroots : (witnessMdus 1 (paddedFlat [x])).mapM copyCrypto.computeMduMerkleRoot =
      .ok [List.replicate 32 0] := rfl
  -- the steps of the builder, one after the other
  have hbuild : mode2BuildArtifacts copyCrypto pairStripe [x] fileRecordPath =
      .ok ⟨byteRoot x, ⟨b₃.buffer, witnessMdus 1 (paddedFlat [x]), [[[x], [x]]], []⟩, 1,
        totalSizeBytesFromMdu0 [fileRecord (recordPath fileRecordPath) 1 0 hlength], 1, 1⟩ := by
    simp only [mode2BuildArtifacts, userMdusOfByte, hcount]
    refine except_bind_ok.mpr ⟨(), rfl, except_bind_ok.mpr ⟨_, @expandByte_ok x none (by simp),
      except_bind_ok.mpr ⟨b₁, hb₁, except_bind_ok.mpr ⟨(), hflats, ?_⟩⟩⟩⟩
    simp only [hflat]
    exact except_bind_ok.mpr ⟨_, buildWitnessMdus_ok _ _, except_bind_ok.mpr ⟨_, hwroots,
      except_bind_ok.mpr ⟨b₂, hb₂, except_bind_ok.mpr ⟨b₃, mapError_eq_ok.mpr happend,
      except_bind_ok.mpr ⟨_, orFail_eq_ok.mpr hlists₃.records_eq, except_bind_ok.mpr
      ⟨_, commitByte_ok b₃ _ _ [] _ x, rfl⟩⟩⟩⟩⟩⟩
  exact ⟨_, hbuild, rfl, rfl, rfl⟩

/-- One more file of one byte is appended to a slab of one. The shards of the old file are copied,
and its commitments are recovered from the witness MDU. -/
theorem appendByte_ok {old : Mode2Slab} {b : Mdu0Builder} {records : List FileRecordV1}
    (hbuffer : b.buffer = old.mdu0) (hlists : b.Lists records) (hroom : records.length < 98302)
    (hend : userMdusUpTo (maxEnd (liveRecords records)) = 1) {x : UInt8}
    (hwitness : old.witnessMdus = witnessMdus 1 (paddedFlat [x]))
    (hshards : old.userShards = [[[x], [x]]]) (y : UInt8) {fileRecordPath : Bytes}
    (hpath : isUtf8 (recordPath fileRecordPath) = true)
    (hlength : (recordPath fileRecordPath).length ≤ 40) :
    ∃ res, mode2BuildArtifactsAppend copyCrypto pairStripe old [y] fileRecordPath = .ok res ∧
      res.manifestRoot = byteRoot y := by
  have hcount₁ : witnessMduCountOf 1 pairStripe.leafCount = 1 := by decide +kernel
  have hcount₂ : witnessMduCountOf (1 + 1) pairStripe.leafCount = 1 := by decide +kernel
  have hperUser : (pairStripe.leafCount * 48).toNat = 6144 := rfl
  -- the table is loaded twice
  have hload : ∀ maxUserMdus,
      loadMdu0BuilderWithCommitments old.mdu0 maxUserMdus pairStripe.leafCount =
        .ok ⟨b.buffer, witnessMduCountOf maxUserMdus pairStripe.leafCount, maxUserMdus,
          effectiveCommitments pairStripe.leafCount⟩ := by
    intro maxUserMdus
    rw [loadMdu0BuilderWithCommitments, ← hbuffer, if_neg (not_not.mpr hlists.length), hlists.load]
    rfl
  have hloaded : ∀ maxUserMdus, Mdu0Builder.Lists ⟨b.buffer,
      witnessMduCountOf maxUserMdus pairStripe.leafCount, maxUserMdus,
        effectiveCommitments pairStripe.leafCount⟩ records := fun _ => hlists.of_buffer rfl
  -- what is there is copied
  have hcopy : (List.range (1 : UInt64).toNat).mapM (fun userIdx =>
      copyShards pairStripe old (1 + (1 : UInt64).toNat + userIdx)) = .ok [[[x], [x]]] := by
    have hlen : old.witnessMdus.length = 1 := by
      rw [hwitness, witnessMdus, List.length_map, List.length_range]
      rfl
    have hslot : ∀ slot ∈ List.range 2,
        orFail (old.slotFile 2 slot) "failed to copy existing shard" = .ok [x] := by
      intro slot hmem
      have hlt : slot < 2 := List.mem_range.mp hmem
      rw [orFail_eq_ok, Mode2Slab.slotFile, hlen, hshards, if_neg (by decide)]
      show [[x], [x]][slot]? = some [x]
      interval_cases slot <;> rfl
    have hfirst : copyShards pairStripe old 2 = .ok [[x], [x]] :=
      mapM_ok (g := fun _ => [x]) hslot
    show (List.range 1).mapM (fun userIdx => copyShards pairStripe old (2 + userIdx)) = _
    rw [List.range_one, List.mapM_cons, Nat.add_zero, hfirst]
    rfl
  have hrecover : recoverWitnessBytes (witnessDir old.witnessMdus) 1 pairStripe.leafCount =
      .ok (paddedFlat [x]) := by
    have hflats : ∀ flat ∈ [paddedFlat [x]], flat.length = (128 : UInt64).toNat * 48 := by
      intro flat hmem
      rw [List.mem_singleton.mp hmem, length_paddedFlat]
      rfl
    have hiff := @recoverWitnessBytes_iff 1 128 [paddedFlat [x]] rfl hflats
    have hone : (Mdu0Builder.newWithCommitments 1 128).witnessMduCount = 1 := hcount₁
    rw [hone, List.flatten_singleton, ← hwitness] at hiff
    exact hiff.mpr (by rw [LastMduFits]; decide)
  -- the new file is behind it
  obtain ⟨b₁, happend, hlists₁⟩ := appendSample_ok (hloaded (1 + 1)) hroom hpath hlength
    (1 * rawMduCapacityU64)
  have hexpand := @expandByte_ok y (some 6144) (by simp)
  have hflat : [byteMdu y].flatMap (·.witnessFlat) = paddedFlat [y] :=
    List.flatMap_singleton _ _
  have htotal : (paddedFlat [x] ++ paddedFlat [y]).length = (1 + 1 : UInt64).toNat * 6144 := by
    rw [List.length_append, length_paddedFlat, length_paddedFlat]
    rfl
  -- the root of the old MDU is computed again
  have hroots : (List.range (1 : UInt64).toNat).mapM (fun userIdx =>
      copyCrypto.computeMduRootFromWitnessFlat (Gateway.slice (paddedFlat [x] ++ paddedFlat [y])
        (userIdx * 6144) (userIdx * 6144 + 6144))) = .ok [paddedRoot [x]] := by
    have hslice : Gateway.slice (paddedFlat [x] ++ paddedFlat [y]) (0 * 6144) (0 * 6144 + 6144) =
        paddedFlat [x] := by
      rw [Gateway.slice, Nat.zero_mul, Nat.zero_add, List.drop_zero,
        List.take_left' (length_paddedFlat [x])]
    show (List.range 1).mapM _ = _
    rw [List.range_one, List.mapM_cons, hslice]
    show (Except.ok ((paddedFlat [x]).take 32) >>= _) = _
    rw [take_paddedFlat]
    rfl
  have hwroots : (witnessMdus 1 (paddedFlat [x] ++ paddedFlat [y])).mapM
      copyCrypto.computeMduMerkleRoot = .ok [List.replicate 32 0] := rfl
  -- the roots of the witness MDU and of the two user MDUs
  obtain ⟨b₂, hb₂⟩ := @setRoots_isOk b₁ 0 [List.replicate 32 0] (by decide) (by decide)
  obtain ⟨b₃, hb₃⟩ := @setRoots_isOk b₂ 1 ([paddedRoot [x]] ++ [paddedRoot [y]])
    (show 1 + 2 ≤ 65536 by decide) (by simp [length_paddedRoot])
  refine ⟨⟨byteRoot y, ⟨b₃.buffer, witnessMdus 1 (paddedFlat [x] ++ paddedFlat [y]),
    [[[x], [x]]] ++ [[[y], [y]]], []⟩, 1, totalSizeBytesFromMdu0 (records ++ [fileRecord
      (recordPath fileRecordPath) 1 (1 * rawMduCapacityU64) hlength]), 1, 1 + 1⟩, ?_, rfl⟩
  have hlive : (records.filter fun rec => !rec.isTombstone) = liveRecords records := rfl
  simp only [mode2BuildArtifactsAppend]
  refine except_bind_ok.mpr ⟨(), rfl, except_bind_ok.mpr ⟨_, hload 1, except_bind_ok.mpr
    ⟨records, orFail_eq_ok.mpr (hloaded 1).records_eq, ?_⟩⟩⟩
  simp only [hlive, hend, userMdusOfByte, hcount₁, hcount₂, hperUser]
  refine except_bind_ok.mpr ⟨(), rejectIf_eq_ok.mpr (by decide), except_bind_ok.mpr ⟨_, hcopy,
    except_bind_ok.mpr ⟨_, hrecover, except_bind_ok.mpr ⟨_, hload (1 + 1), except_bind_ok.mpr
    ⟨(), rejectIf_eq_ok.mpr (not_not.mpr hcount₂), except_bind_ok.mpr
    ⟨b₁, mapError_eq_ok.mpr happend, except_bind_ok.mpr
    ⟨_, orFail_eq_ok.mpr hlists₁.records_eq, except_bind_ok.mpr ⟨_, hexpand, ?_⟩⟩⟩⟩⟩⟩⟩⟩
  simp only [hflat]
  exact except_bind_ok.mpr ⟨(), rejectIf_eq_ok.mpr (not_not.mpr htotal), except_bind_ok.mpr
    ⟨_, hroots, except_bind_ok.mpr ⟨_, buildWitnessMdus_ok _ _, except_bind_ok.mpr ⟨_, hwroots,
    except_bind_ok.mpr ⟨b₂, hb₂, except_bind_ok.mpr ⟨b₃, hb₃, except_bind_ok.mpr
    ⟨_, commitByte_ok b₃ _ _ [paddedRoot [x]] _ y, rfl⟩⟩⟩⟩⟩⟩⟩

/-- The deal, without slabs and runs. -/
def pairWorld : UploadWorld Ledger := ⟨pairState, KVStore.empty, [], []⟩

/-- Two runs read the deal while it has no content, and the first one commits. -/
def overlapSteps : List UploadStep :=
  [.build [1] [97], .build [2] [98], .commit 0 (ctxAt 2) ownerText 1]

/-- Then the second one commits. -/
def staleCommit : UploadStep := .commit 0 (ctxAt 2) ownerText 1

/-- Or a third one reads the deal as it is then, and commits before the second one. -/
def appendSteps : List UploadStep :=
  overlapSteps ++ [.build [3] [99], .commit 1 (ctxAt 2) ownerText 2]

/-- The sample deal, empty and with two shards. -/
theorem pairDeal : ∃ deal, pairState.deals.get 0 = some deal ∧ deal.manifestRoot = [] ∧
    stripeParamsFromHint deal.serviceHint = .ok pairStripe := by
  have hshape : (pairState.deals.get 0).map (fun deal => (deal.manifestRoot, deal.serviceHint)) =
      some ([], "General:rs=1+1".toList) := by decide +kernel
  have hhint : stripeParamsFromHint "General:rs=1+1".toList = .ok pairStripe := by decide +kernel
  obtain ⟨deal, hdeal, hshape⟩ := Option.map_eq_some_iff.mp hshape
  rw [Prod.mk.injEq] at hshape
  exact ⟨deal, hdeal, hshape.1, by rw [hshape.2, hhint]⟩

/-- A run that reads the deal without content. -/
theorem byteBuild_ok {w : UploadWorld Ledger} (hchain : w.chain = pairState) (x : UInt8)
    {fileRecordPath : Bytes} (hpath : isUtf8 (recordPath fileRecordPath) = true)
    (hlength : (recordPath fileRecordPath).length ≤ 40) :
    ∃ res, ByteBuilt x fileRecordPath res ∧
      w.build copyCrypto 0 [x] fileRecordPath = .ok ⟨[x], fileRecordPath, [], res⟩ := by
  obtain ⟨res, hres⟩ := byteSlab_ok x hpath hlength
  obtain ⟨deal, hdeal, hempty, hstripe⟩ := pairDeal
  refine ⟨res, hres, ?_⟩
  have hget : w.chain.deals.get (0 : UInt64).toNat = some deal := by
    rw [hchain]
    exact hdeal
  rw [UploadWorld.build, hget]
  have hbuild : buildSlab copyCrypto w.slabs deal [x] fileRecordPath = .ok res := by
    rw [buildSlab, hstripe, hempty]
    exact hres.build
  refine except_bind_ok.mpr ⟨deal, rfl, except_bind_ok.mpr ⟨res, hbuild, ?_⟩⟩
  rw [hempty]
  rfl

/-- The step of the model, on the small chain. -/
abbrev pairStep : UploadWorld Ledger → UploadStep → UploadWorld Ledger :=
  UploadWorld.step (sampleEnv noKeccak []) copyCrypto 0

/-- A run that has built for a new root. -/
theorem pairStep_build {w : UploadWorld Ledger} {file fileRecordPath : Bytes} {r : UploadRun}
    (hbuild : w.build copyCrypto 0 file fileRecordPath = .ok r)
    (hget : w.slabs.get r.result.manifestRoot = none) :
    pairStep w (.build file fileRecordPath) = { w with
      slabs := w.slabs.set r.result.manifestRoot r.result.slab
      runs := w.runs ++ [r] } := by
  have hfinal : mode2FinalizeStagingDir w.slabs r.result.manifestRoot r.result.slab =
      w.slabs.set r.result.manifestRoot r.result.slab := by
    rw [mode2FinalizeStagingDir, hget]
    rfl
  rw [pairStep, UploadWorld.step, hbuild]
  simp only [hfinal]

/-- What a commit that the chain takes does. -/
theorem step_commit {β : Type} {env : Env β} {crypto : SlabCrypto} {dealId : UInt64}
    {w : UploadWorld β}
    {i : Nat} {r : UploadRun} {ctx : Ctx} {creator : Str} {size : UInt64} {chain : KeeperState β}
    (hr : w.runs[i]? = some r)
    (hexec : (updateDealContent env ctx (r.commitMsg dealId creator size)).exec w.chain =
      (.ok (), chain)) :
    w.step env crypto dealId (.commit i ctx creator size) = { w with
      chain := chain
      runs := w.runs.eraseIdx i
      committed := w.committed ++ [(r.fileRecordPath, r.file)] } := by
  rw [UploadWorld.step]
  simp only [hr, hexec]

/-- The message that commits a sample slab. -/
abbrev commitOf (x : UInt8) (size : UInt64) : Chain.Handler Ledger Unit :=
  updateDealContent (sampleEnv noKeccak []) (ctxAt 2)
    ⟨ownerText, 0, canonicalRoot (byteRoot x), size⟩

/-- The chain takes the root of the first run, and then that of the second, or of the third. -/
theorem pairCommit_ok {x : UInt8} {size : UInt64} (h : (x, size) = (2, 1) ∨ (x, size) = (3, 2)) :
    ∃ chain₁ chain₂, (commitOf 1 1).exec pairState = (.ok (), chain₁) ∧
      (commitOf x size).exec chain₁ = (.ok (), chain₂) := by
  have hboth : ((commitOf 1 1 >>= fun _ => commitOf x size).exec pairState).1 = .ok () := by
    rcases h with h | h <;> cases h <;> decide +kernel
  obtain ⟨chain₂, hexec⟩ := Tx.exists_exec_eq hboth
  obtain ⟨u, chain₁, hfirst, hsecond⟩ := Tx.exec_bind_ok.mp hexec
  exact ⟨chain₁, chain₂, hfirst, hsecond⟩

/-- The world after the two builds: the chain is as it was, and both slabs are there. -/
structure BothBuilt (w : UploadWorld Ledger) (res₁ res₂ : Mode2IngestResult) : Prop where
  first : ByteBuilt 1 [97] res₁
  second : ByteBuilt 2 [98] res₂
  chain : w.chain = pairState
  slabs : w.slabs = (KVStore.empty.set (byteRoot 1) res₁.slab).set (byteRoot 2) res₂.slab
  runs : w.runs = [⟨[1], [97], [], res₁⟩, ⟨[2], [98], [], res₂⟩]
  committed : w.committed = []

/-- The sample names fit a record. -/
theorem pairNames_ok : ∀ name ∈ [[97], [98], [99]], isUtf8 (recordPath name) = true ∧
    (recordPath name).length ≤ 40 := by decide +kernel

/-- The two runs have built, and neither is committed: both have read a deal without content. -/
theorem overlap_built : ∃ w₁ w₂ res₁ res₂, pairStep pairWorld (.build [1] [97]) = w₁ ∧
    pairStep w₁ (.build [2] [98]) = w₂ ∧
    w₁.build copyCrypto 0 [2] [98] = .ok ⟨[2], [98], [], res₂⟩ ∧
    w₁.runs = [⟨[1], [97], [], res₁⟩] ∧ w₁.committed = [] ∧ w₁.slabs.get (byteRoot 2) = none ∧
    BothBuilt w₂ res₁ res₂ := by
  have hne : byteRoot 2 ≠ byteRoot 1 := by decide
  have hnames := pairNames_ok
  obtain ⟨hpath₁, hlength₁⟩ := hnames [97] (by decide)
  obtain ⟨hpath₂, hlength₂⟩ := hnames [98] (by decide)
  obtain ⟨res₁, hres₁, hbuild₁⟩ := @byteBuild_ok pairWorld rfl 1 [97] hpath₁ hlength₁
  have hstep₁ := pairStep_build hbuild₁ rfl
  obtain ⟨w₁, hw₁⟩ : ∃ w, pairStep pairWorld (.build [1] [97]) = w := ⟨_, rfl⟩
  rw [hw₁] at hstep₁
  have hchain₁ : w₁.chain = pairState := by
    rw [hstep₁]
    rfl
  have hslabs₁ : w₁.slabs = KVStore.empty.set (byteRoot 1) res₁.slab := by
    rw [hstep₁, ← hres₁.root]
    rfl
  have hruns₁ : w₁.runs = [⟨[1], [97], [], res₁⟩] := by
    rw [hstep₁]
    rfl
  have hcommitted₁ : w₁.committed = [] := by
    rw [hstep₁]
    rfl
  have hnone : w₁.slabs.get (byteRoot 2) = none := by
    rw [hslabs₁, KVStore.get_set_ne _ hne]
    rfl
  -- the second one, on the same chain
  obtain ⟨res₂, hres₂, hbuild₂⟩ := byteBuild_ok hchain₁ 2 hpath₂ hlength₂
  have hstep₂ := pairStep_build hbuild₂ (by rw [hres₂.root, hnone])
  refine ⟨w₁, _, res₁, res₂, hw₁, rfl, hbuild₂, hruns₁, hcommitted₁, hnone, ?_⟩
  rw [hstep₂]
  refine ⟨hres₁, hres₂, hchain₁, ?_, ?_, hcommitted₁⟩
  · rw [← hslabs₁, ← hres₂.root]
  · rw [hruns₁]
    rfl

/-- The first run commits. -/
theorem BothBuilt.commit_first {w : UploadWorld Ledger} {res₁ res₂ : Mode2IngestResult}
    {chain : KeeperState Ledger} (h : BothBuilt w res₁ res₂)
    (hexec : (commitOf 1 1).exec pairState = (.ok (), chain)) :
    pairStep w (.commit 0 (ctxAt 2) ownerText 1) =
        ⟨chain, w.slabs, [⟨[2], [98], [], res₂⟩], [([97], [1])]⟩ ∧
      ∃ deal, chain.deals.get 0 = some deal ∧ deal.manifestRoot = byteRoot 1 ∧
        stripeParamsFromHint deal.serviceHint = .ok pairStripe := by
  have hmsg : (updateDealContent (sampleEnv noKeccak []) (ctxAt 2)
      (UploadRun.commitMsg 0 ⟨[1], [97], [], res₁⟩ ownerText 1)).exec w.chain =
        (.ok (), chain) := by
    rw [UploadRun.commitMsg, h.first.root, h.chain]
    exact hexec
  refine ⟨?_, ?_⟩
  · rw [pairStep, step_commit (by rw [h.runs]; rfl) hmsg, h.runs, h.committed]
    rfl
  · obtain ⟨deal, deposit, hdeal, hnext⟩ := UploadRun.commit_ok
      (show res₁.manifestRoot.length = 48 by rw [h.first.root, length_byteRoot]) hmsg
    obtain ⟨deal', hdeal', -, hstripe⟩ := pairDeal
    rw [h.chain] at hdeal
    obtain rfl := Option.some.inj (hdeal.symm.trans hdeal')
    exact ⟨_, hnext, h.first.root, hstripe⟩

/-- The third run reads the slab of the first one, and appends to it, after the deal has taken the
root of the first. -/
theorem BothBuilt.build_third {w w' : UploadWorld Ledger} {res₁ res₂ : Mode2IngestResult}
    (h : BothBuilt w res₁ res₂) (hslabs : w'.slabs = w.slabs) {deal : Deal}
    (hdeal : w'.chain.deals.get 0 = some deal) (hroot : deal.manifestRoot = byteRoot 1)
    (hstripe : stripeParamsFromHint deal.serviceHint = .ok pairStripe) :
    ∃ res₃, res₃.manifestRoot = byteRoot 3 ∧
      w'.build copyCrypto 0 [3] [99] = .ok ⟨[3], [99], byteRoot 1, res₃⟩ := by
  obtain ⟨hpath, hlength⟩ := pairNames_ok [99] (by decide)
  -- the slab of the first run, and its table
  have hget : w'.slabs.get (byteRoot 1) = some res₁.slab := by
    rw [hslabs, h.slabs, KVStore.get_set_ne _ (by decide), KVStore.get_set_self]
  obtain ⟨-, hadded⟩ := mode2BuildArtifacts_ok h.first.build
  obtain ⟨b, hbuffer, hlists⟩ := hadded.lists
  have hend : userMdusUpTo (maxEnd (liveRecords [addedRecord [1] [97] 0 (by decide)])) = 1 := by
    decide +kernel
  obtain ⟨res₃, happend, hroot₃⟩ := appendByte_ok hbuffer hlists (show 1 < 98302 by decide) hend
    h.first.witnessMdus h.first.userShards 3 hpath hlength
  refine ⟨res₃, hroot₃, ?_⟩
  -- the deal has a root, so the slab of that root is read
  have hbuild : buildSlab copyCrypto w'.slabs deal [3] [99] = .ok res₃ := by
    rw [buildSlab, hstripe, hroot]
    refine except_bind_ok.mpr ⟨pairStripe, rfl, ?_⟩
    rw [if_neg (by decide), hget]
    exact happend
  rw [UploadWorld.build]
  refine except_bind_ok.mpr ⟨deal, orFail_eq_ok.mpr hdeal, except_bind_ok.mpr ⟨res₃, hbuild, ?_⟩⟩
  rw [hroot]
  rfl

/-- The directory of the third run is not there before. -/
theorem BothBuilt.slab_third {w : UploadWorld Ledger} {res₁ res₂ : Mode2IngestResult}
    (h : BothBuilt w res₁ res₂) : w.slabs.get (byteRoot 3) = none := by
  rw [h.slabs, KVStore.get_set_ne _ (by decide), KVStore.get_set_ne _ (by decide)]
  rfl

/-- The first run has read the root that it replaces, and the slabs have roots of their own. So the
overlap meets the condition up to the first commit. -/
theorem overlap_current :
    Along (fun past e => (run pairStep pairWorld past).Binds copyCrypto 0 e) overlapSteps ∧
      Along (fun past e => (run pairStep pairWorld past).Current (sampleEnv noKeccak []) 0 e)
        overlapSteps := by
  obtain ⟨w₁, w₂, res₁, res₂, hw₁, hw₂, hbuild₂, hruns₁, hcommitted₁, hnone, hboth⟩ :=
    overlap_built
  have hrun₁ : run pairStep pairWorld [.build [1] [97]] = w₁ := by
    rw [run_cons, run_nil, hw₁]
  have hrun₂ : run pairStep pairWorld [.build [1] [97], .build [2] [98]] = w₂ := by
    rw [run_cons, run_cons, run_nil, hw₁, hw₂]
  -- each build stores its slab under a new root
  have hbinds₁ : (run pairStep pairWorld []).Binds copyCrypto 0 (.build [1] [97]) := by
    intro r hr slab hslab
    cases hslab
  have hbinds₂ : (run pairStep pairWorld [.build [1] [97]]).Binds copyCrypto 0
      (.build [2] [98]) := by
    rw [hrun₁]
    intro r hr slab hslab
    rw [hbuild₂] at hr
    cases hr
    rw [hboth.second.root, hnone] at hslab
    cases hslab
  -- each build has a name of its own
  have hcurrent₁ : (run pairStep pairWorld []).Current (sampleEnv noKeccak []) 0
      (.build [1] [97]) := ⟨by decide, by decide, nofun, nofun⟩
  have hcurrent₂ : (run pairStep pairWorld [.build [1] [97]]).Current (sampleEnv noKeccak []) 0
      (.build [2] [98]) := by
    rw [hrun₁]
    refine ⟨by decide, by decide, ?_, ?_⟩
    · rw [hruns₁]
      intro r hr
      rw [List.mem_singleton.mp hr]
      show recordPath [97] ≠ recordPath [98]
      decide
    · rw [hcommitted₁]
      exact nofun
  -- the commit finds the deal as the run has read it
  have hcurrent₃ : (run pairStep pairWorld [.build [1] [97], .build [2] [98]]).Current
      (sampleEnv noKeccak []) 0 (.commit 0 (ctxAt 2) ownerText 1) := by
    rw [hrun₂]
    intro r hr chain hexec deal hdeal
    rw [hboth.runs] at hr
    cases hr
    rw [hboth.chain] at hdeal
    obtain ⟨deal', hdeal', hempty, -⟩ := pairDeal
    obtain rfl := Option.some.inj (hdeal.symm.trans hdeal')
    exact hempty
  exact ⟨along_snoc (along_snoc (along_snoc along_nil hbinds₁) hbinds₂) trivial,
    along_snoc (along_snoc (along_snoc along_nil hcurrent₁) hcurrent₂) hcurrent₃⟩

/-- **The append of the third run keeps the first file.** Both commits find the root that their runs
have read, and the second run, which has read the deal without content, is still waiting. -/
theorem noneLost_of_current_append :
    (run pairStep pairWorld appendSteps).committed = [([97], [1]), ([99], [3])] ∧
      (run pairStep pairWorld appendSteps).NoneLost copyCrypto 0 := by
  -- the two builds and the first commit, as before
  obtain ⟨w₁, w₂, res₁, res₂, hw₁, hw₂, -, -, -, -, hboth⟩ := overlap_built
  obtain ⟨chain₁, chain₂, hexec₁, hexec₂⟩ := @pairCommit_ok 3 2 (Or.inr rfl)
  obtain ⟨hw₃, deal, hdeal, hroot, hstripe⟩ := hboth.commit_first hexec₁
  obtain ⟨res₃, hres₃, hbuild₃⟩ := @BothBuilt.build_third w₂
    ⟨chain₁, w₂.slabs, [⟨[2], [98], [], res₂⟩], [([97], [1])]⟩ res₁ res₂ hboth rfl deal hdeal
    hroot hstripe
  have hnone₃ : w₂.slabs.get res₃.manifestRoot = none := by
    rw [hres₃]
    exact hboth.slab_third
  have hw₄ := pairStep_build hbuild₃ hnone₃
  -- the chain takes the root of the third run
  have hmsg₃ : (updateDealContent (sampleEnv noKeccak []) (ctxAt 2)
      (UploadRun.commitMsg 0 ⟨[3], [99], byteRoot 1, res₃⟩ ownerText 2)).exec chain₁ =
        (.ok (), chain₂) := by
    rw [UploadRun.commitMsg, hres₃]
    exact hexec₂
  have hrun₃ : run pairStep pairWorld overlapSteps =
      ⟨chain₁, w₂.slabs, [⟨[2], [98], [], res₂⟩], [([97], [1])]⟩ := by
    rw [overlapSteps, run_cons, run_cons, run_cons, run_nil, hw₁, hw₂, hw₃]
  have hrun₄ : run pairStep pairWorld (overlapSteps ++ [.build [3] [99]]) =
      ⟨chain₁, w₂.slabs.set res₃.manifestRoot res₃.slab,
        [⟨[2], [98], [], res₂⟩, ⟨[3], [99], byteRoot 1, res₃⟩], [([97], [1])]⟩ := by
    rw [run_snoc, hrun₃, hw₄]
    rfl
  have hrun₅ : run pairStep pairWorld (overlapSteps ++ [.build [3] [99]] ++
      [.commit 1 (ctxAt 2) ownerText 2]) =
      ⟨chain₂, w₂.slabs.set res₃.manifestRoot res₃.slab, [⟨[2], [98], [], res₂⟩],
        [([97], [1]), ([99], [3])]⟩ := by
    rw [run_snoc, hrun₄, pairStep, step_commit rfl hmsg₃]
    rfl
  -- each step meets the condition
  have hbinds₄ : (run pairStep pairWorld overlapSteps).Binds copyCrypto 0 (.build [3] [99]) := by
    rw [hrun₃]
    intro r hr slab hslab
    rw [hbuild₃] at hr
    cases hr
    rw [hnone₃] at hslab
    cases hslab
  have hcurrent₄ : (run pairStep pairWorld overlapSteps).Current (sampleEnv noKeccak []) 0
      (.build [3] [99]) := by
    rw [hrun₃]
    refine ⟨by decide, by decide, fun r hr => ?_, fun e he => ?_⟩
    · rw [List.mem_singleton.mp hr]
      show recordPath [98] ≠ recordPath [99]
      decide
    · rw [List.mem_singleton.mp he]
      show recordPath [97] ≠ recordPath [99]
      decide
  -- the deal still has the root that the third run has read
  have hcurrent₅ : (run pairStep pairWorld (overlapSteps ++ [.build [3] [99]])).Current
      (sampleEnv noKeccak []) 0 (.commit 1 (ctxAt 2) ownerText 2) := by
    rw [hrun₄]
    intro r hr chain hexec deal' hdeal'
    cases hr
    obtain rfl := Option.some.inj (hdeal.symm.trans hdeal')
    exact hroot
  obtain ⟨hbinds, hcurrent⟩ := overlap_current
  refine ⟨congrArg UploadWorld.committed hrun₅, ?_⟩
  exact noneLost_of_current (sampleEnv noKeccak []) copyCrypto 0 pairWorld ⟨rfl, rfl⟩ appendSteps
    (along_snoc (along_snoc hbinds hbinds₄) trivial)
    (along_snoc (along_snoc hcurrent hcurrent₄) hcurrent₅) appendSteps List.prefix_rfl

/-- The second run commits a slab without the file of the first: it was built before the first
commit, on a deal without content. -/
theorem overlap_loses : (run pairStep pairWorld (overlapSteps ++ [staleCommit])).committed =
      [([97], [1]), ([98], [2])] ∧
    ¬(run pairStep pairWorld (overlapSteps ++ [staleCommit])).NoneLost copyCrypto 0 := by
  obtain ⟨w₁, w₂, res₁, res₂, hw₁, hw₂, -, -, -, -, hboth⟩ := overlap_built
  obtain ⟨chain₁, chain₂, hexec₁, hexec₂⟩ := @pairCommit_ok 2 1 (Or.inl rfl)
  have hcommit₁ := (hboth.commit_first hexec₁).1
  have hmsg₂ : (updateDealContent (sampleEnv noKeccak []) (ctxAt 2)
      (UploadRun.commitMsg 0 ⟨[2], [98], [], res₂⟩ ownerText 1)).exec chain₁ =
        (.ok (), chain₂) := by
    rw [UploadRun.commitMsg, hboth.second.root]
    exact hexec₂
  have hcommit₂ : pairStep ⟨chain₁, w₂.slabs, [⟨[2], [98], [], res₂⟩], [([97], [1])]⟩ staleCommit =
      ⟨chain₂, w₂.slabs, [], [([97], [1]), ([98], [2])]⟩ := by
    rw [pairStep, staleCommit, step_commit rfl hmsg₂]
    rfl
  have hrun : run pairStep pairWorld (overlapSteps ++ [staleCommit]) =
      ⟨chain₂, w₂.slabs, [], [([97], [1]), ([98], [2])]⟩ := by
    rw [run_snoc, overlapSteps, run_cons, run_cons, run_cons, run_nil, hw₁, hw₂,
      hcommit₁, hcommit₂]
  rw [hrun]
  refine ⟨rfl, fun hnone => ?_⟩
  -- the first file would be in the slab of the deal
  obtain ⟨deal, stripe, slab, b, records, hdeal, -, hslab, hload, hholds⟩ :=
    hnone ([97], [1]) List.mem_cons_self
  -- the deal is committed to the slab of the second run
  have hlength : res₂.manifestRoot.length = 48 := by
    rw [hboth.second.root, length_byteRoot]
  obtain ⟨deal', deposit, -, hdeal'⟩ := UploadRun.commit_ok hlength hmsg₂
  obtain rfl := Option.some.inj (hdeal.symm.trans hdeal')
  have hslab : w₂.slabs.get res₂.manifestRoot = some slab := hslab
  rw [hboth.second.root, hboth.slabs, KVStore.get_set_self, Option.some.injEq] at hslab
  subst hslab
  -- and its table has the file of the second run alone
  obtain ⟨-, hadded⟩ := mode2BuildArtifacts_ok hboth.second.build
  obtain ⟨b', hbuffer, hlists⟩ := hadded.lists
  obtain ⟨b'', -, hload'⟩ := Gateway.loadRecords_eq hlists
  rw [hbuffer, hload, Except.ok.injEq, Prod.mk.injEq] at hload'
  obtain ⟨start, hlast, -⟩ := hholds
  rw [hload'.2, hadded.liveFiles_eq (by decide) (by decide), lastValue_append_singleton,
    if_neg (by decide)] at hlast
  cases hlast

end NilStore.Gateway
