import NilStore.Gateway.ShardTransfer
import NilStore.Proofs.Reconstructed
import NilStore.Proofs.UploadsStored

/-!
# `NilStore.Proofs.SlabRecovery`: an uploaded slab comes back from any `K` providers

A gateway uploads a slab, the providers go on to handle whatever requests they get, and then a
gateway that has lost its files, or never had them, asks for the shards of an MDU. `slab_recovered`
says that it gets that MDU and no other, and that any `K` slots that are there are enough, as long
as nobody sends a provider other bytes under the name of one of these shards.

What the file of a shard can be is said once for a request (`get_handleUpload`) and once for a
history (`kept_run`, `stored_run`). The rest is the reconstruction from shards.
-/

set_option autoImplicit false

namespace NilStore.Gateway

open NilStore.Lib NilStore.Core NilStore.Chain

/-! ### Texts that are read back -/

/-- A hexadecimal digit is no white space. -/
theorem isSpace_hexDigit {n : Nat} (h : n < 16) : isSpace (hexDigit n) = false := by
  interval_cases n <;> rfl

/-- A hexadecimal digit takes one byte. -/
theorem length_utf8_hexDigit {n : Nat} (h : n < 16) :
    (String.utf8EncodeChar (hexDigit n)).length = 1 := by
  interval_cases n <;> rfl

/-- A hexadecimal text has hexadecimal digits only. -/
theorem exists_of_mem_hexEncode {b : Bytes} {c : Char} (h : c ∈ hexEncode b) :
    ∃ n < 16, c = hexDigit n := by
  obtain ⟨x, -, hx⟩ := List.mem_flatMap.mp h
  have hlt : x.toNat < 256 := x.toNat_lt
  simp only [List.mem_cons, List.not_mem_nil, or_false] at hx
  rcases hx with rfl | rfl
  · exact ⟨_, by omega, rfl⟩
  · exact ⟨_, by omega, rfl⟩

/-- Hex text is ASCII. -/
theorem length_utf8_hexEncode (b : Bytes) : (utf8 (hexEncode b)).length = 2 * b.length := by
  induction b with
  | nil => rfl
  | cons x rest ih =>
      have hlt : x.toNat < 256 := x.toNat_lt
      rw [hexEncode, List.flatMap_cons, ← hexEncode]
      show (String.utf8EncodeChar _ ++ (String.utf8EncodeChar _ ++ utf8 (hexEncode rest))).length =
        _
      rw [List.length_append, List.length_append, length_utf8_hexDigit (by omega),
        length_utf8_hexDigit (by omega), ih, List.length_cons]
      omega

variable {normalizeG1 : Bytes → Option Bytes} {uploadDir : Path}

/-- A canonical root has no white space around it. -/
theorem trimSpace_canonical (root : ManifestRoot normalizeG1) :
    trimSpace root.canonical = root.canonical := by
  refine trimSpace_eq_self fun c hc => ?_
  rcases List.mem_append.mp hc with hc | hc
  · rcases List.mem_cons.mp hc with rfl | hc
    · rfl
    · rw [List.mem_singleton.mp hc]
      rfl
  · obtain ⟨n, hn, rfl⟩ := exists_of_mem_hexEncode hc
    exact isSpace_hexDigit hn

/-- The canonical text of a root is read back. -/
theorem parseManifestRoot_canonical (root : ManifestRoot normalizeG1) :
    parseManifestRoot normalizeG1 (trimSpace root.canonical) = some root.key := by
  have htrim : trimPrefix root.canonical "0x".toList = root.key := by
    show (if hasPrefix ('0' :: 'x' :: root.key) ['0', 'x'] then root.key else _) = _
    exact if_pos rfl
  have hne : ¬(root.canonical = [] ∨ (utf8 root.key).length ≠ 96) := by
    rw [ManifestRoot.key, length_utf8_hexEncode, root.length_eq]
    simp [ManifestRoot.canonical, canonicalRoot]
  rw [parseManifestRoot]
  simp only [trimSpace_canonical, htrim]
  rw [if_neg hne, ManifestRoot.key, hexDecode_hexEncode]
  show (if root.bytes.length ≠ 48 then none else _) = _
  rw [if_neg (not_not.mpr root.length_eq), root.normalized]
  rfl

/-- A number in a header is read back from its decimal digits. -/
theorem parseUint_decimal_toNat (n : UInt64) :
    parseUint (trimSpace (decimal n.toNat)) = some n := by
  rw [trimSpace_decimal, parseUint_decimal n.toNat_lt, UInt64.ofNat_toNat]

/-- No artifact has a slash in its name, so each lies right in its directory. The names are made of
fixed parts and of numbers. -/
theorem slash_notMem_name (kind : ArtifactKind) : '/' ∉ kind.name := by
  -- neither a number nor a fixed part has a slash
  have hnumber : ∀ i : UInt64, '/' ∉ decimal (i.toNat : Int) := fun i => not_mem_decimal (by decide)
  have hstart : '/' ∉ "mdu_".toList := by decide
  have hend : '/' ∉ ".bin".toList := by decide
  have hslot : '/' ∉ "_slot_".toList := by decide
  cases kind with
  | mdu i =>
      rw [ArtifactKind.name_mdu, List.mem_append, List.mem_append]
      rintro ((h | h) | h)
      · exact hstart h
      · exact hnumber i h
      · exact hend h
  | shard i slot =>
      rw [ArtifactKind.name_shard, List.mem_append, List.mem_append, List.mem_append,
        List.mem_append]
      rintro ((((h | h) | h) | h) | h)
      · exact hstart h
      · exact hnumber i h
      · exact hslot h
      · exact hnumber slot h
      · exact hend h
  | manifest =>
      show '/' ∉ "manifest.bin".toList
      decide

/-! ### One request -/

/-- The request goes to this file. -/
def Upload.Writes (normalizeG1 : Bytes → Option Bytes) (uploadDir : Path) (a : Upload)
    (p : Path) : Prop :=
  ∃ u, decodeUpload normalizeG1 a = .ok u ∧ u.dir uploadDir ++ [u.filename] = p

section Request

variable {t : FileTree} {a : Upload} {art : Artifact}

/-- An upload that decodes is stored. -/
theorem handleUpload_decoded {u : PendingUpload} (hoptions : a.req.options = false)
    (hdecode : decodeUpload normalizeG1 a = .ok u) :
    (handleUpload normalizeG1 uploadDir a).exec t =
      (storeUpload uploadDir a.random a.req.body u).exec t := by
  rw [handleUpload_eq, hoptions, hdecode]
  rfl

/-- An upload that is refused before it is stored changes no file. -/
theorem handleUpload_refused
    (hnot : a.req.options = true ∨ ∃ e, decodeUpload normalizeG1 a = .error e) :
    ((handleUpload normalizeG1 uploadDir a).exec t).2 = t ∧
      ((handleUpload normalizeG1 uploadDir a).exec t).1 ≠ .ok .statusOk := by
  rw [handleUpload_eq]
  by_cases hoptions : a.req.options = true
  · rw [if_pos hoptions, Tx.exec_pure]
    exact ⟨rfl, by simp⟩
  · obtain ⟨e, he⟩ := hnot.resolve_left hoptions
    rw [if_neg hoptions, he]
    exact ⟨rfl, by simp [Tx.exec_bind]⟩

/-- A file is as it was after a request, or it is the body of a request that goes there. A refused
request and one for another file leave it alone. -/
theorem get_handleUpload (t : FileTree) (a : Upload) (art : Artifact) :
    ((handleUpload normalizeG1 uploadDir a).exec t).2.get (art.path uploadDir) =
      t.get (art.path uploadDir) ∨
      a.Writes normalizeG1 uploadDir (art.path uploadDir) ∧
        ((handleUpload normalizeG1 uploadDir a).exec t).2.get (art.path uploadDir) =
          some (.file a.req.body) := by
  -- refused at once, or by the decoding of its headers
  by_cases hoptions : a.req.options = true
  · rw [(handleUpload_refused (Or.inl hoptions)).1]
    exact Or.inl rfl
  cases hdecode : decodeUpload normalizeG1 a with
  | error e =>
      rw [(handleUpload_refused (Or.inr ⟨e, hdecode⟩)).1]
      exact Or.inl rfl
  | ok u =>
      rw [handleUpload_decoded (by simpa using hoptions) hdecode]
      -- present already, stored, or failed
      rcases @storeUpload_cases uploadDir u a.random a.req.body t
        (head?_of_names (decodeUpload_ok hdecode).2)
        with ⟨t₁, hmkdir, -, hexec⟩ | ⟨-, -, -, t', hexec, hbody, hsame⟩ | ⟨-, e, t', hexec, hsame⟩
      · rw [hexec]
        exact Or.inl (sameArtifacts_mkdirAll hmkdir art)
      · rw [hexec]
        by_cases hpath : art.path uploadDir = u.dir uploadDir ++ [u.filename]
        · refine Or.inr ⟨⟨u, hdecode, hpath.symm⟩, ?_⟩
          rw [hpath]
          exact hbody
        · exact Or.inl (hsame art hpath)
      · rw [hexec]
        exact Or.inl (hsame art)

/-- A request that goes there and is answered 200 leaves a file. It was there before, or it is the
body. -/
theorem isSome_of_acknowledged (hwrites : a.Writes normalizeG1 uploadDir (art.path uploadDir))
    (hreply : ((handleUpload normalizeG1 uploadDir a).exec t).1 = .ok .statusOk) :
    (((handleUpload normalizeG1 uploadDir a).exec t).2.get (art.path uploadDir)).isSome := by
  -- the request was not refused
  obtain ⟨u, hdecode, hpath⟩ := hwrites
  have hoptions : a.req.options = false := by
    by_contra h
    exact (@handleUpload_refused normalizeG1 uploadDir t a (Or.inl (by simpa using h))).2 hreply
  rw [handleUpload_decoded hoptions hdecode] at hreply ⊢
  rcases @storeUpload_cases uploadDir u a.random a.req.body t
    (head?_of_names (decodeUpload_ok hdecode).2)
    with ⟨t₁, hmkdir, hpresent, hexec⟩ | ⟨-, -, -, t', hexec, hbody, -⟩ | ⟨-, e, t', hexec, -⟩
  · -- a file that is there counts as the upload
    have hname : u.filename = art.kind.name :=
      List.head_eq_of_cons_eq (List.append_inj_right' hpath rfl)
    have hplain : u.path uploadDir = art.path uploadDir := by
      rw [← hpath]
      refine PendingUpload.path_of_plain (head?_of_names (decodeUpload_ok hdecode).2) ?_
      rw [hname]
      exact slash_notMem_name art.kind
    rw [hexec, sameArtifacts_mkdirAll hmkdir art]
    rw [PendingUpload.Present, hplain, FileTree.fileSize] at hpresent
    cases hget : t.get (art.path uploadDir) with
    | none =>
        rw [hget] at hpresent
        cases hpresent
    | some node => rfl
  · rw [hexec, ← hpath, hbody]
    rfl
  · rw [hexec] at hreply
    cases hreply

end Request

/-! ### Histories -/

section History

variable {art : Artifact} {base : Str} {disks : Disks} {shard : Bytes} {h : List Delivery}

/-- The file is not there, or it is the shard. -/
def KeptAt (uploadDir : Path) (art : Artifact) (shard : Bytes) (t : FileTree) : Prop :=
  t.get (art.path uploadDir) = none ∨ t.get (art.path uploadDir) = some (.file shard)

/-- Nobody sends the provider other bytes for the artifact. -/
def OnlySent (normalizeG1 : Bytes → Option Bytes) (uploadDir : Path) (base : Str) (art : Artifact)
    (shard : Bytes) (h : List Delivery) : Prop :=
  ∀ d ∈ h, d.base = base → d.upload.Writes normalizeG1 uploadDir (art.path uploadDir) →
    d.upload.req.body = shard

/-- A request changes the disk of its provider. -/
theorem handleDelivery_get (disks : Disks) (d : Delivery) (base : Str) :
    handleDelivery normalizeG1 uploadDir disks d base =
      if d.base = base then ((handleUpload normalizeG1 uploadDir d.upload).exec (disks base)).2
      else disks base := by
  rw [handleDelivery]
  by_cases hbase : d.base = base
  · rw [if_pos hbase, ← hbase, Function.update_self]
  · rw [if_neg hbase, Function.update_of_ne (Ne.symm hbase)]

/-- A file that is the shard stays the shard. -/
theorem kept_step {d : Delivery} (hsent : d.base = base →
      d.upload.Writes normalizeG1 uploadDir (art.path uploadDir) → d.upload.req.body = shard)
    (hkept : KeptAt uploadDir art shard (disks base)) :
    KeptAt uploadDir art shard (handleDelivery normalizeG1 uploadDir disks d base) := by
  rw [handleDelivery_get]
  by_cases hbase : d.base = base
  · rw [if_pos hbase]
    rcases get_handleUpload (disks base) d.upload art with hsame | ⟨hwrites, hbody⟩
    · rw [KeptAt, hsame]
      exact hkept
    · rw [hsent hbase hwrites] at hbody
      exact Or.inr hbody
  · rw [if_neg hbase]
    exact hkept

/-- The run lemma: in a history that sends an artifact with one content only, it is stored with that
content or not at all. -/
theorem kept_run (hsent : OnlySent normalizeG1 uploadDir base art shard h)
    (hstart : (disks base).get (art.path uploadDir) = none) :
    KeptAt uploadDir art shard (runDeliveries normalizeG1 uploadDir disks h base) :=
  run_invariant (fun d : Delivery => d.base = base →
      d.upload.Writes normalizeG1 uploadDir (art.path uploadDir) → d.upload.req.body = shard)
    (fun disks : Disks => KeptAt uploadDir art shard (disks base)) (Or.inl hstart)
    (fun _ _ hkept hd => kept_step hd hkept) hsent

/-- What is sent in a history is sent in its beginnings. -/
theorem OnlySent.left {d : Delivery}
    (hsent : OnlySent normalizeG1 uploadDir base art shard (h ++ [d])) :
    OnlySent normalizeG1 uploadDir base art shard h :=
  fun d' hd' => hsent d' (List.mem_append_left _ hd')

/-- Once an upload of the shard has been acknowledged, the shard is there. Requests that come later
write the same bytes, if they write there at all. -/
theorem stored_run (hsent : OnlySent normalizeG1 uploadDir base art shard h)
    (hstart : (disks base).get (art.path uploadDir) = none)
    (hdone : Occurs (fun past d => d.base = base ∧
      d.upload.Writes normalizeG1 uploadDir (art.path uploadDir) ∧
      d.reply normalizeG1 uploadDir (runDeliveries normalizeG1 uploadDir disks past) =
        .ok .statusOk) h) :
    (runDeliveries normalizeG1 uploadDir disks h base).get (art.path uploadDir) =
      some (.file shard) := by
  -- by the history, from its end
  induction h using List.reverseRecOn with
  | nil => exact absurd hdone not_occurs_nil
  | append_singleton h d ih =>
      have hkept := kept_run hsent hstart
      rw [runDeliveries, run_snoc] at hkept ⊢
      rcases occurs_snoc.mp hdone with hbefore | ⟨hbase, hwrites, hreply⟩
      · -- it was there before the last request
        have hthere := ih hsent.left hbefore
        rw [handleDelivery_get] at hkept ⊢
        by_cases hbase : d.base = base
        · rw [if_pos hbase]
          rcases get_handleUpload (runDeliveries normalizeG1 uploadDir disks h base) d.upload art
              with
            hsame | ⟨hwrites, hbody⟩
          · exact hsame.trans hthere
          · rw [hsent d (by simp) hbase hwrites] at hbody
            exact hbody
        · rw [if_neg hbase]
          exact hthere
      · -- the last request leaves a file, and that can only be the shard
        have hsome := isSome_of_acknowledged hwrites hreply
        rw [handleDelivery_get, if_pos hbase] at hkept ⊢
        rw [hbase] at hsome
        rcases hkept with hnone | hshard
        · exact absurd (hsome.symm.trans (congrArg Option.isSome hnone)) (by simp)
        · exact hshard

end History

/-! ### The shards of a slab -/

section Slab

variable (root : ManifestRoot normalizeG1) (dealId mduIndex slot : UInt64)

/-- The artifact that a shard is stored as. -/
def shardArtifact : Artifact := ⟨dealId, root.key, .shard mduIndex slot⟩

variable {root dealId mduIndex slot}

/-- A gateway asks for the file that an upload goes to. Both sides make the path from the deal, the
root and the two numbers. -/
theorem shardPath_fetchShardQuery :
    shardPath normalizeG1 uploadDir (fetchShardQuery dealId root.canonical mduIndex slot) =
      .ok ((shardArtifact root dealId mduIndex slot).path uploadDir) := by
  -- no parameter is empty, and each is read as it was written
  have hname : ∀ n : UInt64, trimSpace (decimal (n.toNat : Int)) ≠ [] := by
    intro n
    rw [trimSpace_decimal]
    exact decimal_ne_nil _
  have hroot : trimSpace root.canonical ≠ [] := by
    rw [trimSpace_canonical]
    simp [ManifestRoot.canonical, canonicalRoot]
  have hplain := slash_notMem_name (.shard mduIndex slot)
  have hhead : (ArtifactKind.shard mduIndex slot).name.head? = some 'm' := rfl
  rw [shardPath]
  refine except_bind_ok.mpr ⟨(), rejectIf_eq_ok.mpr ?_, except_bind_ok.mpr ⟨dealId, orFail_eq_ok.mpr
    (parseUint_decimal_toNat dealId), except_bind_ok.mpr ⟨mduIndex, orFail_eq_ok.mpr
      (parseUint_decimal_toNat mduIndex), except_bind_ok.mpr ⟨slot, orFail_eq_ok.mpr
        (parseUint_decimal_toNat slot), except_bind_ok.mpr ⟨root.key, orFail_eq_ok.mpr
          (parseManifestRoot_canonical root), ?_⟩⟩⟩⟩⟩
  · rintro (h | h | h | h)
    · exact hname dealId h
    · exact hname mduIndex h
    · exact hname slot h
    · exact hroot h
  -- the name has no slash, so it is the last part of the path
  · show Except.ok
      (FileTree.join _ ("mdu_".toList ++ trimSpace (decimal mduIndex.toNat) ++ _ ++ _ ++ _)) = _
    rw [trimSpace_decimal, ← ArtifactKind.name_shard, FileTree.join_of_not_mem hplain]
    · rfl
    · intro h
      rw [h] at hhead
      cases hhead
    · intro h
      rw [h] at hhead
      exact absurd hhead (by decide)
    · intro h
      rw [h] at hhead
      exact absurd hhead (by decide)

/-- A gateway's upload of a shard goes to the file of the shard, if it is answered 200. Its headers
name the deal, the slot and the root. -/
theorem writes_of_shardTask {dir : Str → Option Bytes} {base : Str} {a : Upload} {t : FileTree}
    (hendpoint : a.endpoint = .shard)
    (hreq : uploadBlobRequest dir (shardTask root dealId base mduIndex slot) = .ok a.req)
    (hreply : ((handleUpload normalizeG1 uploadDir a).exec t).1 = .ok .statusOk) :
    a.Writes normalizeG1 uploadDir ((shardArtifact root dealId mduIndex slot).path uploadDir) := by
  -- the request of the task
  rw [uploadBlobRequest, except_bind_ok] at hreq
  obtain ⟨content, -, hreq⟩ := hreq
  rw [except_bind_ok] at hreq
  obtain ⟨-, -, hreq⟩ := hreq
  have hreq := Except.ok.inj hreq
  cases hdecode : decodeUpload normalizeG1 a with
  | error e => exact absurd hreply (handleUpload_refused (Or.inr ⟨e, hdecode⟩)).2
  | ok u =>
      refine ⟨u, hdecode, ?_⟩
      rw [decodeUpload, hendpoint] at hdecode
      -- what the decoding reads in its headers
      simp only [decodeShard, except_bind_ok, orFail_eq_ok, rejectIf_eq_ok, ← hreq] at hdecode
      obtain ⟨-, -, dealId', hdeal, slot', hslot, -, -, -, -, key, hkey, hu⟩ := hdecode
      have hdeal : some dealId = some dealId' := (parseUint_decimal_toNat dealId).symm.trans hdeal
      have hslot : some slot = some slot' := (parseUint_decimal_toNat slot).symm.trans hslot
      have hkey : some root.key = some key := by
        rw [← hkey, ← parseManifestRoot_canonical root]
        show _ = parseManifestRoot normalizeG1 (trimSpace root.canonical)
        rfl
      cases hu
      cases hdeal
      cases hslot
      cases hkey
      show _ ++ ["mdu_".toList ++ trimSpace (decimal mduIndex.toNat) ++ _ ++ _ ++ _] = _
      rw [trimSpace_decimal]
      rfl

/-- A provider sends the shard, or nothing. -/
theorem eq_shard_of_shardAnswer {slotBases : Nat → Str} {disks : Disks}
    {reachable : Nat → Nat → Bool} {pass slot : Nat} {shard content : Bytes}
    (hkept : KeptAt uploadDir (shardArtifact root dealId mduIndex (.ofNat slot)) shard
      (disks (slotBases slot)))
    (hfetch : fetchShardFromProvider
      (shardAnswer normalizeG1 uploadDir root dealId mduIndex slotBases disks
      reachable pass slot) = .ok content) : content = shard := by
  rw [shardAnswer] at hfetch
  split at hfetch
  · rw [spFetchShard, if_neg (by simp [fetchShardQuery]), shardPath_fetchShardQuery] at hfetch
    rcases hkept with hnone | hshard
    · simp only [hnone] at hfetch
      cases hfetch
    · simp only [hshard] at hfetch
      cases hfetch
      rfl
  · cases hfetch

/-- A provider that has the shard, and is there, sends it. -/
theorem shardAnswer_of_stored {slotBases : Nat → Str} {disks : Disks} {reachable : Nat → Nat → Bool}
    {pass slot : Nat} {shard : Bytes}
    (hstored : (disks (slotBases slot)).get
      ((shardArtifact root dealId mduIndex (.ofNat slot)).path uploadDir) = some (.file shard))
    (hreachable : reachable pass slot = true) :
    shardAnswer normalizeG1 uploadDir root dealId mduIndex slotBases disks reachable pass slot =
      some ⟨200, shard⟩ := by
  rw [shardAnswer, if_pos hreachable, spFetchShard, if_neg (by simp [fetchShardQuery]),
    shardPath_fetchShardQuery]
  simp only [hstored]

/-- An upload that has its tasks has a provider for each slot. -/
theorem enoughProviders {stripe : StripeParams} {providers : List Str} {skip : Nat → Bool}
    {slotBases : Nat → Str} {witnessCount userMdus : UInt64} {tasks : List UploadTask}
    (htasks : mode2UploadTasks root dealId stripe providers skip slotBases witnessCount userMdus =
      .ok tasks) :
    stripe.slotCount.toNat ≤ providers.length := by
  simp only [mode2UploadTasks, except_bind_ok, rejectIf_eq_ok] at htasks
  obtain ⟨-, -, -, -, -, hproviders, -⟩ := htasks
  exact not_lt.mp hproviders

/-- Each slot that is not skipped gets its shard of every user MDU. -/
theorem shardTask_mem {stripe : StripeParams} {providers : List Str} {skip : Nat → Bool}
    {slotBases : Nat → Str} {witnessCount userMdus i : UInt64}
    {tasks : List UploadTask} {slot : Nat}
    (htasks : mode2UploadTasks root dealId stripe providers skip slotBases witnessCount userMdus =
      .ok tasks)
    (hi : i < userMdus) (hslot : slot < stripe.slotCount.toNat) (hskip : skip slot = false)
    (hbase : slotBases slot ≠ []) :
    shardTask root dealId (slotBases slot) (1 + witnessCount + i) (.ofNat slot) ∈ tasks := by
  simp only [mode2UploadTasks, except_bind_ok, rejectIf_eq_ok] at htasks
  obtain ⟨-, -, -, -, -, -, htasks⟩ := htasks
  rw [← Except.ok.inj htasks]
  refine List.mem_flatMap.mpr ⟨slot, List.mem_range.mpr hslot, ?_⟩
  rw [if_neg (by simp [hskip, hbase])]
  refine List.mem_append_right _ (List.mem_cons_of_mem _ (List.mem_map.mpr ⟨i.toNat, ?_, ?_⟩))
  · exact List.mem_range.mpr (UInt64.lt_iff_toNat_lt.mp hi)
  · rw [UInt64.ofNat_toNat]

end Slab

/-! ### Recovery -/

section Recovery

variable {ctx : KzgContext} {rs : ReedSolomon} {k m : UInt64} {coeff : Nat → Nat → UInt8}
  {mdu0 : Mdu0Builder}
  {index : Nat} {committed : CommittedMdu ctx rs k.toNat m.toNat mdu0 index} {providers : List Str}
  {answer : Nat → Nat → Option ShardResponse} {files : MduFiles}

/-- With `K` shards, all of them committed, the MDU is the committed one. Any `K` shards of a code
word give its data back. -/
theorem CommittedMdu.ensure_full (hk : k.toNat ∣ 64) (hm : 1 ≤ m.toNat)
    (hcode : MdsCode rs k.toNat m.toNat coeff) (hproviders : k.toNat + m.toNat ≤ providers.length)
    (hfiles : files.mdu = none) (htakes : committed.TakesCommitted answer files)
    (hfull : k.toNat ≤ (usableShards k.toNat m.toNat answer files.slotFiles).length) :
    (ensureMode2MduOnDisk rs (mode2Stripe k m) (.ok providers) answer files).1 = .ok () ∧
      (ensureMode2MduOnDisk rs (mode2Stripe k m) (.ok providers) answer files).2.mdu =
        some committed.mdu := by
  obtain ⟨hlength, -, hreconstruct⟩ :=
    committed.reconstruct_eq hcode.toErasureCode (Nat.mod_eq_zero_of_dvd hk) hm
  obtain ⟨hnodup, htaken⟩ := @takenOf_wf k m answer files
  obtain ⟨mdu, hmdu, hensure⟩ := ensureMode2MduOnDisk_full hk hm hcode hproviders hfiles hfull
  -- the shards that are taken are the committed ones, and the others are missing
  have herased : Lib.Erased committed.expanded.shards (takenShards _ _ files.slotFiles) :=
    erased_takenShards hnodup (htakes hfull)
  rw [hlength] at herased
  have hcount : (takenShards (k.toNat + m.toNat) (takenOf k m answer files) files.slotFiles).countP
      (·.isSome) = k.toNat := by
    rw [countP_takenShards hnodup fun e he => (htaken e he).1, takenOf, List.length_take]
    exact Nat.min_eq_left hfull
  have hsame :=
    hmdu.symm.trans (hreconstruct _ herased (countP_isNone length_takenShards hcount).le)
  rw [hensure, Except.ok.inj hsame]
  exact ⟨rfl, rfl⟩

/-- With fewer there is an error, and no MDU. -/
theorem ensure_short (hk : k.toNat ∣ 64) (hcode : MdsCode rs k.toNat m.toNat coeff)
    (hproviders : k.toNat + m.toNat ≤ providers.length) (hfiles : files.mdu = none)
    (hshort : (usableShards k.toNat m.toNat answer files.slotFiles).length < k.toNat) :
    (ensureMode2MduOnDisk rs (mode2Stripe k m) (.ok providers) answer files).1 ≠ .ok () ∧
      (ensureMode2MduOnDisk rs (mode2Stripe k m) (.ok providers) answer files).2.mdu = none := by
  have hsum : k.toNat + m.toNat < 2 ^ 64 := lt_of_le_of_lt hcode.shards_le (by decide)
  rw [ensureMode2MduOnDisk_eq hk hsum hproviders hfiles, if_pos hshort]
  exact ⟨by simp, hfiles⟩

/-- What a gateway gets when it asks for an MDU: that MDU or an error, and no error where `K` slots
can give their shard. -/
structure CommittedMdu.Recovers (committed : CommittedMdu ctx rs k.toNat m.toNat mdu0 index)
    (available : Nat → Prop) (out : Except String Unit × MduFiles) : Prop where
  mdu : out.1 = .ok () → out.2.mdu = some committed.mdu
  enough : ∀ slots : List Nat, slots.Nodup → k.toNat ≤ slots.length →
    (∀ slot ∈ slots, available slot) →
    out.1 = .ok ()
  error : out.1 ≠ .ok () → out.2.mdu = none

/-- What a slot gives is its file or the answer of its provider. -/
theorem offered_eq_some {size slot : Nat} {answer : Nat → Option ShardResponse}
    {slotFiles : Nat → Option Bytes} {shard : Bytes}
    (h : offered size answer slotFiles slot = some shard) :
    slotFiles slot = some shard ∨ fetchShardFromProvider (answer slot) = .ok shard := by
  rw [offered, Option.or_eq_some_iff] at h
  rcases h with h | ⟨-, h⟩
  · exact Or.inl (Option.filter_eq_some_iff.mp h).1
  · right
    have hfetch := (Option.filter_eq_some_iff.mp h).1
    cases hresp : fetchShardFromProvider (answer slot) with
    | error e =>
        rw [hresp] at hfetch
        cases hfetch
    | ok content =>
        rw [hresp] at hfetch
        exact congrArg Except.ok (Option.some.inj hfetch)

/-- What is usable was given in one of the passes. -/
theorem offered_of_mem_usableShards {k m : Nat} {slotFiles : Nat → Option Bytes} {e : Nat × Bytes}
    (h : e ∈ usableShards k m answer slotFiles) :
    ∃ pass, offered (shardSize k) (answer pass) slotFiles e.1 = some e.2 := by
  rcases List.mem_append.mp h with h | h
  · exact ⟨0, (mem_accepted.mp h).2⟩
  · have haccept := (mem_accepted.mp h).2
    split at haccept
    · cases haccept
    · exact ⟨1, haccept⟩

/-- Answers that are committed shards, or none, make a gateway recover the MDU. With too few of them
it gets an error, and nothing is written as the MDU. -/
theorem CommittedMdu.recovers_of_honest (hk : k.toNat ∣ 64) (hm : 1 ≤ m.toNat)
    (hcode : MdsCode rs k.toNat m.toNat coeff) (hproviders : k.toNat + m.toNat ≤ providers.length)
    (hfiles : files.mdu = none) (hlocal : committed.HasSlotFiles files.slotFiles)
    {available : Nat → Prop} (hanswers : ∀ pass slot shard, slot < k.toNat + m.toNat →
      fetchShardFromProvider (answer pass slot) = .ok shard → committed.shard slot = some shard)
    (havailable : ∀ slot, available slot → committed.GivesShard answer files slot) :
    committed.Recovers available
      (ensureMode2MduOnDisk rs (mode2Stripe k m) (.ok providers) answer files) := by
  obtain ⟨hlength, hsizes, -⟩ :=
    committed.reconstruct_eq hcode.toErasureCode (Nat.mod_eq_zero_of_dvd hk) hm
  -- files and answers are committed shards
  have htakes : committed.TakesCommitted answer files := by
    intro _ e he
    have husable := List.mem_of_mem_take he
    obtain ⟨pass, hoffered⟩ := offered_of_mem_usableShards husable
    rcases offered_eq_some hoffered with hfile | hfetch
    · exact hlocal e.1 e.2 hfile
    · exact hanswers pass e.1 e.2 (mem_usableShards husable).1 hfetch
  by_cases hfull : k.toNat ≤ (usableShards k.toNat m.toNat answer files.slotFiles).length
  · obtain ⟨hok, hmdu⟩ := committed.ensure_full hk hm hcode hproviders hfiles htakes hfull
    exact ⟨fun _ => hmdu, fun _ _ _ _ => hok, fun hne => absurd hok hne⟩
  · obtain ⟨hne, hmdu⟩ := ensure_short hk hcode hproviders hfiles (not_le.mp hfull)
    refine ⟨fun hok => absurd hok hne, fun slots hnodup hcount hslots => ?_, fun _ => hmdu⟩
    exact absurd (le_length_usableShards hlength hsizes hnodup hcount fun slot hslot =>
      havailable slot (hslots slot hslot)) hfull

end Recovery

/-- A slab is uploaded without an error, and its providers handle other requests before, between and
after, none of which sends other bytes for a shard of one MDU. Then a gateway without that MDU,
which asks for it, gets it or an error, and it gets it where `K` slots have their shard in its
directory, or got it and can be asked. -/
theorem slab_recovered {ctx : KzgContext} {rs : ReedSolomon} {k m : UInt64}
    {coeff : Nat → Nat → UInt8}
    (hk : k.toNat ∣ 64) (hm : 1 ≤ m.toNat) (hcode : MdsCode rs k.toNat m.toNat coeff)
    (root : ManifestRoot normalizeG1) (dealId : UInt64) {witnessCount userMdus i : UInt64}
    (hi : i < userMdus)
    {mdu0 : Mdu0Builder}
    (committed : CommittedMdu ctx rs k.toNat m.toNat mdu0 (1 + witnessCount + i).toNat)
    {providers : List Str} {skip : Nat → Bool} {slotBases : Nat → Str} {tasks : List UploadTask}
    (htasks : mode2UploadTasks root dealId
      (mode2Stripe k m) providers skip slotBases witnessCount userMdus =
      .ok tasks)
    {dir : Str → Option Bytes} (hdir : ∀ slot < k.toNat + m.toNat,
      dir (shardFilename (1 + witnessCount + i) (.ofNat slot)) = committed.shard slot)
    {disks : Disks} {h : List Delivery}
    (hdone : ∀ task ∈ tasks, task.Done normalizeG1 uploadDir dir disks h)
    (hfresh : ∀ slot < k.toNat + m.toNat, (disks (slotBases slot)).get
      ((shardArtifact root dealId (1 + witnessCount + i) (.ofNat slot)).path uploadDir) = none)
    (hsent : ∀ slot < k.toNat + m.toNat, ∀ content,
      dir (shardFilename (1 + witnessCount + i) (.ofNat slot)) = some content →
        OnlySent normalizeG1 uploadDir (slotBases slot)
          (shardArtifact root dealId (1 + witnessCount + i) (.ofNat slot)) content h)
    (reachable : Nat → Nat → Bool) {files : MduFiles} (hfiles : files.mdu = none)
    (hlocal : committed.HasSlotFiles files.slotFiles) :
    committed.Recovers
      (fun slot => (files.slotFiles slot).isSome ∨ slot < k.toNat + m.toNat ∧ skip slot = false ∧
        slotBases slot ≠ [] ∧ (reachable 0 slot ∨ reachable 1 slot))
      (ensureMode2MduOnDisk rs (mode2Stripe k m) (.ok providers)
        (shardAnswer normalizeG1 uploadDir root dealId (1 + witnessCount + i) slotBases
          (runDeliveries normalizeG1 uploadDir disks h) reachable) files) := by
  obtain ⟨hlength, -, -⟩ :=
    committed.reconstruct_eq hcode.toErasureCode (Nat.mod_eq_zero_of_dvd hk) hm
  -- each slot has a shard, and only that is sent for it
  have hshard : ∀ slot < k.toNat + m.toNat, ∃ shard, committed.shard slot = some shard ∧
      OnlySent normalizeG1 uploadDir (slotBases slot)
        (shardArtifact root dealId (1 + witnessCount + i) (.ofNat slot)) shard h := by
    intro slot hslot
    obtain ⟨shard, hshard⟩ : ∃ shard, committed.shard slot = some shard :=
      ⟨_, List.getElem?_eq_getElem (by rw [hlength]; exact hslot)⟩
    exact ⟨shard, hshard, hsent slot hslot shard ((hdir slot hslot).trans hshard)⟩
  -- no slot is without a provider
  have hslots : (mode2Stripe k m).slotCount.toNat = k.toNat + m.toNat :=
    slotCount_mode2Stripe (lt_of_le_of_lt hcode.shards_le (by decide))
  have hproviders : k.toNat + m.toNat ≤ providers.length := hslots ▸ enoughProviders htasks
  refine committed.recovers_of_honest hk hm hcode hproviders hfiles hlocal ?_ ?_
  · -- whatever a provider sends is the shard
    intro pass slot content hslot hfetch
    obtain ⟨shard, hshard, honly⟩ := hshard slot hslot
    rw [hshard, eq_shard_of_shardAnswer (kept_run honly (hfresh slot hslot)) hfetch]
  · rintro slot (hfile | ⟨hslot, hskip, hbase, hreachable⟩)
    · obtain ⟨shard, hfile⟩ := Option.isSome_iff_exists.mp hfile
      exact ⟨shard, hlocal slot shard hfile, Or.inl hfile⟩
    · obtain ⟨shard, hshard, honly⟩ := hshard slot hslot
      obtain ⟨req, hreq, hoccurs⟩ := hdone _ (shardTask_mem htasks hi (hslots ▸ hslot) hskip hbase)
      have hstored := stored_run honly (hfresh slot hslot) (hoccurs.mono fun past d hd => by
        obtain ⟨hto, hendpoint, rfl, hreply⟩ := hd
        exact ⟨hto, writes_of_shardTask hendpoint hreq hreply, hreply⟩)
      refine ⟨shard, hshard, Or.inr ?_⟩
      rcases hreachable with hreachable | hreachable
      · exact ⟨0, by decide, shardAnswer_of_stored hstored hreachable⟩
      · exact ⟨1, by decide, shardAnswer_of_stored hstored hreachable⟩

/-! ### One provider that stores a shard -/

section Sample

variable {t : FileTree} {a : Upload} {u : PendingUpload}

/-- Making directories that are there changes nothing. -/
theorem mkdirAll_of_dirs {p : Path} (h : ∀ q ∈ p.inits, q ≠ [] → t.get q = some .dir) :
    t.mkdirAll p = some t := by
  have hfold : ∀ (f : FileTree → Path → Option FileTree) (qs : List Path),
      (∀ q ∈ qs, f t q = some t) →
      qs.foldlM f t = some t := by
    intro f qs hqs
    induction qs with
    | nil => rfl
    | cons q rest ih =>
        rw [List.foldlM_cons, hqs q List.mem_cons_self]
        exact ih fun q' hq' => hqs q' (List.mem_cons_of_mem _ hq')
  refine hfold _ _ fun q hq => ?_
  rw [List.mem_filter] at hq
  simp only [h q hq.1 (of_decide_eq_true hq.2)]

/-- A file that counts as the upload is acknowledged, and nothing changes. -/
theorem exec_of_present (hoptions : a.req.options = false)
    (hdecode : decodeUpload normalizeG1 a = .ok u)
    (hmkdir : t.mkdirAll (u.dir uploadDir) = some t) (hpresent : u.Present uploadDir t) :
    (handleUpload normalizeG1 uploadDir a).exec t = (.ok .statusOk, t) := by
  rw [handleUpload_decoded hoptions hdecode]
  rcases @storeUpload_cases uploadDir u a.random a.req.body t
    (head?_of_names (decodeUpload_ok hdecode).2)
    with ⟨t₁, hmkdir', -, hexec⟩ | ⟨-, habsent, -⟩ | ⟨hnot, -⟩
  · obtain rfl := Option.some.inj (hmkdir'.symm.trans hmkdir)
    exact hexec
  · exact absurd hpresent habsent
  · exact absurd ⟨by rw [hmkdir]; rfl, Or.inl hpresent⟩ hnot

/-- A body that can be stored is acknowledged. -/
theorem reply_of_storable (hoptions : a.req.options = false)
    (hdecode : decodeUpload normalizeG1 a = .ok u) (hmkdir : t.mkdirAll (u.dir uploadDir) = some t)
    (hstorable : u.Storable uploadDir a.random a.req.body t) :
    ((handleUpload normalizeG1 uploadDir a).exec t).1 = .ok .statusOk := by
  rw [handleUpload_decoded hoptions hdecode]
  rcases @storeUpload_cases uploadDir u a.random a.req.body t
    (head?_of_names (decodeUpload_ok hdecode).2)
    with ⟨t₁, -, -, hexec⟩ | ⟨-, -, -, t', hexec, -⟩ | ⟨hnot, -⟩
  · rw [hexec]
  · rw [hexec]
  · exact absurd ⟨by rw [hmkdir]; rfl, Or.inr hstorable⟩ hnot

/-- A task's request, with the file that it sends. -/
def UploadTask.delivery (task : UploadTask) (content : Bytes) : Delivery where
  base := task.base
  upload := ⟨task.endpoint,
    ⟨false, task.dealId, task.mduIndex, task.slot, task.manifestRoot, content, false⟩,
    .found, some 0⟩

section Decoded

variable (root : ManifestRoot normalizeG1) (dealId : UInt64) (base : Str) (mduIndex slot : UInt64)
  (content : Bytes)

/-- A number in a header is not empty. -/
theorem trimSpace_decimal_ne_nil (n : UInt64) : trimSpace (decimal (n.toNat : Int)) ≠ [] := by
  rw [trimSpace_decimal]
  exact decimal_ne_nil _

/-- A root in a header is not empty. -/
theorem trimSpace_canonical_ne_nil : trimSpace root.canonical ≠ [] := by
  rw [trimSpace_canonical]
  simp [ManifestRoot.canonical, canonicalRoot]

/-- The upload of an MDU decodes to that MDU's file. -/
theorem decode_mduTask : ∃ u, decodeUpload normalizeG1
      ((mduTask root dealId base mduIndex).delivery content).upload = .ok u ∧ u.dealId = dealId ∧
        u.key = root.key ∧ u.filename = mduFilename mduIndex ∧ u.present mduSize = true := by
  refine ⟨_,
    except_bind_ok.mpr ⟨(), rejectIf_eq_ok.mpr ?_, except_bind_ok.mpr ⟨dealId, orFail_eq_ok.mpr
    (parseUint_decimal_toNat dealId),
    except_bind_ok.mpr ⟨(), rfl, except_bind_ok.mpr ⟨(), rejectIf_eq_ok.mpr
      (trimSpace_canonical_ne_nil root),
      except_bind_ok.mpr ⟨root.key, orFail_eq_ok.mpr ?_, rfl⟩⟩⟩⟩⟩,
      rfl, rfl, ?_, rfl⟩
  · rintro (h | h)
    · exact trimSpace_decimal_ne_nil dealId h
    · exact trimSpace_decimal_ne_nil mduIndex h
  · show parseManifestRoot normalizeG1 (trimSpace root.canonical) = _
    exact parseManifestRoot_canonical root
  · show _ ++ trimSpace (decimal mduIndex.toNat) ++ _ = _
    rw [trimSpace_decimal]
    rfl

/-- The upload of the manifest decodes to the manifest's file. -/
theorem decode_manifestTask : ∃ u, decodeUpload normalizeG1
      ((manifestTask root dealId base).delivery content).upload = .ok u ∧ u.dealId = dealId ∧
        u.key = root.key ∧ u.filename = "manifest.bin".toList ∧ u.present blobSize = true := by
  refine ⟨_,
    except_bind_ok.mpr ⟨(), rejectIf_eq_ok.mpr ?_, except_bind_ok.mpr ⟨dealId, orFail_eq_ok.mpr
    (parseUint_decimal_toNat dealId), except_bind_ok.mpr ⟨(), rfl, except_bind_ok.mpr ⟨root.key,
      orFail_eq_ok.mpr ?_, rfl⟩⟩⟩⟩, rfl, rfl, rfl, rfl⟩
  · rintro (h | h)
    · exact trimSpace_decimal_ne_nil dealId h
    · exact trimSpace_canonical_ne_nil root h
  · show parseManifestRoot normalizeG1 (trimSpace root.canonical) = _
    exact parseManifestRoot_canonical root

/-- The upload of a shard decodes to that shard's file. Any size up to that of an MDU is
accepted. -/
theorem decode_shardTask : ∃ u, decodeUpload normalizeG1
      ((shardTask root dealId base mduIndex slot).delivery content).upload = .ok u ∧
        u.dealId = dealId ∧
        u.key = root.key ∧ u.filename = shardFilename mduIndex slot ∧ u.limit = 10 * 2 ^ 20 ∧
          ∀ n, 0 < n → n ≤ mduSize → u.accepts n = true := by
  refine ⟨_,
    except_bind_ok.mpr ⟨(), rejectIf_eq_ok.mpr ?_, except_bind_ok.mpr ⟨dealId, orFail_eq_ok.mpr
    (parseUint_decimal_toNat dealId),
    except_bind_ok.mpr ⟨slot, orFail_eq_ok.mpr (parseUint_decimal_toNat slot),
      except_bind_ok.mpr ⟨(), rfl, except_bind_ok.mpr ⟨(), rejectIf_eq_ok.mpr
        (trimSpace_canonical_ne_nil root),
        except_bind_ok.mpr ⟨root.key, orFail_eq_ok.mpr ?_, rfl⟩⟩⟩⟩⟩⟩,
      rfl, rfl, ?_, rfl, fun n hpos hle => decide_eq_true ⟨hpos, hle⟩⟩
  · rintro (h | h | h)
    · exact trimSpace_decimal_ne_nil dealId h
    · exact trimSpace_decimal_ne_nil mduIndex h
    · exact trimSpace_decimal_ne_nil slot h
  · show parseManifestRoot normalizeG1 (trimSpace root.canonical) = _
    exact parseManifestRoot_canonical root
  · show _ ++ trimSpace (decimal mduIndex.toNat) ++ _ ++ _ ++ _ = _
    rw [trimSpace_decimal]
    rfl

end Decoded

/-- The bytes of the point at infinity. -/
def infinityBytes : Bytes := 0xc0 :: List.replicate 47 0

/-- The sample point has 48 bytes. -/
theorem length_infinityBytes : infinityBytes.length = 48 := by simp [infinityBytes]

/-- The sample point is in its normal form. -/
theorem normalizeInfinity_infinityBytes :
    normalizeInfinity infinityBytes = some infinityBytes := if_pos rfl

/-- The root of the samples. -/
def sampleManifestRoot : ManifestRoot normalizeInfinity :=
  ⟨infinityBytes, length_infinityBytes, normalizeInfinity_infinityBytes⟩

/-- A provider that has the metadata of a slab already. -/
def metadataDisk (dir : Path) (mdu manifest : Bytes) : FileTree :=
  KVStore.set (KVStore.set (KVStore.set (KVStore.ofKeys dir.inits fun _ => some .dir)
    (dir ++ [mduFilename 0]) (.file mdu)) (dir ++ [mduFilename 1]) (.file mdu))
    (dir ++ ["manifest.bin".toList]) (.file manifest)

/-- What the sample disk holds: the manifest and two MDUs. -/
theorem get_metadataDisk (dir : Path) (mdu manifest : Bytes) (name : Str) :
    (metadataDisk dir mdu manifest).get (dir ++ [name]) =
      if name = "manifest.bin".toList then some (.file manifest)
      else if name = mduFilename 1 ∨ name = mduFilename 0 then some (.file mdu) else none := by
  have hnot : dir ++ [name] ∉ dir.inits := by
    intro h
    exact not_prefix_append dir name ((List.mem_inits _ _).mp h)
  have hinj : ∀ other : Str, dir ++ [name] = dir ++ [other] ↔ name = other := by simp
  simp only [metadataDisk, KVStore.get_set, KVStore.get_ofKeys, hinj, if_neg hnot]
  by_cases hmanifest : name = "manifest.bin".toList
  · rw [if_pos hmanifest, if_pos hmanifest]
  · rw [if_neg hmanifest, if_neg hmanifest]
    by_cases hone : name = mduFilename 1
    · rw [if_pos hone, if_pos (Or.inl hone)]
    · rw [if_neg hone]
      by_cases hzero : name = mduFilename 0
      · rw [if_pos hzero, if_pos (Or.inr hzero)]
      · rw [if_neg hzero, if_neg (not_or.mpr ⟨hone, hzero⟩)]

/-- The directory of the sample disk is there already. -/
theorem mkdirAll_metadataDisk (dir : Path) (mdu manifest : Bytes) :
    (metadataDisk dir mdu manifest).mkdirAll dir = some (metadataDisk dir mdu manifest) := by
  refine mkdirAll_of_dirs fun q hq _ => ?_
  have hne : ∀ name : Str, q ≠ dir ++ [name] := by
    rintro name rfl
    exact not_prefix_append dir name ((List.mem_inits _ _).mp hq)
  rw [metadataDisk, KVStore.get_set_ne _ (hne _), KVStore.get_set_ne _ (hne _),
    KVStore.get_set_ne _ (hne _), KVStore.get_ofKeys, if_pos hq]

/-- A file of the right size is present. -/
theorem present_of_get {content : Bytes} (hname : u.filename.head? = some 'm')
    (hplain : '/' ∉ u.filename)
    (hget : t.get (u.dir uploadDir ++ [u.filename]) = some (.file content))
    (hsize : u.present content.length = true) : u.Present uploadDir t := by
  rw [PendingUpload.Present, PendingUpload.path_of_plain hname hplain, FileTree.fileSize, hget]
  exact hsize

/-- The slab directory of the samples. -/
def sampleSlabDir : Path := dealScopedDir ["data".toList] 7 sampleManifestRoot.key

/-- An MDU, and a manifest. -/
def sampleMdu : Bytes := List.replicate mduSize 0

/-- The manifest of the sample slab. -/
def sampleManifest : Bytes := List.replicate blobSize 0

/-- One provider has the metadata, and nobody else has anything. -/
def sampleDisks (base : Str) : FileTree :=
  if base = ['p'] then metadataDisk sampleSlabDir sampleMdu sampleManifest else KVStore.empty

/-- The uploads of the metadata. -/
def metadataUploads : List Delivery :=
  [(mduTask sampleManifestRoot 7 ['p'] 0).delivery sampleMdu,
    (mduTask sampleManifestRoot 7 ['p'] 1).delivery sampleMdu,
    (manifestTask sampleManifestRoot 7 ['p']).delivery sampleManifest]

/-- The sample disk answers the uploads of what it has, and does not change. The files of the
metadata are there already. -/
theorem exec_metadataUpload {d : Delivery} (hd : d ∈ metadataUploads) :
    d.base = ['p'] ∧
      (handleUpload normalizeInfinity ["data".toList] d.upload).exec (sampleDisks ['p']) =
      (.ok .statusOk, sampleDisks ['p']) := by
  -- for either of the two MDUs
  have hmdu : ∀ i : UInt64, i = 0 ∨ i = 1 → (handleUpload normalizeInfinity ["data".toList]
      ((mduTask sampleManifestRoot 7 ['p'] i).delivery sampleMdu).upload).exec (sampleDisks ['p']) =
        (.ok .statusOk, sampleDisks ['p']) := by
    intro i hi
    obtain ⟨u, hdecode, hdeal, hkey, hname, hsize⟩ :=
      decode_mduTask sampleManifestRoot 7 ['p'] i sampleMdu
    -- the directory of the sample slab
    have hdir : u.dir ["data".toList] = sampleSlabDir := by
      rw [PendingUpload.dir, hdeal, hkey]
      rfl
    refine exec_of_present rfl hdecode (by rw [hdir]; exact mkdirAll_metadataDisk _ _ _) ?_
    refine @present_of_get _ _ _ sampleMdu (by rw [hname]; rfl) ?_ ?_ ?_
    · rw [hname]
      exact slash_notMem_name (.mdu i)
    · rw [hdir, hname]
      refine (get_metadataDisk _ _ _ _).trans ?_
      have hne : mduFilename i ≠ "manifest.bin".toList :=
        ArtifactKind.name_injective.ne (show ArtifactKind.mdu i ≠ .manifest by simp)
      rcases hi with rfl | rfl
      · rw [if_neg hne, if_pos (Or.inr rfl)]
      · rw [if_neg hne, if_pos (Or.inl rfl)]
    · rw [sampleMdu, List.length_replicate]
      exact hsize
  simp only [metadataUploads, List.mem_cons, List.not_mem_nil, or_false] at hd
  rcases hd with rfl | rfl | rfl
  · exact ⟨rfl, hmdu 0 (Or.inl rfl)⟩
  · exact ⟨rfl, hmdu 1 (Or.inr rfl)⟩
  · obtain ⟨u, hdecode, hdeal, hkey, hname, hsize⟩ :=
      decode_manifestTask sampleManifestRoot 7 ['p'] sampleManifest
    have hdir : u.dir ["data".toList] = sampleSlabDir := by
      rw [PendingUpload.dir, hdeal, hkey]
      rfl
    refine ⟨rfl, exec_of_present rfl hdecode (by rw [hdir]; exact mkdirAll_metadataDisk _ _ _) ?_⟩
    refine @present_of_get _ _ _ sampleManifest (by rw [hname]; rfl) ?_ ?_ ?_
    · rw [hname]
      exact slash_notMem_name .manifest
    · rw [hdir, hname]
      exact (get_metadataDisk _ _ _ _).trans (if_pos rfl)
    · rw [sampleManifest, List.length_replicate]
      exact hsize

/-- The metadata changes nothing there. -/
theorem runDeliveries_metadata {past : List Delivery} (hpast : ∀ d ∈ past, d ∈ metadataUploads) :
    runDeliveries normalizeInfinity ["data".toList] sampleDisks past ['p'] = sampleDisks ['p'] := by
  refine run_invariant (fun d : Delivery => d ∈ metadataUploads)
    (fun disks : Disks => disks ['p'] = sampleDisks ['p']) rfl (fun disks d hdisks hd => ?_) hpast
  obtain ⟨hbase, hexec⟩ := exec_metadataUpload hd
  rw [handleDelivery_get, if_pos hbase, hdisks, hexec]

/-- A task is done when its request is handled and answered 200. -/
theorem UploadTask.done_of_reply {dir : Str → Option Bytes} {disks : Disks}
    {past rest : List Delivery}
    {task : UploadTask} {content : Bytes} (hdir : dir task.file = some content)
    (hsize : content.length ≤ task.maxBytes)
    (hreply : (task.delivery content).reply normalizeG1 uploadDir
      (runDeliveries normalizeG1 uploadDir disks past) = .ok .statusOk) :
    task.Done normalizeG1 uploadDir dir disks (past ++ task.delivery content :: rest) := by
  refine ⟨(task.delivery content).upload.req, ?_, past, task.delivery content, rest, rfl, rfl,
    rfl, rfl, hreply⟩
  rw [uploadBlobRequest, hdir]
  refine except_bind_ok.mpr ⟨content, rfl, except_bind_ok.mpr ⟨(), rejectIf_eq_ok.mpr ?_, rfl⟩⟩
  rintro ⟨-, hlt⟩
  omega

/-- The base URLs of the samples: the first slot has one. -/
def sampleBases (slot : Nat) : Str := if slot = 0 then ['p'] else []

/-- The files of a slab with two shards. -/
def sampleSlab (shards : Nat → Option Bytes) (name : Str) : Option Bytes :=
  if name = "manifest.bin".toList then some sampleManifest
  else if name = shardFilename 2 0 then shards 0
  else if name = shardFilename 2 1 then shards 1
  else some sampleMdu

/-- The uploads of the samples. -/
def sampleUploads (shard : Bytes) : List Delivery :=
  metadataUploads ++ [(shardTask sampleManifestRoot 7 ['p'] 2 0).delivery shard]

/-- Any MDU can be the first user MDU of a slab with one witness. -/
theorem exists_userMdu {mdu : Bytes} (hmdu : mdu.length = mduSize) :
    ∃ mdu0, ∃ committed :
      CommittedMdu identitySetup mirrorCode 1 1 mdu0 2, committed.mdu = mdu := by
  obtain ⟨mdu0, committed, hcommitted⟩ := exists_committedMdu hmdu
  refine ⟨{ mdu0 with buffer := zeroRoot ++ mdu0.buffer }, ⟨committed.mdu, committed.expanded,
    committed.length_eq, committed.expand_eq, ?_⟩, hcommitted⟩
  have hshift : (zeroRoot ++ mdu0.buffer).drop 32 = mdu0.buffer :=
    List.drop_left' List.length_replicate
  rw [committed.root_eq]
  show Except.ok ((mdu0.buffer.drop 0).take 32) = .ok (((zeroRoot ++ mdu0.buffer).drop 32).take 32)
  rw [hshift, List.drop_zero]

/-- Nothing else is there. -/
theorem get_sampleDisks {name : Str} (hmanifest : name ≠ ArtifactKind.manifest.name)
    (hmdu : ∀ i, name ≠ (ArtifactKind.mdu i).name) :
    (sampleDisks ['p']).get (sampleSlabDir ++ [name]) = none := by
  have hnot : ¬(name = mduFilename 1 ∨ name = mduFilename 0) := by
    rintro (h | h)
    · exact hmdu 1 h
    · exact hmdu 0 h
  exact (get_metadataDisk _ _ _ name).trans ((if_neg hmanifest).trans (if_neg hnot))

/-- No other artifact has the name of a shard. -/
theorem shardFilename_ne {mduIndex slot : UInt64} {kind : ArtifactKind}
    (h : kind ≠ .shard mduIndex slot) :
    shardFilename mduIndex slot ≠ kind.name :=
  ArtifactKind.name_injective.ne h.symm

/-- An upload of another artifact goes elsewhere. -/
theorem not_writes_of_name {art : Artifact} {kind : ArtifactKind}
    (hdecode : decodeUpload normalizeG1 a = .ok u) (hname : u.filename = kind.name)
    (hne : kind ≠ art.kind) :
    ¬a.Writes normalizeG1 uploadDir (art.path uploadDir) := by
  rintro ⟨u', hdecode', hpath⟩
  cases hdecode.symm.trans hdecode'
  have hsame : u.filename = art.kind.name :=
    List.head_eq_of_cons_eq (List.append_inj_right' hpath rfl)
  exact hne (ArtifactKind.name_injective (hname.symm.trans hsame))

/-- The sample uploads go to one provider. -/
theorem sampleUploads_base {shard : Bytes} {d : Delivery} (hd : d ∈ sampleUploads shard) :
    d.base = ['p'] := by
  rcases List.mem_append.mp hd with hd | hd
  · exact (exec_metadataUpload hd).1
  · rw [List.mem_singleton.mp hd]
    rfl

/-- The metadata does not go to a shard's file. -/
theorem onlySent_sampleUploads (shard : Bytes) (slot : UInt64) :
    OnlySent normalizeInfinity ["data".toList] ['p']
    (shardArtifact sampleManifestRoot 7 2 slot) shard (sampleUploads shard) := by
  intro d hd _ hwrites
  rcases List.mem_append.mp hd with hd | hd
  · refine absurd hwrites ?_
    simp only [metadataUploads, List.mem_cons, List.not_mem_nil, or_false] at hd
    rcases hd with rfl | rfl | rfl
    · obtain ⟨u, hdecode, -, -, hname, -⟩ := decode_mduTask sampleManifestRoot 7 ['p'] 0 sampleMdu
      exact not_writes_of_name hdecode (hname.trans (ArtifactKind.name_mdu 0).symm)
        (by simp [shardArtifact])
    · obtain ⟨u, hdecode, -, -, hname, -⟩ := decode_mduTask sampleManifestRoot 7 ['p'] 1 sampleMdu
      exact not_writes_of_name hdecode (hname.trans (ArtifactKind.name_mdu 1).symm)
        (by simp [shardArtifact])
    · obtain ⟨u, hdecode, -, -, hname, -⟩ :=
        decode_manifestTask sampleManifestRoot 7 ['p'] sampleManifest
      have hname : u.filename = ArtifactKind.manifest.name := hname
      exact not_writes_of_name hdecode hname (by simp [shardArtifact])
  · rw [List.mem_singleton.mp hd]
    rfl

/-- The upload of the shard is answered 200. There is no file yet under the name of the shard, nor
under that of its temporary file. -/
theorem reply_sampleShard {shard : Bytes} (hpos : 0 < shard.length)
    (hsize : shard.length ≤ mduSize) :
    ((shardTask sampleManifestRoot 7 ['p'] 2 0).delivery shard).reply normalizeInfinity
    ["data".toList]
      (runDeliveries normalizeInfinity ["data".toList] sampleDisks metadataUploads) =
        .ok .statusOk := by
  obtain ⟨u, hdecode, hdeal, hkey, hname, hlimit, haccepts⟩ :=
    decode_shardTask sampleManifestRoot 7 ['p'] 2 0 shard
  have hname : u.filename = (ArtifactKind.shard 2 0).name := hname
  have hdir : u.dir ["data".toList] = sampleSlabDir := by
    rw [PendingUpload.dir, hdeal, hkey]
    rfl
  have hbase : ((shardTask sampleManifestRoot 7 ['p'] 2 0).delivery shard).base = ['p'] := rfl
  -- the disk is as it was before the metadata
  have hdisk := @runDeliveries_metadata metadataUploads fun d hd => hd
  rw [Delivery.reply, hbase, hdisk]
  have hmkdir : (sampleDisks ['p']).mkdirAll (u.dir ["data".toList]) =
      some (sampleDisks ['p']) := by
    rw [hdir]
    exact mkdirAll_metadataDisk _ _ _
  -- the name, the temporary name, the two limits, and the free place
  refine reply_of_storable rfl hdecode hmkdir ⟨?_, ⟨0, rfl, ?_⟩, ?_, ?_, ?_⟩
  · rw [hname]
    exact slash_notMem_name _
  · rw [hdir]
    exact get_sampleDisks (tempName_ne .manifest _ _).symm fun i => (tempName_ne (.mdu i) _ _).symm
  · rw [hlimit]
    exact hsize.trans (by decide)
  · exact haccepts _ hpos hsize
  · rw [hdir, hname]
    refine ne_of_eq_of_ne (get_sampleDisks ?_ fun i => ?_) (by simp)
    · exact ArtifactKind.name_injective.ne (by simp)
    · exact ArtifactKind.name_injective.ne (by simp)

/-- The local files of the sample slab: the shards given. -/
theorem sampleSlab_shard (shards : Nat → Option Bytes) {slot : Nat} (hslot : slot < 2) :
    sampleSlab shards (shardFilename 2 (.ofNat slot)) = shards slot := by
  have hmanifest : shardFilename 2 (.ofNat slot) ≠ "manifest.bin".toList :=
    shardFilename_ne (show ArtifactKind.manifest ≠ _ by simp)
  have hother : shardFilename 2 1 ≠ shardFilename 2 0 :=
    shardFilename_ne (show ArtifactKind.shard 2 0 ≠ _ by simp)
  rw [sampleSlab, if_neg hmanifest]
  interval_cases slot
  · exact if_pos rfl
  · exact (if_neg hother).trans (if_pos rfl)

/-- And every MDU. -/
theorem sampleSlab_mdu (shards : Nat → Option Bytes) (i : UInt64) :
    sampleSlab shards (mduFilename i) = some sampleMdu := by
  have hne : ∀ kind : ArtifactKind, kind ≠ .mdu i → mduFilename i ≠ kind.name :=
    fun kind h => ArtifactKind.name_injective.ne h.symm
  exact (if_neg (hne .manifest (by simp))).trans ((if_neg (hne (.shard 2 0) (by simp))).trans
    (if_neg (hne (.shard 2 1) (by simp))))

/-- The uploads of the samples are done. Three of them find their file, and the shard is written. -/
theorem done_sampleUploads {shards : Nat → Option Bytes} {shard : Bytes}
    (hshard : shards 0 = some shard) (hpos : 0 < shard.length) (hsize : shard.length ≤ mduSize) :
    ∀ task ∈ slotTasks sampleManifestRoot 7 ['p'] 0 1 1, task.Done normalizeInfinity ["data".toList]
      (sampleSlab shards) sampleDisks (sampleUploads shard) := by
  -- the sizes are within the limits
  have hmdu : sampleMdu.length ≤ 10 * 2 ^ 20 := by
    rw [sampleMdu, List.length_replicate]
    decide
  have hmanifest : sampleManifest.length ≤ 512 * 2 ^ 10 := by
    rw [sampleManifest, List.length_replicate]
    decide
  have hreply : ∀ past d, (∀ d' ∈ past, d' ∈ metadataUploads) → d ∈ metadataUploads →
      d.reply normalizeInfinity ["data".toList]
        (runDeliveries normalizeInfinity ["data".toList] sampleDisks past) = .ok .statusOk := by
    intro past d hpast hd
    obtain ⟨hbase, hexec⟩ := exec_metadataUpload hd
    rw [Delivery.reply, hbase, runDeliveries_metadata hpast, hexec]
  -- the tasks of the slot
  have htasks : slotTasks sampleManifestRoot 7 ['p'] 0 1 1 = [mduTask sampleManifestRoot 7 ['p'] 0,
      mduTask sampleManifestRoot 7 ['p'] 1, manifestTask sampleManifestRoot 7 ['p'],
      shardTask sampleManifestRoot 7 ['p'] 2 0] := rfl
  intro task htask
  rw [htasks] at htask
  simp only [List.mem_cons, List.not_mem_nil, or_false] at htask
  rcases htask with rfl | rfl | rfl | rfl
  · refine @UploadTask.done_of_reply _ _ _ _ [] _ _ sampleMdu (sampleSlab_mdu shards 0) hmdu ?_
    exact hreply _ _ (by simp) (by simp [metadataUploads])
  · refine @UploadTask.done_of_reply _ _ _ _ (metadataUploads.take 1) _ _ sampleMdu
      (sampleSlab_mdu shards 1)
      hmdu ?_
    exact hreply _ _ (fun d hd => List.mem_of_mem_take hd) (by simp [metadataUploads])
  · refine @UploadTask.done_of_reply _ _ _ _
      (metadataUploads.take 2) _ _ sampleManifest (if_pos rfl)
      hmanifest ?_
    exact hreply _ _ (fun d hd => List.mem_of_mem_take hd) (by simp [metadataUploads])
  · refine UploadTask.done_of_reply ?_ (hsize.trans (by decide)) (reply_sampleShard hpos hsize)
    exact (sampleSlab_shard shards (show 0 < 2 by decide)).trans hshard

/-- The MDU of a short payload comes back from the one provider that a shard of it was uploaded to.
The other provider is skipped and does not answer. -/
theorem slab_recovered_oneProvider : ∃ shard,
    let out := ensureMode2MduOnDisk mirrorCode (mode2Stripe 1 1) (.ok [['a'], ['b']])
      (shardAnswer normalizeInfinity ["data".toList] sampleManifestRoot 7 2 sampleBases
        (runDeliveries normalizeInfinity ["data".toList] sampleDisks (sampleUploads shard))
        (fun _ slot => slot == 0)) noMduFiles
    out.1 = .ok () ∧ out.2.mdu = some (payloadMdu [1, 2, 3]) := by
  obtain ⟨mdu0, committed, hcommitted⟩ := exists_userMdu (@length_payloadMdu [1, 2, 3] (by decide))
  obtain ⟨hlength, hsizes, -⟩ :=
    committed.reconstruct_eq erasureCode_mirrorCode (by decide) (by decide)
  -- the shard of the first slot, and its size
  obtain ⟨shard, hshard⟩ : ∃ shard, committed.shard 0 = some shard :=
    ⟨_, List.getElem?_eq_getElem (by rw [hlength]; decide)⟩
  have hsize : shard.length = shardSize 1 := hsizes shard (List.mem_of_getElem? hshard)
  have hpos : 0 < shard.length := by
    rw [hsize]
    decide
  have hle : shard.length ≤ mduSize := by
    rw [hsize]
    decide
  have hfresh : ∀ slot < 2, (sampleDisks (sampleBases slot)).get
      ((shardArtifact sampleManifestRoot 7 2 (.ofNat slot)).path ["data".toList]) = none := by
    intro slot hslot
    interval_cases slot
    · exact get_sampleDisks (shardFilename_ne (by simp)) fun i => shardFilename_ne (by simp)
    · rfl
  -- the history sends this shard to the first provider, and none to the second
  have hsent : ∀ slot < 2, ∀ content,
      sampleSlab committed.shard (shardFilename 2 (.ofNat slot)) = some content →
        OnlySent normalizeInfinity ["data".toList] (sampleBases slot)
          (shardArtifact sampleManifestRoot 7 2 (.ofNat slot)) content (sampleUploads shard) := by
    intro slot hslot content hcontent
    rw [sampleSlab_shard _ hslot] at hcontent
    interval_cases slot
    · rw [hshard] at hcontent
      cases hcontent
      exact onlySent_sampleUploads shard 0
    · intro d hd hbase
      exact absurd ((sampleUploads_base hd).symm.trans hbase) (by simp [sampleBases])
  have hrecovers :=
    @slab_recovered normalizeInfinity ["data".toList] identitySetup mirrorCode 1 1 (fun _ _ => 1)
    (by decide) (by decide) mdsCode_mirrorCode sampleManifestRoot 7 1 1 0 (by decide) mdu0 committed
    [['a'], ['b']] (fun slot => slot == 1) sampleBases
      (slotTasks sampleManifestRoot 7 ['p'] 0 1 1) rfl
    (sampleSlab committed.shard) (fun slot hslot => sampleSlab_shard _ hslot) sampleDisks
      (sampleUploads shard)
    (done_sampleUploads hshard hpos hle) hfresh hsent (fun _ slot => slot == 0) noMduFiles rfl
    (fun _ _ h => by cases h)
  -- the first slot can be asked
  have hok := hrecovers.enough [0] (by simp) le_rfl fun slot hslot => by
    rw [List.mem_singleton.mp hslot]
    exact Or.inr ⟨by decide, rfl, by simp [sampleBases], Or.inl rfl⟩
  have hmdu := hrecovers.mdu hok
  have hindex : (1 + 1 + 0 : UInt64) = 2 := rfl
  rw [hcommitted, hindex] at hmdu
  rw [hindex] at hok
  exact ⟨shard, hok, hmdu⟩

end Sample

end NilStore.Gateway
