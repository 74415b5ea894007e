import NilStore.Gateway.SessionMerkle
import NilStore.Chain.Liveness
import NilStore.Chain.Ledger

/-!
# `NilStore.Proofs.SessionReceipts`: a session receipt counts each signed chunk once

The gateway commits to the chunks of a download with a Keccak tree and the chain checks a path for
each chunk. `accepted_chunk` says that a path that the chain accepts is about the chunk at its
index, whatever its length: a leaf is the hash of 48 bytes and an inner node the hash of 64, so a
climb cannot start at an inner node and cannot pass through a leaf.

`session_receipt_sound` puts the builder, the verifier and the loop over the chunks together.
-/

set_option autoImplicit false

namespace NilStore.Chain

open NilStore.Lib NilStore.Gateway

/-! ### Leaves -/

/-- What a leaf stands for: a range of a file and the hash of the proof for it. -/
structure ChunkLeaf where
  rangeStart : UInt64
  rangeLen : UInt64
  proofHash : Bytes
  length_proofHash : proofHash.length = 32
deriving DecidableEq

/-- The bytes that `HashSessionLeaf` hashes. -/
def ChunkLeaf.preimage (chunk : ChunkLeaf) : Bytes :=
  uint64ToBigEndian chunk.rangeStart ++ uint64ToBigEndian chunk.rangeLen ++ chunk.proofHash

/-- What a chunk is hashed from has 48 bytes. -/
theorem ChunkLeaf.length_preimage (chunk : ChunkLeaf) : chunk.preimage.length = 48 := by
  simp [ChunkLeaf.preimage, chunk.length_proofHash]

/-- And it tells the chunk. -/
theorem ChunkLeaf.preimage_inj {a b : ChunkLeaf} (h : a.preimage = b.preimage) : a = b := by
  obtain ⟨hranges, hproof⟩ := List.append_inj h (by simp)
  obtain ⟨hstart, hlen⟩ := List.append_inj hranges (by simp)
  cases a
  cases b
  cases uint64ToBigEndian_inj hstart
  cases uint64ToBigEndian_inj hlen
  cases hproof
  rfl

variable {β : Type}

section

variable (keccak256 : Bytes → Bytes)

/-- `HashSessionLeaf` of a chunk. -/
def ChunkLeaf.leaf (chunk : ChunkLeaf) : Bytes :=
  hashSessionLeaf keccak256 chunk.rangeStart chunk.rangeLen chunk.proofHash

/-- The tree of the gateway over signed chunks. -/
def chunkTree (signed : List ChunkLeaf) : Bytes × List (List Bytes) :=
  keccakMerkleRootAndPaths keccak256 (signed.map (·.leaf keccak256))

/-- The bytes that are hashed while the tree over `signed` is built. -/
def treePreimages (signed : List ChunkLeaf) : Set Bytes :=
  {b | (∃ chunk ∈ signed, b = chunk.preimage) ∨
    ∃ e ∈ DuplicatedMerkle.treePairs (keccakNode keccak256) (signed.map (·.leaf keccak256)),
      b = e.1 ++ e.2}

/-- The bytes that are hashed while a path for `chunk` is verified. -/
def pathPreimages (chunk : ChunkLeaf) (leafIndex : UInt32) (merklePath : List Bytes) : Set Bytes :=
  {b | b = chunk.preimage ∨
    ∃ e ∈ DuplicatedMerkle.climbPairs (keccakNode keccak256) leafIndex.toNat (chunk.leaf keccak256)
      merklePath, b = e.1 ++ e.2}

end

/-- A hash is its own `common.Hash`. -/
theorem bytesToWidth_self {b : Bytes} {w : Nat} (h : b.length = w) : bytesToWidth w b = b := by
  simp [bytesToWidth, h]

section Tree

variable {keccak256 : Bytes → Bytes}

/-- The verifier climbs over siblings of 32 bytes and compares with the root. -/
theorem verifyKeccakMerklePath_eq_true {root h : Bytes} {leafIndex : UInt32}
    {merklePath : List Bytes} :
    verifyKeccakMerklePath keccak256 root h leafIndex merklePath = true ↔
      (∀ sib ∈ merklePath, sib.length = 32) ∧
        bytesToWidth 32
          (DuplicatedMerkle.climb (keccakNode keccak256) leafIndex.toNat h merklePath) =
          root := by
  induction merklePath generalizing h leafIndex with
  | nil => simp [verifyKeccakMerklePath, DuplicatedMerkle.climb]
  | cons sib rest ih =>
      have hparity : leafIndex % 2 = 0 ↔ leafIndex.toNat % 2 = 0 := by
        rw [← UInt32.toNat_inj]
        exact Iff.rfl
      have hhalf : (leafIndex / 2).toNat = leafIndex.toNat / 2 := rfl
      rw [verifyKeccakMerklePath, DuplicatedMerkle.climb]
      by_cases hlength : sib.length = 32
      · rw [if_neg (not_not.mpr hlength), ih, hhalf]
        simp only [hparity, keccakNode, List.mem_cons, forall_eq_or_imp, hlength, true_and]
      · rw [if_pos hlength]
        simp [hlength]

/-- Nodes have 32 bytes when the leaf and the siblings have. -/
theorem length_climbPairs (hkeccak : ∀ b, (keccak256 b).length = 32) {h : Bytes} {i : Nat}
    {merklePath : List Bytes} (hh : h.length = 32) (hpath : ∀ sib ∈ merklePath, sib.length = 32) :
    ∀ e ∈ DuplicatedMerkle.climbPairs (keccakNode keccak256) i h merklePath,
      e.1.length = 32 ∧ e.2.length = 32 := by
  induction merklePath generalizing h i with
  | nil =>
      intro e he
      cases he
  | cons sib rest ih =>
      have hsib := hpath sib List.mem_cons_self
      have hrest : ∀ sib ∈ rest, sib.length = 32 := fun s hs => hpath s (List.mem_cons_of_mem _ hs)
      intro e he
      rcases List.mem_cons.mp he with rfl | he
      · split
        · exact ⟨hh, hsib⟩
        · exact ⟨hsib, hh⟩
      · exact ih (hkeccak _) hrest e he

/-- A climb from a digest ends at a digest. -/
theorem length_climb (hkeccak : ∀ b, (keccak256 b).length = 32) {h : Bytes} {i : Nat}
    {merklePath : List Bytes} (hh : h.length = 32) :
    (DuplicatedMerkle.climb (keccakNode keccak256) i h merklePath).length = 32 := by
  induction merklePath generalizing h i with
  | nil => exact hh
  | cons sib rest ih =>
      rw [DuplicatedMerkle.climb]
      apply ih
      split
      · exact hkeccak _
      · exact hkeccak _

/-! ### The paths of the gateway -/

/-- A leaf is a digest. -/
theorem ChunkLeaf.length_leaf (hkeccak : ∀ b, (keccak256 b).length = 32) (chunk : ChunkLeaf) :
    (chunk.leaf keccak256).length = 32 :=
  hkeccak _

/-- The path that the gateway keeps for a chunk is accepted. The chain climbs it with the same hash
of pairs. -/
theorem honest_path_accepted (hkeccak : ∀ b, (keccak256 b).length = 32) {signed : List ChunkLeaf}
    {i : UInt32} (hi : i.toNat < signed.length) :
    ∃ chunk merklePath, signed[i.toNat]? = some chunk ∧
      (chunkTree keccak256 signed).2[i.toNat]? = some merklePath ∧
      verifyKeccakMerklePath keccak256 (chunkTree keccak256 signed).1 (chunk.leaf keccak256) i
        merklePath = true := by
  obtain ⟨chunk, hchunk⟩ : ∃ chunk, signed[i.toNat]? = some chunk :=
    ⟨_, List.getElem?_eq_getElem hi⟩
  have hne : signed.map (·.leaf keccak256) ≠ [] := by
    intro hnil
    rw [List.map_eq_nil_iff.mp hnil] at hi
    exact Nat.not_lt_zero _ hi
  -- the leaf, the root and the path of the tree
  have hleaf : (signed.map (·.leaf keccak256))[i.toNat]? = some (chunk.leaf keccak256) := by
    rw [List.getElem?_map, hchunk]
    rfl
  obtain ⟨hroot, hpaths⟩ := keccakMerkleRootAndPaths_eq keccak256 hne
  have hpath : (chunkTree keccak256 signed).2[i.toNat]? = some
      (DuplicatedMerkle.treeSiblings (keccakNode keccak256) (signed.map (·.leaf keccak256)) i.toNat
        (chunk.leaf keccak256)) := by
    rw [chunkTree, hpaths, List.getElem?_map, List.getElem?_range (by simpa using hi),
      Option.map_some, List.getD_eq_getElem?_getD, hleaf]
    rfl
  refine ⟨chunk, _, hchunk, hpath, verifyKeccakMerklePath_eq_true.mpr ⟨?_, ?_⟩⟩
  -- every sibling has 32 bytes, and the climb ends at the root
  · have hleaves : ∀ y ∈ signed.map (·.leaf keccak256), y.length = 32 := by
      intro y hy
      obtain ⟨chunk', -, rfl⟩ := List.mem_map.mp hy
      exact chunk'.length_leaf hkeccak
    intro sib hsib
    rcases List.mem_cons.mp hsib with rfl | hsib
    · exact DuplicatedMerkle.forall_sibling _ _ _ hleaves (chunk.length_leaf hkeccak)
    · refine DuplicatedMerkle.forall_mem_siblings (fun node : Bytes => node.length = 32) _
        (fun a b => hkeccak (a ++ b)) _ _ _ ?_ ?_ sib hsib
      · intro y hy
        obtain ⟨e, -, rfl⟩ := List.mem_map.mp hy
        exact hkeccak _
      · split
        · exact hkeccak _
        · exact hkeccak _
  · rw [bytesToWidth_self (length_climb hkeccak (chunk.length_leaf hkeccak))]
    have hclimb := DuplicatedMerkle.climb_treeSiblings (keccakNode keccak256) _ hleaf
    rw [hroot] at hclimb
    exact (Option.some.inj hclimb).symm

/-! ### Accepted paths -/

/-- The nodes of the tree have 32 bytes. -/
theorem length_treePairs (hkeccak : ∀ b, (keccak256 b).length = 32) (signed : List ChunkLeaf) :
    ∀ e ∈ DuplicatedMerkle.treePairs (keccakNode keccak256) (signed.map (·.leaf keccak256)),
      e.1.length = 32 ∧ e.2.length = 32 := by
  have hleaves : ∀ y ∈ signed.map (·.leaf keccak256), y.length = 32 := by
    intro y hy
    obtain ⟨chunk, -, rfl⟩ := List.mem_map.mp hy
    exact chunk.length_leaf hkeccak
  intro e he
  rcases List.mem_append.mp he with he | he
  · obtain ⟨hleft, hright⟩ := DuplicatedMerkle.mem_of_mem_pairsOf he
    exact ⟨hleaves _ hleft, hleaves _ hright⟩
  · obtain ⟨⟨e₁, -, hleft⟩, e₂, -, hright⟩ :=
      DuplicatedMerkle.mem_pairsAbove_layerUp (keccakNode keccak256) _ e he
    rw [hleft, hright]
    exact ⟨hkeccak _, hkeccak _⟩

/-- A path of any length that is accepted against the root is about the chunk at its index. It may
be shorter or longer than the tree is high, and then a leaf would be the hash of a pair. -/
theorem accepted_chunk (hkeccak : ∀ b, (keccak256 b).length = 32) {signed : List ChunkLeaf}
    {chunk : ChunkLeaf} {i : UInt32} {merklePath : List Bytes} {H : Set Bytes}
    (hinj : Set.InjOn keccak256 H) (htree : treePreimages keccak256 signed ⊆ H)
    (hpath : pathPreimages keccak256 chunk i merklePath ⊆ H) (hi : i.toNat < signed.length)
    (h : verifyKeccakMerklePath keccak256 (chunkTree keccak256 signed).1 (chunk.leaf keccak256) i
      merklePath = true) :
    signed[i.toNat]? = some chunk := by
  have hne : signed.map (·.leaf keccak256) ≠ [] := by
    intro hnil
    rw [List.map_eq_nil_iff.mp hnil] at hi
    exact Nat.not_lt_zero _ hi
  obtain ⟨hsiblings, hroot⟩ := verifyKeccakMerklePath_eq_true.mp h
  rw [bytesToWidth_self (length_climb hkeccak (chunk.length_leaf hkeccak))] at hroot
  -- the pairs of the climb and of the tree are among those that are hashed
  have hclimbPairs : ∀ e ∈ DuplicatedMerkle.climbPairs (keccakNode keccak256) i.toNat
      (chunk.leaf keccak256) merklePath, e ∈ nodePairs H := by
    intro e he
    obtain ⟨hleft, hright⟩ :=
      length_climbPairs hkeccak (chunk.length_leaf hkeccak) hsiblings e he
    exact ⟨hleft, hright, hpath (Or.inr ⟨e, he, rfl⟩)⟩
  have htreePairs : ∀ e ∈ DuplicatedMerkle.treePairs (keccakNode keccak256)
      (signed.map (·.leaf keccak256)), e ∈ nodePairs H := by
    intro e he
    obtain ⟨hleft, hright⟩ := length_treePairs hkeccak signed e he
    exact ⟨hleft, hright, htree (Or.inr ⟨e, he, rfl⟩)⟩
  -- A leaf is not the hash of two nodes, since 48 bytes are not 64.
  have hdistinct : ∀ (leaf : ChunkLeaf) (e : Bytes × Bytes), leaf.preimage ∈ H → e ∈ nodePairs H →
      leaf.leaf keccak256 ≠ keccakNode keccak256 e.1 e.2 := by
    rintro leaf ⟨left, right⟩ hleaf ⟨hleft, hright, hmem⟩ heq
    have hpreimage : leaf.preimage = left ++ right := hinj hleaf hmem heq
    have hlength := leaf.length_preimage
    rw [hpreimage, List.length_append, hleft, hright] at hlength
    cases hlength
  have hown : chunk.preimage ∈ H := hpath (Or.inl rfl)
  rcases DuplicatedMerkle.sound_tree (nodePairs_injOn hinj) hne
    (keccakMerkleRootAndPaths_eq keccak256 hne).1 htreePairs i.toNat (chunk.leaf keccak256)
    merklePath hclimbPairs hroot with ⟨-, e, he, hstart⟩ | ⟨-, hplace⟩ | ⟨-, e, he, hleaf⟩
  · exact absurd hstart (hdistinct chunk e hown (htreePairs e he))
  · have hget := hplace (by simpa using hi)
    rw [List.getElem?_map, Option.map_eq_some_iff] at hget
    obtain ⟨chunk', hchunk', heq⟩ := hget
    have hmem := htree (Or.inl ⟨chunk', List.mem_of_getElem? hchunk', rfl⟩)
    rw [hchunk', ChunkLeaf.preimage_inj (hinj hmem hown heq)]
  · obtain ⟨chunk', hchunk', heq⟩ := List.mem_map.mp hleaf
    have hmem := htree (Or.inl ⟨chunk', hchunk', rfl⟩)
    exact absurd heq (hdistinct chunk' e hmem (hclimbPairs e he))

end Tree

/-! ### Accepted sessions -/

/-- The hash of a proof is a digest. -/
theorem length_hashChainedProof (env : Env β) (proof : ChainedProof) :
    (hashChainedProof env.keccak256 proof).length = 32 := by
  rw [hashChainedProof]
  split
  · rfl
  · split
    · rfl
    · exact env.length_keccak256 _

/-- What the leaf of a chunk of a session stands for. -/
def SessionChunkProof.chunkLeaf (env : Env β) (chunk : SessionChunkProof) : ChunkLeaf where
  rangeStart := chunk.rangeStart
  rangeLen := chunk.rangeLen
  proofHash := hashChainedProof env.keccak256 chunk.proofDetails
  length_proofHash := length_hashChainedProof env chunk.proofDetails

/-- What the loop over the chunks has checked of one of them. -/
structure ChunkChecked (c : ProofCall β) (receipt : DownloadSessionReceipt)
    (chunk : SessionChunkProof) : Prop where
  index_lt : chunk.leafIndex < receipt.chunkCount.toUInt32
  path : verifyKeccakMerklePath c.env.keccak256 (bytesToWidth 32 receipt.chunkLeafRoot)
    ((chunk.chunkLeaf c.env).leaf c.env.keccak256) chunk.leafIndex chunk.merklePath = true

/-- A chunk that passes is checked against the receipt, and its index is new. -/
theorem checkChunk_ok {c : ProofCall β} {receipt : DownloadSessionReceipt} {seen : List UInt32}
    {chunk : SessionChunkProof} (h : c.checkChunk receipt seen chunk = .ok ()) :
    ChunkChecked c receipt chunk ∧ chunk.leafIndex ∉ seen := by
  simp only [ProofCall.checkChunk, except_bind_ok, rejectIf_eq_ok, UInt32.not_le, not_not] at h
  obtain ⟨-, -, -, hindex, -, hfresh, -, -, hpath⟩ := h
  exact ⟨⟨hindex, hpath⟩, hfresh⟩

/-- The loop has checked every chunk, has seen no index twice, and adds without overflow. The bytes
are those of all chunks together. -/
theorem verifyChunks_checked {c : ProofCall β} {receipt : DownloadSessionReceipt}
    {chunks : List SessionChunkProof} {seen : List UInt32} {bytes bytes' : UInt64}
    {s s' : KeeperState β}
    (h : (c.verifyChunks receipt seen bytes chunks).exec s = (.ok bytes', s')) :
    (∀ chunk ∈ chunks, ChunkChecked c receipt chunk) ∧
      (∀ chunk ∈ chunks, chunk.leafIndex ∉ seen) ∧ (chunks.map (·.leafIndex)).Nodup ∧
      bytes'.toNat = bytes.toNat + (chunks.map (·.rangeLen.toNat)).sum := by
  -- by the list of the chunks
  induction chunks generalizing seen bytes s with
  | nil =>
      rw [ProofCall.verifyChunks, Tx.exec_pure] at h
      cases h
      simp
  | cons chunk rest ih =>
      simp only [ProofCall.verifyChunks, Tx.exec_ofExcept_bind_ok, Tx.exec_failIf_bind_ok,
        Tx.exec_update_bind] at h
      obtain ⟨⟨⟩, hcheck, hoverflow, hrest⟩ := h
      obtain ⟨hchecked, hfresh⟩ := checkChunk_ok hcheck
      obtain ⟨hall, hunseen, hnodup, hbytes⟩ := ih hrest
      refine ⟨?_, ?_, ?_, ?_⟩
      -- each part for the first chunk and for the rest
      · intro chunk' hmem
        rcases List.mem_cons.mp hmem with rfl | hmem
        · exact hchecked
        · exact hall chunk' hmem
      · intro chunk' hmem
        rcases List.mem_cons.mp hmem with rfl | hmem
        · exact hfresh
        · exact fun hseen => hunseen chunk' hmem (List.mem_cons_of_mem _ hseen)
      · rw [List.map_cons, List.nodup_cons]
        refine ⟨?_, hnodup⟩
        intro hmem
        obtain ⟨chunk', hmem, heq⟩ := List.mem_map.mp hmem
        exact hunseen chunk' hmem (heq ▸ List.mem_cons_self)
      · have hsum : (bytes + chunk.rangeLen).toNat = bytes.toNat + chunk.rangeLen.toNat := by
          have hle : bytes.toNat ≤ (bytes + chunk.rangeLen).toNat :=
            UInt64.le_iff_toNat_le.mp (UInt64.not_lt.mp hoverflow)
          rw [UInt64.toNat_add] at hle ⊢
          have hb := bytes.toNat_lt
          have hl := chunk.rangeLen.toNat_lt
          omega
        rw [hbytes, hsum, List.map_cons, List.sum_cons, Nat.add_assoc]

/-- Places that are pairwise distinct and as many as the list is long rearrange the list. -/
theorem map_perm_of_places {α γ : Type} {l : List α} {signed : List γ} (place : α → Nat) (f : α → γ)
    (hplace : ∀ a ∈ l, signed[place a]? = some (f a)) (hnodup : (l.map place).Nodup)
    (hlength : l.length = signed.length) : (l.map f).Perm signed := by
  have hrange : (l.map place).Perm (List.range signed.length) := by
    refine (List.subperm_of_subset hnodup ?_).perm_of_length_le (by simp [hlength])
    intro i hi
    obtain ⟨a, ha, rfl⟩ := List.mem_map.mp hi
    exact List.mem_range.mpr (List.getElem?_eq_some_iff.mp (hplace a ha)).1
  have hleft : (l.map place).map (signed[·]?) = (l.map f).map some := by
    rw [List.map_map, List.map_map]
    exact List.map_congr_left hplace
  have hright : (List.range signed.length).map (signed[·]?) = signed.map some := by
    apply List.ext_getElem?
    intro i
    by_cases hi : i < signed.length
    · simp [hi]
    · simp [hi]
  have hmap := hrange.map (signed[·]?)
  rw [hleft, hright] at hmap
  exact (List.map_perm_map_iff (Option.some_injective γ)).mp hmap

/-- The chunks of an accepted session are the signed chunks, each once. Each is at its index, no
index comes twice, and there are as many as were signed. -/
theorem accepted_session {c : ProofCall β} {proof : RetrievalSessionProof} {bytes : UInt64}
    {s s' : KeeperState β} {signed : List ChunkLeaf} {H : Set Bytes}
    (hinj : Set.InjOn c.env.keccak256 H) (htree : treePreimages c.env.keccak256 signed ⊆ H)
    (hpaths : ∀ chunk ∈ proof.chunks, pathPreimages c.env.keccak256 (chunk.chunkLeaf c.env)
      chunk.leafIndex chunk.merklePath ⊆ H)
    (hroot : proof.sessionReceipt.chunkLeafRoot = (chunkTree c.env.keccak256 signed).1)
    (hcount : proof.chunks.length = signed.length)
    (h : (c.verifySession proof).exec s = (.ok bytes, s')) :
    (proof.chunks.map (·.chunkLeaf c.env)).Perm signed ∧
      (signed.map (·.rangeLen.toNat)).sum = proof.sessionReceipt.totalBytes.toNat := by
  simp only [ProofCall.verifySession, Tx.exec_reads_bind_ok] at h
  obtain ⟨⟨⟩, hreceipt, h⟩ := h
  rw [Tx.exec_bind_ok] at h
  obtain ⟨total, s₁, hchunks, h⟩ := h
  simp only [Tx.exec_failIf_bind_ok, not_not] at h
  obtain ⟨htotal, -⟩ := h
  simp only [ProofCall.checkSessionReceipt, except_bind_ok, rejectIf_eq_ok, not_not] at hreceipt
  obtain ⟨-, -, -, -, -, -, -, hlength, -, -, -, -, -, -, -, -, hchunkCount⟩ := hreceipt
  obtain ⟨hall, -, hnodup, hbytes⟩ := verifyChunks_checked hchunks
  -- each chunk is the signed one at its index
  have hplace : ∀ chunk ∈ proof.chunks,
      signed[chunk.leafIndex.toNat]? = some (chunk.chunkLeaf c.env) := by
    intro chunk hmem
    obtain ⟨hindex, hpath⟩ := hall chunk hmem
    rw [bytesToWidth_self hlength, hroot] at hpath
    refine accepted_chunk c.env.length_keccak256 hinj htree (hpaths chunk hmem) ?_ hpath
    rw [← hchunkCount] at hindex
    have hlt := UInt32.lt_iff_toNat_lt.mp hindex
    rw [UInt64.toNat_toUInt32, UInt64.toNat_ofNat'] at hlt
    omega
  have hdistinct : (proof.chunks.map fun chunk => chunk.leafIndex.toNat).Nodup := by
    have hmap := hnodup.map (f := UInt32.toNat) fun a b hab => UInt32.toNat_inj.mp hab
    rw [List.map_map] at hmap
    exact hmap
  have hperm := map_perm_of_places (fun chunk : SessionChunkProof => chunk.leafIndex.toNat)
    (·.chunkLeaf c.env) hplace hdistinct hcount
  refine ⟨hperm, ?_⟩
  -- the bytes are counted in another order
  rw [← htotal, hbytes, ← (hperm.map _).sum_eq, List.map_map]
  simp [Function.comp_def, SessionChunkProof.chunkLeaf]

/-- A session proof that `ProveLiveness` accepts has passed the verification of sessions. -/
theorem proveLiveness_session {env : Env β} {ctx : Ctx} {msg : MsgProveLiveness}
    {proof : RetrievalSessionProof} {r : MsgProveLivenessResponse} {s s' : KeeperState β}
    (hproof : msg.proofType = .sessionProof (some proof))
    (h : (proveLiveness env ctx msg).exec s = (.ok r, s')) :
    ∃ (c : ProofCall β) (bytes : UInt64) (s₁ s₂ : KeeperState β), c.env = env ∧
      (c.verifySession proof).exec s₁ = (.ok bytes, s₂) := by
  simp only [proveLiveness, Tx.exec_reads_bind_ok, Tx.exec_failIf_bind_ok,
    Tx.exec_ofExcept_bind_ok, Tx.exec_update_bind, Tx.exec_gets_bind] at h
  obtain ⟨deal, -, -, stripe, -, -, -, h⟩ := h
  rw [Tx.exec_bind_ok] at h
  obtain ⟨outcome, s₂, houtcome, -⟩ := h
  rw [ProofCall.handleProof] at houtcome
  simp only [hproof] at houtcome
  rw [Tx.exec_bind_ok] at houtcome
  obtain ⟨bytes, s₃, hverify, -⟩ := houtcome
  exact ⟨_, bytes, _, s₃, rfl, hverify⟩

/-- The bytes that are hashed while the tree over `signed` is built and while `paths` are verified
for their chunks. -/
def receiptPreimages (keccak256 : Bytes → Bytes) (signed : List ChunkLeaf)
    (paths : List (ChunkLeaf × UInt32 × List Bytes)) : Set Bytes :=
  {b | b ∈ treePreimages keccak256 signed ∨
    ∃ path ∈ paths, b ∈ pathPreimages keccak256 path.1 path.2.1 path.2.2}

/-- Take a tree of the gateway over some signed chunks. The path of each chunk is accepted. A path
of any length that is accepted at an index of the tree, for any range and proof hash, is about the
chunk that was signed there. A session that is accepted against the root with as many chunks as were
signed has the signed chunks, each once, and its total bytes are theirs. Keccak is injective on what
is hashed for the tree and for the paths. -/
theorem session_receipt_sound (env : Env β) (signed : List ChunkLeaf) :
    (∀ i : UInt32, i.toNat < signed.length → ∃ chunk merklePath,
      signed[i.toNat]? = some chunk ∧
      (chunkTree env.keccak256 signed).2[i.toNat]? = some merklePath ∧
      verifyKeccakMerklePath env.keccak256 (chunkTree env.keccak256 signed).1
        (chunk.leaf env.keccak256) i merklePath = true) ∧
    (∀ (chunk : ChunkLeaf) (i : UInt32) (merklePath : List Bytes), i.toNat < signed.length →
      Set.InjOn env.keccak256 (receiptPreimages env.keccak256 signed [(chunk, i, merklePath)]) →
      verifyKeccakMerklePath env.keccak256 (chunkTree env.keccak256 signed).1
        (chunk.leaf env.keccak256) i merklePath = true →
      signed[i.toNat]? = some chunk) ∧
    (∀ (ctx : Ctx) (msg : MsgProveLiveness) (proof : RetrievalSessionProof) (s s' : KeeperState β)
        (r : MsgProveLivenessResponse),
      msg.proofType = .sessionProof (some proof) →
      proof.sessionReceipt.chunkLeafRoot = (chunkTree env.keccak256 signed).1 →
      proof.chunks.length = signed.length →
      Set.InjOn env.keccak256 (receiptPreimages env.keccak256 signed
        (proof.chunks.map fun chunk => (chunk.chunkLeaf env, chunk.leafIndex, chunk.merklePath))) →
      (proveLiveness env ctx msg).exec s = (.ok r, s') →
      (proof.chunks.map (·.chunkLeaf env)).Perm signed ∧
        (signed.map (·.rangeLen.toNat)).sum = proof.sessionReceipt.totalBytes.toNat) := by
  refine ⟨fun i hi => honest_path_accepted env.length_keccak256 hi, ?_, ?_⟩
  · intro chunk i merklePath hi hinj h
    exact accepted_chunk env.length_keccak256 hinj (fun b hb => Or.inl hb)
      (fun b hb => Or.inr ⟨_, List.mem_singleton_self _, hb⟩) hi h
  · intro ctx msg proof s s' r hproof hroot hcount hinj h
    obtain ⟨c, bytes, s₁, s₂, rfl, hverify⟩ := proveLiveness_session hproof h
    refine accepted_session hinj (fun b hb => Or.inl hb) ?_ hroot hcount hverify
    intro chunk hchunk b hb
    exact Or.inr ⟨_, List.mem_map_of_mem hchunk, hb⟩

/-! ### A session of two chunks -/

/-- The Keccak-256 hashes of a receipt over two chunks, in the order in which they are asked for.
The first two are the leaves and the third is the root. -/
def receiptHashes : List Bytes :=
  [[0x86, 0x10, 0xdd, 0xe5, 0x46, 0xee, 0x2a, 0xae, 0xcc, 0x41, 0x01, 0x40, 0x70, 0x1c, 0x83, 0xdc,
      0xd3, 0xfe, 0x6c, 0x86, 0xb8, 0xd7, 0xf4, 0x81, 0xe4, 0x82, 0x9c, 0xf1, 0xea, 0x1e, 0x5f,
      0x37],
    [0x95, 0xe7, 0x47, 0xe2, 0xd6, 0xe0, 0xe1, 0xe6, 0x84, 0xbd, 0x6c, 0xcb, 0x34, 0x1b, 0x6a, 0xf1,
      0x9b, 0xcd, 0xe7, 0xdf, 0x12, 0xbb, 0xf0, 0x18, 0x0b, 0x90, 0x34, 0x8a, 0x11, 0xc0, 0x72,
      0x3d],
    [0x5d, 0x4d, 0xe0, 0x38, 0x3d, 0x52, 0x64, 0xb5, 0x21, 0x7c, 0x6a, 0xa0, 0x86, 0xa6, 0x76, 0x8f,
      0x00, 0x36, 0xad, 0x0c, 0xd9, 0xab, 0x08, 0xe9, 0x07, 0x19, 0xf1, 0x26, 0xcc, 0x93, 0xb6,
      0x62],
    [0x92, 0x2e, 0x75, 0x26, 0xf9, 0xe8, 0xa2, 0xe1, 0xe3, 0x93, 0xd0, 0xe2, 0x1a, 0xf8, 0xd3, 0x11,
      0x01, 0x97, 0xa5, 0xb7, 0xb1, 0xcd, 0x8e, 0x84, 0x9a, 0xc8, 0xda, 0x08, 0xb1, 0x04, 0x56,
      0xde],
    [0xb2, 0xcf, 0x70, 0xfd, 0xd6, 0x4a, 0x8e, 0xca, 0xe6, 0x8e, 0x07, 0x59, 0xed, 0x4c, 0xdf, 0xa0,
      0xdd, 0xe1, 0xb0, 0x4e, 0x9b, 0xd3, 0x64, 0x52, 0xa7, 0x84, 0x4b, 0x78, 0x9d, 0x17, 0x8d,
      0x1a],
    [0xf0, 0xc9, 0xd3, 0x2e, 0x33, 0x9f, 0xe2, 0x78, 0x9a, 0xc0, 0x1d, 0x07, 0xd3, 0x20, 0xbb, 0xcf,
      0xa4, 0x46, 0xb0, 0xce, 0xaf, 0x94, 0xae, 0x8a, 0x0b, 0x51, 0x5f, 0xfd, 0xe3, 0x55, 0x24,
      0x7c],
    [0xd1, 0xe8, 0xae, 0xb7, 0x95, 0x00, 0x49, 0x6e, 0xf3, 0xdc, 0x2e, 0x57, 0xba, 0x74, 0x6a, 0x83,
      0x15, 0xd0, 0x48, 0xb7, 0xa6, 0x64, 0xa2, 0xbf, 0x94, 0x8d, 0xb4, 0xfa, 0x91, 0x96, 0x04,
      0x83],
    [0xa7, 0x07, 0xaa, 0xd3, 0x05, 0xc6, 0xb8, 0x73, 0x64, 0xa8, 0xd0, 0xbd, 0x6b, 0x25, 0x58, 0x6b,
      0xdf, 0xd0, 0xfa, 0xb0, 0x9e, 0xbb, 0xf5, 0x3d, 0xdf, 0x8e, 0x78, 0x82, 0x3a, 0x5e, 0x98,
      0x06],
    [0x23, 0xb7, 0x5f, 0xab, 0x46, 0xf0, 0x38, 0xf7, 0x08, 0xf0, 0x79, 0xce, 0x55, 0x83, 0x63, 0x26,
      0xe5, 0xa0, 0xa9, 0x02, 0x22, 0x5b, 0x8f, 0x04, 0x86, 0x18, 0x42, 0xb1, 0xec, 0xa6, 0xb3,
      0x39]]

/-- The `k`-th of the sample digests. -/
def receiptHash (k : Nat) : Bytes := receiptHashes.getD k []

/-- The leaf of a range whose proof is the sample proof. -/
def receiptLeaf (rangeStart rangeLen : UInt64) : ChunkLeaf where
  rangeStart := rangeStart
  rangeLen := rangeLen
  proofHash := receiptHash 0
  length_proofHash := by decide

/-- The two chunks the sample receipt is signed for. -/
def receiptSigned : List ChunkLeaf := [receiptLeaf 0 1024, receiptLeaf 1024 1000]

/-- What is hashed: the proof, the leaves and the root, and the struct and the digest that are
signed. -/
def receiptKeccak : HashTable where
  entries := domainPreimages.zip domainHashes ++
    [uint64ToBigEndian 0 ++ sampleMduRoot ++ identityPoint ++ identityPoint ++ putUint32 6 ++
        (List.replicate 6 zeroHash).flatten ++ putUint32 0 ++ zeroHash ++ zeroHash ++ identityPoint,
      (receiptLeaf 0 1024).preimage, (receiptLeaf 1024 1000).preimage,
      receiptHash 1 ++ receiptHash 2,
      utf8 ("DownloadSessionReceipt(uint64 deal_id,uint64 epoch_id,string provider," ++
        "string file_path,uint64 total_bytes,uint64 chunk_count,bytes32 chunk_leaf_root," ++
        "uint64 nonce,uint64 expires_at)").toList,
      utf8 providerText, utf8 "f".toList,
      receiptHash 4 ++ paddedBigBytes 0 ++ paddedBigBytes 1 ++ receiptHash 5 ++ receiptHash 6 ++
        paddedBigBytes 2024 ++ paddedBigBytes 2 ++ receiptHash 3 ++ paddedBigBytes 1 ++
        paddedBigBytes 100,
      digestPreimage (domainHashes.getD 3 []) (receiptHash 7)].zip receiptHashes
  lengths := by decide +kernel

/-- The signature of the owner. -/
def receiptSignature : Bytes :=
  [0x54, 0x4f, 0x12, 0x68, 0x5d, 0x6d, 0xa3, 0x0a, 0xa9, 0x09, 0x06, 0x8b, 0x52, 0x08, 0xdb, 0x93,
    0xba, 0x60, 0x36, 0xd4, 0xa1, 0x7d, 0x5b, 0x6d, 0xf9, 0xab, 0x4f, 0x87, 0xff, 0xfe, 0xb6, 0x42,
    0x6d, 0x07, 0xa6, 0xea, 0xb3, 0x2e, 0x6d, 0x68, 0x68, 0x03, 0x77, 0x55, 0xda, 0x51, 0x01, 0x5a,
    0x42, 0x51, 0x3f, 0x69, 0xe0, 0xd3, 0x24, 0xf5, 0xde, 0xc7, 0xdd, 0xf4, 0xc0, 0x56, 0x17, 0xf1,
    0x00]

/-- The chain of the sample receipt. -/
def receiptEnv : Env Ledger :=
  { bookEnv signerBook receiptKeccak sampleSha
      [(receiptHash 8, receiptSignature, signerAddr)] 8 with
    kzgCtx := some sampleSetup }

/-- The receipt, with both chunks in the other order. -/
def receiptProof : RetrievalSessionProof where
  sessionReceipt :=
    { dealId := 0
      epochId := 1
      provider := providerText
      filePath := "f".toList
      totalBytes := 2024
      chunkCount := 2
      chunkLeafRoot := receiptHash 3
      userSignature := receiptSignature
      nonce := 1
      expiresAt := 100 }
  chunks := [⟨1024, 1000, sampleProof 0, 1, [receiptHash 1]⟩,
    ⟨0, 1024, sampleProof 0, 0, [receiptHash 2]⟩]

/-- A deal of the EVM account with the sample content. -/
def receiptState : KeeperState Ledger :=
  run (apply receiptEnv) (genesis defaultParams signerBank)
    [.deliver (ctxAt 1) (registerMsg providerText),
      .deliver (ctxAt 1)
        (.createDeal
          { creator := signerText
            durationBlocks := 100
            serviceHint := "General".toList
            maxMonthlySpend := some 1000
            initialEscrowAmount := some 1000 }),
      .deliver (ctxAt 1) (.updateDealContent ⟨signerText, 0, hexEncode sampleManifestRoot, 1⟩)]

/-- No two of the hashed strings have the same hash. -/
theorem receiptKeccak_injOn :
    Set.InjOn receiptEnv.keccak256 {b | b ∈ receiptKeccak.entries.map (·.1)} := by
  have hall : ∀ b ∈ receiptKeccak.entries.map (·.1), ∀ b' ∈ receiptKeccak.entries.map (·.1),
      receiptKeccak.hash b = receiptKeccak.hash b' → b = b' := by
    decide +kernel
  exact fun b hb b' hb' heq => hall b hb b' hb' heq

/-- The session is accepted, and its chunks are the two signed ones. The receipt is signed over the
real hashes. -/
theorem session_receipt_sound_pair :
    ∃ r s', (proveLiveness receiptEnv (ctxAt 2)
        ⟨providerText, 0, 1, .sessionProof (some receiptProof)⟩).exec receiptState = (.ok r, s') ∧
      (receiptProof.chunks.map (·.chunkLeaf receiptEnv)).Perm receiptSigned := by
  have haccepted : ((proveLiveness receiptEnv (ctxAt 2)
      ⟨providerText, 0, 1, .sessionProof (some receiptProof)⟩).exec receiptState).1 =
        .ok ⟨true, 0, "1000002".toList⟩ := by
    decide +kernel
  obtain ⟨s', hexec⟩ := Tx.exists_exec_eq haccepted
  -- the leaves and the root are those of the table
  have hleaves : receiptSigned.map (·.leaf receiptEnv.keccak256) =
      [receiptHash 1, receiptHash 2] := by
    decide +kernel
  have hroot : (chunkTree receiptEnv.keccak256 receiptSigned).1 = receiptHash 3 := by
    rw [chunkTree, hleaves]
    decide +kernel
  -- whatever is hashed is in the table, and its hashes are different
  have hinj : Set.InjOn receiptEnv.keccak256 (receiptPreimages receiptEnv.keccak256 receiptSigned
      (receiptProof.chunks.map fun chunk =>
        (chunk.chunkLeaf receiptEnv, chunk.leafIndex, chunk.merklePath))) := by
    have hchunks : ∀ chunk ∈ receiptSigned, chunk.preimage ∈ receiptKeccak.entries.map (·.1) := by
      decide +kernel
    have hpairs : ∀ e ∈ DuplicatedMerkle.pairsOf [receiptHash 1, receiptHash 2],
        e.1 ++ e.2 ∈ receiptKeccak.entries.map (·.1) := by
      decide +kernel
    have hpaths : ∀ path ∈ receiptProof.chunks.map fun chunk =>
        (chunk.chunkLeaf receiptEnv, chunk.leafIndex, chunk.merklePath),
        path.1.preimage ∈ receiptKeccak.entries.map (·.1) ∧
          ∀ e ∈ DuplicatedMerkle.climbPairs (keccakNode receiptEnv.keccak256) path.2.1.toNat
            (path.1.leaf receiptEnv.keccak256) path.2.2,
            e.1 ++ e.2 ∈ receiptKeccak.entries.map (·.1) := by
      decide +kernel
    apply receiptKeccak_injOn.mono
    rintro b ((⟨chunk, hchunk, rfl⟩ | ⟨e, he, rfl⟩) | ⟨path, hpath, hb⟩)
    · exact hchunks chunk hchunk
    · rw [hleaves, DuplicatedMerkle.treePairs, DuplicatedMerkle.pairsAbove, if_pos (by decide),
        List.append_nil] at he
      exact hpairs e he
    · rcases hb with rfl | ⟨e, he, rfl⟩
      · exact (hpaths path hpath).1
      · exact (hpaths path hpath).2 e he
  exact ⟨_, s', hexec,
    ((session_receipt_sound receiptEnv receiptSigned).2.2 (ctxAt 2) _ receiptProof
    receiptState s' _ rfl hroot.symm rfl hinj hexec).1⟩

end NilStore.Chain
