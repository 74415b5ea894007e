import NilStore.Chain.Ledger
import NilStore.Core.Manifest

/-!
# `NilStore.Proofs.Binding`: accepted chained proofs are binding

No binding holds of all byte strings: a commitment has an opening to every value, and two different
preimages have one hash. It is assumed of what can be computed: `O` is a set of openings among which
none opens one commitment at one point to two values (`EvaluationBinding`), and `H` a set of
preimages on which the hash is injective. `O` has the openings that an honest prover computes and
those that somebody presents, `H` the preimages of the trees that are built and of the paths that
are checked.

Then what is accepted against the commitment of a list of MDU roots is what the list and the tree
hold (`accepted_binding`), and two accepted inputs agree.
-/

set_option autoImplicit false

namespace NilStore.Core

open NilStore.Lib Polynomial

/-! ### Openings -/

/-- An opening of a commitment at a point. -/
structure Opening where
  commitment : Bytes
  point : Bytes
  value : Bytes
  proof : Bytes

/-- The verifier accepts the opening. -/
def Opening.Verifies (ctx : KzgContext) (o : Opening) : Prop :=
  verifyProof ctx o.commitment o.point o.value o.proof = .ok true

/-- Among the openings of `O`, one commitment opens at one point to one value. -/
def EvaluationBinding (ctx : KzgContext) (O : Set Opening) : Prop :=
  ∀ o ∈ O, ∀ o' ∈ O, o.Verifies ctx → o'.Verifies ctx → o.commitment = o'.commitment →
    o.point = o'.point → o.value = o'.value

/-- The commitment to a polynomial. -/
noncomputable def commitPoly (ctx : KzgContext) (secret : Scalar) (p : Scalar[X]) : Bytes :=
  ctx.crates.g1ToCompressed (ctx.g1Generator * p.eval secret)

/-- The opening of a polynomial at a point, by the quotient. -/
noncomputable def honestOpening (ctx : KzgContext) (secret : Scalar) (p : Scalar[X]) (x : Scalar) :
    Opening where
  commitment := commitPoly ctx secret p
  point := scalarToBytesBe x
  value := scalarToBytesBe (p.eval x)
  proof := commitPoly ctx secret (p /ₘ (X - C x))

/-- The opening a prover who knows the polynomial makes is accepted. -/
theorem honestOpening_verifies {ctx : KzgContext} {secret : Scalar}
    (hsetup : TrustedSetup ctx secret)
    (p : Scalar[X]) (x : Scalar) : (honestOpening ctx secret p x).Verifies ctx := by
  have hdivision : p - C (p.eval x) = (X - C x) * (p /ₘ (X - C x)) := by
    have hsplit := modByMonic_add_div p (X - C x)
    rw [modByMonic_X_sub_C_eq_C_eval] at hsplit
    exact sub_eq_of_eq_add' hsplit.symm
  exact hsetup.verifyProof_quotient (parseScalar_scalarToBytesBe x) hdivision

/-- Bytes that parse are the ones that the scalar is written with. -/
theorem scalarToBytesBe_of_parseScalar {bytes : Bytes} {s : Scalar}
    (h : parseScalar bytes = .ok s) : bytes = scalarToBytesBe s := by
  rw [parseScalar] at h
  split at h
  · cases h
  · rename_i hlength
    split at h
    · rename_i hlt
      have hs : ((ofBeBytes bytes : Nat) : Scalar) = s := Except.ok.inj h
      have hwrite := beBytes_ofBeBytes bytes
      rw [not_not.mp hlength] at hwrite
      rw [← hs, scalarToBytesBe, ZMod.val_natCast_of_lt hlt, hwrite]
    · cases h

/-- What an accepted opening parses. -/
theorem Opening.Verifies.parses {ctx : KzgContext} {o : Opening} (h : o.Verifies ctx) :
    ∃ z y, parseScalar o.point = .ok z ∧ parseScalar o.value = .ok y := by
  rw [Opening.Verifies, verifyProof] at h
  split at h
  · simp only [except_bind_ok] at h
    obtain ⟨_, -, _, -, z, hz, y, hy, -⟩ := h
    exact ⟨z, y, hz, hy⟩
  · cases h

/-- `z_for_cell` writes the points of the domain in the canonical way. -/
theorem zForCell_eq {i : Nat} (h : i < 4096) : zForCell i = scalarToBytesBe (omega ^ i) :=
  scalarToBytesBe_of_parseScalar (parseScalar_zForCell (lt_of_lt_of_le h (by norm_num)))

/-! ### Trees -/

/-- `rs_merkle` accepts a path exactly when the fold of the siblings that index and leaf count call
for reaches the root. -/
structure RsMerkleFolds (crates : Crates) : Prop where
  merkleRoot_eq : ∀ leaves,
    crates.merkleRoot leaves = PromotedMerkle.root (concatAndHash crates) leaves
  merkleVerify_eq : ∀ path root index leaf numLeaves, index < numLeaves →
    (crates.merkleVerify path root index leaf numLeaves = some true ↔
      PromotedMerkle.foldPath (concatAndHash crates) numLeaves index leaf path = some root)

/-- The preimages of the tree over a list of commitments. -/
def TreeHashed (crates : Crates) (commitments : List Bytes) (H : Set Bytes) : Prop :=
  (∀ c ∈ commitments, c ∈ H) ∧
    ∀ e ∈ PromotedMerkle.treePairs (concatAndHash crates) (commitments.map crates.blake2s256),
      e.1 ++ e.2 ∈ H

/-- The openings and the preimages of an input. -/
structure Computable (ctx : KzgContext) (O : Set Opening) (H : Set Bytes) (a : ChainedProofArgs) :
    Prop where
  manifest : ⟨a.manifestCommitment, zForCell a.mduIndex.toNat,
    scalarToBytesBe (reduceBytes32ToScalar a.mduMerkleRoot), a.manifestProof⟩ ∈ O
  blob : ⟨a.blobCommitment, a.blobZ, a.blobY, a.blobProof⟩ ∈ O
  leaf : a.blobCommitment ∈ H
  nodes : ∀ e ∈ PromotedMerkle.foldPairs (concatAndHash ctx.crates) a.leafCount.toNat
    a.blobIndex.toNat (ctx.crates.blake2s256 a.blobCommitment) a.nodes, e.1 ++ e.2 ∈ H

section Hash

variable {crates : Crates} {H : Set Bytes}

/-- A fold from a node of 32 bytes along nodes of 32 bytes combines such nodes. -/
theorem length_foldPairs (hlength : ∀ b, (crates.blake2s256 b).length = 32) (n i : Nat) (x : Bytes)
    (path : List Bytes) (hx : x.length = 32) (hpath : ∀ node ∈ path, node.length = 32) :
    ∀ e ∈ PromotedMerkle.foldPairs (concatAndHash crates) n i x path,
      e.1.length = 32 ∧ e.2.length = 32 := by
  induction n, i, x, path using PromotedMerkle.foldPath.induct (concatAndHash crates) with
  | case1 n i x path h =>
      intro e he
      rw [PromotedMerkle.foldPairs_top _ _ _ h] at he
      cases he
  | case2 n i x path h hlast ih =>
      rw [PromotedMerkle.foldPairs_promote _ _ _ h hlast]
      exact ih hx hpath
  | case3 n i x h hlast =>
      intro e he
      rw [PromotedMerkle.foldPairs.eq_def, if_neg h, if_neg hlast] at he
      cases he
  | case4 n i x h hlast s rest ih =>
      have hs : s.length = 32 := hpath s List.mem_cons_self
      have hrest : ∀ node ∈ rest, node.length = 32 :=
        fun node hnode => hpath node (List.mem_cons_of_mem _ hnode)
      intro e he
      rw [PromotedMerkle.foldPairs_cons _ _ _ _ h hlast, List.mem_cons] at he
      rcases he with rfl | he
      -- the node is on the left or on the right of its sibling
      · by_cases hi : i % 2 = 0
        · rw [if_pos hi]
          exact ⟨hx, hs⟩
        · rw [if_neg hi]
          exact ⟨hs, hx⟩
      -- the parent is a hash, so it has 32 bytes again
      · by_cases hi : i % 2 = 0
        · rw [if_pos hi] at he
          rw [dif_pos hi] at ih
          exact ih (hlength _) hrest e he
        · rw [if_neg hi] at he
          rw [dif_neg hi] at ih
          exact ih (hlength _) hrest e he

/-- So does a tree over hashes. -/
theorem length_treePairs (hlength : ∀ b, (crates.blake2s256 b).length = 32) (l : List Bytes)
    (hl : ∀ node ∈ l, node.length = 32) :
    ∀ e ∈ PromotedMerkle.treePairs (concatAndHash crates) l, e.1.length = 32 ∧ e.2.length = 32 := by
  have hpairs : ∀ l : List Bytes, (∀ node ∈ l, node.length = 32) →
      ∀ e ∈ PromotedMerkle.treePairs.pairsOf l, e.1.length = 32 ∧ e.2.length = 32 := by
    intro l
    induction l using PromotedMerkle.layerUp.induct with
    | case1 a b rest ih =>
        intro hl e he
        rcases List.mem_cons.mp he with rfl | he
        · exact ⟨hl a (by simp), hl b (by simp)⟩
        · exact ih (fun node hnode => hl node (by simp [hnode])) e he
    | case2 a => intro _ e he; cases he
    | case3 => intro _ e he; cases he
  -- the layer above has hashes, and a lonely node, which stays
  have hup : ∀ l : List Bytes, (∀ node ∈ l, node.length = 32) →
      ∀ node ∈ PromotedMerkle.layerUp (concatAndHash crates) l, node.length = 32 := by
    intro l
    induction l using PromotedMerkle.layerUp.induct with
    | case1 a b rest ih =>
        intro hl node hnode
        rcases List.mem_cons.mp hnode with rfl | hnode
        · exact hlength _
        · exact ih (fun node hnode => hl node (by simp [hnode])) node hnode
    | case2 a => intro hl node hnode; exact hl node hnode
    | case3 => intro hl node hnode; cases hnode
  -- the induction follows the layers
  induction l using PromotedMerkle.treePairs.induct (concatAndHash crates) with
  | case1 l h =>
      intro e he
      rw [PromotedMerkle.treePairs, if_pos h] at he
      cases he
  | case2 l h ih =>
      intro e he
      rw [PromotedMerkle.treePairs, if_neg h] at he
      rcases List.mem_append.mp he with he | he
      · exact hpairs l hl e he
      · exact ih (hup l hl) e he

end Hash

/-! ### Accepted inputs -/

/-- What is assumed: a trusted setup, evaluation binding among the openings of `O`, a hash that is
injective on `H`, and a crate that folds. -/
structure Binds (ctx : KzgContext) (secret : Scalar) (O : Set Opening) (H : Set Bytes) : Prop where
  setup : TrustedSetup ctx secret
  openings : EvaluationBinding ctx O
  hash : Set.InjOn ctx.crates.blake2s256 H
  length_hash : ∀ b, (ctx.crates.blake2s256 b).length = 32
  merkle : RsMerkleFolds ctx.crates

/-- An input that is accepted against a manifest commitment, with a blob index in range. -/
structure AcceptedAgainst (ctx : KzgContext) (commitment : Bytes) (a : ChainedProofArgs) :
    Prop where
  accepted : nilVerifyChainedProof (some ctx) a = some 1
  manifest : a.manifestCommitment = commitment
  index_lt : a.blobIndex.toNat < a.leafCount.toNat

section Accepted

variable {ctx : KzgContext} {secret : Scalar} {O : Set Opening} {H : Set Bytes} {commitment : Bytes}
  {a a' : ChainedProofArgs}

/-- Acceptance is that of the three hops. -/
theorem AcceptedAgainst.hops (h : AcceptedAgainst ctx commitment a) :
    a.hop1 ctx = .ok true ∧ a.hop2 ctx = some (.ok true) ∧ a.hop3 ctx = .ok true := by
  obtain ⟨ctx', hctx, hhops⟩ := nilVerifyChainedProof_eq_one.mp h.accepted
  cases hctx
  exact hhops

/-- The nodes of a path come in words of 32 bytes. -/
theorem ChainedProofArgs.length_of_mem_nodes (a : ChainedProofArgs) :
    ∀ node ∈ a.nodes, node.length = 32 := by
  intro node hnode
  simpa using (List.mem_filter.mp hnode).2

/-- The path of an accepted input leads from its leaf to its root, over pairs that were hashed. -/
theorem AcceptedAgainst.path (hb : Binds ctx secret O H) (h : AcceptedAgainst ctx commitment a)
    (hc : Computable ctx O H a) :
    PromotedMerkle.foldPath (concatAndHash ctx.crates) a.leafCount.toNat a.blobIndex.toNat
        (ctx.crates.blake2s256 a.blobCommitment) a.nodes = some a.mduMerkleRoot ∧
      ∀ e ∈ PromotedMerkle.foldPairs (concatAndHash ctx.crates) a.leafCount.toNat a.blobIndex.toNat
        (ctx.crates.blake2s256 a.blobCommitment) a.nodes, e ∈ nodePairs H := by
  obtain ⟨-, hmerkle⟩ := ChainedProofArgs.hop2_ok h.hops.2.1
  refine ⟨(hb.merkle.merkleVerify_eq _ _ _ _ _ h.index_lt).mp hmerkle, ?_⟩
  intro e he
  obtain ⟨hleft, hright⟩ := length_foldPairs hb.length_hash _ _ _ _ (hb.length_hash _)
    a.length_of_mem_nodes e he
  exact ⟨hleft, hright, hc.nodes e he⟩

/-- The presented MDU root is what the manifest has in its cell, modulo the order. The first hop
opens the manifest at the point of the cell, and binding makes the opened value that of the honest
opening there. -/
theorem AcceptedAgainst.root (hb : Binds ctx secret O H) {roots : List Bytes} {blob : Bytes}
    (hcommit : computeManifestCommitment ctx roots = .ok (commitment, blob))
    (hhonest : ∀ i < 4096, honestOpening ctx secret (blobPoly blob) (omega ^ i) ∈ O)
    (h : AcceptedAgainst ctx commitment a) (hc : Computable ctx O H a) :
    a.mduIndex.toNat < 4096 ∧ reduceBytes32ToScalar a.mduMerkleRoot =
      (roots[a.mduIndex.toNat]?.map reduceBytes32ToScalar).getD 0 := by
  obtain ⟨hindex, -, hverifies⟩ := ChainedProofArgs.hop1_ok h.hops.1
  refine ⟨hindex, ?_⟩
  rw [computeManifestCommitment_ok] at hcommit
  cases hcommit
  have hlength := length_manifestBlob roots
  have hcommitment := hb.setup.commitBlob_eq hlength
  -- two openings of one commitment at one point have the same value
  have hvalue := hb.openings _ hc.manifest _ (hhonest _ hindex) hverifies
    (honestOpening_verifies hb.setup _ _) (h.manifest.trans hcommitment) (zForCell_eq hindex)
  -- The honest value is the cell of the manifest.
  have hcell := eval_blobPoly hlength hindex
  rw [wordAt_manifestBlob roots hindex] at hcell
  have hroot : reduceBytes32ToScalar a.mduMerkleRoot =
      (blobPoly (manifestBlob roots)).eval (omega ^ a.mduIndex.toNat) := scalarToBytesBe_inj hvalue
  rw [hroot, hcell]
  cases roots[a.mduIndex.toNat]? with
  | none =>
      have hzeros : ofBeBytes (List.replicate 32 0) = 0 :=
        ofBeBytes_zeros fun x hx => List.eq_of_mem_replicate hx
      show ((ofBeBytes (List.replicate 32 0) : Nat) : Scalar) = 0
      rw [hzeros, Nat.cast_zero]
  | some root => exact reduceBytes32ToScalar_scalarToBytesBe _

/-- Under the root of a list of commitments, the presented commitment is the one at its place. The
path of the input and the tree of the list combine hashed pairs only, and among these no two
collide. -/
theorem AcceptedAgainst.blob (hb : Binds ctx secret O H) (h : AcceptedAgainst ctx commitment a)
    (hc : Computable ctx O H a) {commitments : List Bytes}
    (hroot : createMduMerkleRoot ctx commitments = .ok a.mduMerkleRoot)
    (hcount : commitments.length = a.leafCount.toNat)
    (htree : TreeHashed ctx.crates commitments H) :
    commitments[a.blobIndex.toNat]? = some a.blobCommitment := by
  obtain ⟨hfold, hpairs⟩ := h.path hb hc
  -- the root of the list is the root of its tree of hashes
  have htop : PromotedMerkle.root (concatAndHash ctx.crates)
      (commitments.map ctx.crates.blake2s256) = some a.mduMerkleRoot := by
    rw [createMduMerkleRoot, hb.merkle.merkleRoot_eq] at hroot
    split at hroot
    · rename_i root hsome
      cases hroot
      exact hsome
    · cases hroot
  have hlt : a.blobIndex.toNat < commitments.length := by
    rw [hcount]
    exact h.index_lt
  have hlisted := List.getElem?_eq_getElem hlt
  have hleaf : (commitments.map ctx.crates.blake2s256)[a.blobIndex.toNat]? =
      some (ctx.crates.blake2s256 commitments[a.blobIndex.toNat]) := by
    rw [List.getElem?_map, hlisted, Option.map_some]
  have hleaves : ∀ node ∈ commitments.map ctx.crates.blake2s256, node.length = 32 := by
    intro node hnode
    obtain ⟨c, -, rfl⟩ := List.mem_map.mp hnode
    exact hb.length_hash c
  -- the pairs of the tree have been hashed
  have htreePairs : ∀ e ∈ PromotedMerkle.treePairs (concatAndHash ctx.crates)
      (commitments.map ctx.crates.blake2s256), e ∈ nodePairs H := by
    intro e he
    obtain ⟨hleft, hright⟩ := length_treePairs hb.length_hash _ hleaves e he
    exact ⟨hleft, hright, htree.2 e he⟩
  rw [← hcount, ← List.length_map ctx.crates.blake2s256] at hfold hpairs
  -- so the folded leaf is the leaf of the tree, and the hash is of the same bytes
  have hsame := PromotedMerkle.leaf_of_foldPath (nodePairs_injOn hb.hash) htreePairs hpairs hfold
    htop hleaf
  rw [hlisted, hb.hash hc.leaf (htree.1 _ (List.getElem_mem hlt)) hsame]

/-- The presented value is that of the polynomial that the presented commitment commits to. -/
theorem AcceptedAgainst.value (hb : Binds ctx secret O H) (h : AcceptedAgainst ctx commitment a)
    (hc : Computable ctx O H a) {p : Scalar[X]} (hp : a.blobCommitment = commitPoly ctx secret p)
    {z : Scalar} (hz : parseScalar a.blobZ = .ok z) (hhonest : honestOpening ctx secret p z ∈ O) :
    parseScalar a.blobY = .ok (p.eval z) := by
  have hverifies : Opening.Verifies ctx ⟨a.blobCommitment, a.blobZ, a.blobY, a.blobProof⟩ :=
    h.hops.2.2
  have hvalue := hb.openings _ hc.blob _ hhonest hverifies (honestOpening_verifies hb.setup p z) hp
    (scalarToBytesBe_of_parseScalar hz)
  have hwritten : a.blobY = scalarToBytesBe (p.eval z) := hvalue
  rw [hwritten, parseScalar_scalarToBytesBe]

/-- Two accepted inputs for one leaf of one root carry the same commitment. -/
theorem AcceptedAgainst.blob_unique (hb : Binds ctx secret O H)
    (h : AcceptedAgainst ctx commitment a)
    (h' : AcceptedAgainst ctx commitment a') (hc : Computable ctx O H a)
    (hc' : Computable ctx O H a')
    (hroot : a.mduMerkleRoot = a'.mduMerkleRoot) (hindex : a.blobIndex = a'.blobIndex)
    (hcount : a.leafCount = a'.leafCount) : a.blobCommitment = a'.blobCommitment := by
  obtain ⟨hfold, hpairs⟩ := h.path hb hc
  obtain ⟨hfold', hpairs'⟩ := h'.path hb hc'
  rw [← hroot, ← hindex, ← hcount] at hfold'
  rw [← hindex, ← hcount] at hpairs'
  have hleaf := PromotedMerkle.foldPath_inj (nodePairs_injOn hb.hash) hpairs hpairs' hfold hfold'
  exact hb.hash hc.leaf hc'.leaf hleaf

end Accepted

/-- Accepted chained proofs are binding. Against the commitment of a list of MDU roots, an accepted
input presents the root of its cell (modulo the order), the commitment of its leaf, if its root is
that of a list of commitments, and the value of the committed polynomial. Two accepted inputs for
the same leaf and point agree in commitment and value. -/
theorem accepted_binding (ctx : KzgContext) (secret : Scalar) (O : Set Opening) (H : Set Bytes)
    (hb : Binds ctx secret O H) (roots : List Bytes) (commitment blob : Bytes)
    (hcommit : computeManifestCommitment ctx roots = .ok (commitment, blob))
    (hhonest : ∀ i < 4096, honestOpening ctx secret (blobPoly blob) (omega ^ i) ∈ O) :
    (∀ a, AcceptedAgainst ctx commitment a → Computable ctx O H a →
      a.mduIndex.toNat < 4096 ∧
      reduceBytes32ToScalar a.mduMerkleRoot =
        (roots[a.mduIndex.toNat]?.map reduceBytes32ToScalar).getD 0 ∧
      (∀ commitments, createMduMerkleRoot ctx commitments = .ok a.mduMerkleRoot →
        commitments.length = a.leafCount.toNat → TreeHashed ctx.crates commitments H →
        commitments[a.blobIndex.toNat]? = some a.blobCommitment) ∧
      (∃ z, parseScalar a.blobZ = .ok z ∧
        ∀ p : Scalar[X], p.degree < 4096 → a.blobCommitment = commitPoly ctx secret p →
          honestOpening ctx secret p z ∈ O → parseScalar a.blobY = .ok (p.eval z))) ∧
    ∀ a a', AcceptedAgainst ctx commitment a → AcceptedAgainst ctx commitment a' →
      Computable ctx O H a → Computable ctx O H a' → a.mduIndex = a'.mduIndex →
      a.mduMerkleRoot = a'.mduMerkleRoot → a.blobIndex = a'.blobIndex → a.leafCount = a'.leafCount →
      a.blobZ = a'.blobZ → a.blobCommitment = a'.blobCommitment ∧ a.blobY = a'.blobY := by
  constructor
  · intro a h hc
    obtain ⟨hindex, hroot⟩ := h.root hb hcommit hhonest hc
    refine ⟨hindex, hroot, ?_, ?_⟩
    · intro commitments hcreate hcount htree
      exact h.blob hb hc hcreate hcount htree
    -- the last hop opens the commitment of the blob
    · have hverifies : Opening.Verifies ctx ⟨a.blobCommitment, a.blobZ, a.blobY, a.blobProof⟩ :=
        h.hops.2.2
      obtain ⟨z, y, hz, -⟩ := hverifies.parses
      refine ⟨z, hz, ?_⟩
      intro p _ hp hopening
      exact h.value hb hc hp hz hopening
  -- equal paths lead from equal leaves, and equal commitments open to equal values
  · intro a a' h h' hc hc' _ hroot hblobIndex hcount hz
    have hblob := h.blob_unique hb h' hc hc' hroot hblobIndex hcount
    have hvalue := hb.openings _ hc.blob _ hc'.blob h.hops.2.2 h'.hops.2.2 hblob hz
    exact ⟨hblob, hvalue⟩

/-! ### On a small setup -/

open NilStore.Chain in
/-- A codec that knows the point at infinity and the commitment of the sample proof, and has texts
of its own for the other points. -/
def sampleCrates : Crates :=
  { tableCrates [] sampleBlake2s with
    g1FromCompressed := fun b =>
      if b = identityPoint then some 0
      else if b = sampleManifestRoot then some (reduceBytes32ToScalar sampleMduRoot)
      else if b.length = 48 ∧ ofBeBytes b < frModulus then some (ofBeBytes b : Scalar) else none
    g1ToCompressed := fun p =>
      if p = 0 then identityPoint
      else if p = reduceBytes32ToScalar sampleMduRoot then sampleManifestRoot
        else beBytes 48 p.val }

/-- The setup with the secret 1 over it. -/
def sampleContext : KzgContext where
  crates := sampleCrates
  commitEvals := fun evals => evals.headD 0
  g2Points := [1, 1]
  g1Generator := 1

/-- The sample context is a trusted setup for the secret 1. -/
theorem trustedSetup_sampleContext : TrustedSetup sampleContext 1 where
  fromCompressed := by
    intro p
    have hlt : p.val < frModulus := p.val_lt
    have hread : ofBeBytes (beBytes 48 p.val) = p.val := by
      have hmodulus : frModulus < 256 ^ 48 := by decide
      rw [ofBeBytes_beBytes]
      omega
    -- The two listed points do not begin like a scalar.
    have hne : ∀ b, frModulus ≤ ofBeBytes b → beBytes 48 p.val ≠ b := by
      intro b hlarge heq
      rw [← heq, hread] at hlarge
      omega
    have hidentity := hne Chain.identityPoint (by decide)
    have hsample := hne Chain.sampleManifestRoot (by decide)
    have hdistinct : Chain.sampleManifestRoot ≠ Chain.identityPoint := by decide
    -- zero and the sample root have bytes of their own, and every other scalar is written as it is
    by_cases hzero : p = 0
    · simp [sampleContext, sampleCrates, hzero]
    · by_cases hroot : p = reduceBytes32ToScalar Chain.sampleMduRoot
      · have hne0 : reduceBytes32ToScalar Chain.sampleMduRoot ≠ 0 := hroot ▸ hzero
        simp [sampleContext, sampleCrates, hroot, hne0, hdistinct]
      · simp [sampleContext, sampleCrates, hzero, hroot, hidentity, hsample, hread, hlt]
  length_toCompressed := by
    intro p
    by_cases hzero : p = 0
    · simp [sampleContext, sampleCrates, hzero, Chain.identityPoint]
    · by_cases hroot : p = reduceBytes32ToScalar Chain.sampleMduRoot
      · have hne0 : reduceBytes32ToScalar Chain.sampleMduRoot ≠ 0 := hroot ▸ hzero
        simp [sampleContext, sampleCrates, hroot, hne0, Chain.sampleManifestRoot]
      · simp [sampleContext, sampleCrates, hzero, hroot]
  powers := ⟨1, [], by simp [sampleContext]⟩
  commit := by
    intro p _
    have hne : (4096 : Nat) ≠ 0 := by decide
    simp only [sampleContext, List.headD_eq_head?_getD, List.head?_map,
      List.head?_range, if_neg hne, Option.map_some, Option.getD_some, pow_zero, one_mul]

/-- The preimages of the sample tree. -/
def sampleHashed : Set Bytes := {b | b ∈ Chain.sampleBlake2s.entries.map (·.1)}

/-- The openings of the manifest with the sample root, and of the blob of zeros. -/
def sampleOpenings : Set Opening :=
  {o | (o.commitment = Chain.sampleManifestRoot ∧
      ∃ i < 4096, o.point = scalarToBytesBe (omega ^ i) ∧
      o.value = scalarToBytesBe
        ((blobPoly (manifestBlob [Chain.sampleMduRoot])).eval (omega ^ i))) ∨
    (o.commitment = Chain.identityPoint ∧ o.value = Chain.zeroHash)}

/-- The sample openings and hashes meet the binding assumptions. -/
theorem binds_sample : Binds sampleContext 1 sampleOpenings sampleHashed where
  setup := trustedSetup_sampleContext
  openings := by
    have hdistinct : Chain.sampleManifestRoot ≠ Chain.identityPoint := by decide
    rintro o ho o' ho' - - hcommitment hpoint
    -- two openings of the manifest, or of the blob, or one of each
    rcases ho with ⟨hc, i, hi, hx, hy⟩ | ⟨hc, hy⟩ <;>
      rcases ho' with ⟨hc', j, hj, hx', hy'⟩ | ⟨hc', hy'⟩
    · have hpow : omega ^ i = omega ^ j := scalarToBytesBe_inj (hx.symm.trans (hpoint.trans hx'))
      rw [hy, hy', hpow]
    · exact absurd (hc.symm.trans (hcommitment.trans hc')) hdistinct
    · exact absurd (hc'.symm.trans (hcommitment.symm.trans hc)) hdistinct
    · rw [hy, hy']
  hash := by
    -- the hashed bytes are finitely many, so that they do not collide is checked
    have hinj : ∀ b ∈ Chain.sampleBlake2s.entries.map (·.1),
        ∀ b' ∈ Chain.sampleBlake2s.entries.map (·.1),
          Chain.sampleBlake2s.hash b = Chain.sampleBlake2s.hash b' → b = b' := by
      decide +kernel
    exact fun b hb b' hb' => hinj b hb b' hb'
  length_hash := Chain.sampleBlake2s.length_hash
  merkle :=
    { merkleRoot_eq := fun _ => rfl
      merkleVerify_eq := by
        intro path root index leaf numLeaves hindex
        show (if _ then _ else none) = some true ↔ _
        by_cases hpath : PromotedMerkle.pathLength numLeaves index ≤ path.length
        · rw [if_pos ⟨hindex, hpath⟩, Option.some.injEq, beq_iff_eq]
          rfl
        · have hshort :=
            (PromotedMerkle.foldPath_isSome (concatAndHash sampleContext.crates) numLeaves
            index leaf path).not.mpr hpath
          rw [if_neg fun h => hpath h.2]
          constructor
          · intro h
            cases h
          · intro h
            rw [h] at hshort
            exact absurd rfl hshort }

/-- The arguments of the sample proof. -/
def sampleArgs : ChainedProofArgs := (Chain.sampleProof 0).args Chain.sampleManifestRoot 64

/-- Everything the sample proof opens and hashes is among the sample openings and hashes. -/
theorem computable_sampleArgs :
    Computable sampleContext sampleOpenings sampleHashed sampleArgs where
  manifest := by
    left
    refine ⟨rfl, 0, by decide, zForCell_eq (by decide), ?_⟩
    have hcell := eval_blobPoly (length_manifestBlob [Chain.sampleMduRoot]) (i := 0) (by decide)
    rw [hcell, wordAt_manifestBlob _ (by decide)]
    show scalarToBytesBe (reduceBytes32ToScalar Chain.sampleMduRoot) =
      scalarToBytesBe (reduceBytes32ToScalar (rootCell Chain.sampleMduRoot))
    rw [rootCell, reduceBytes32ToScalar_scalarToBytesBe]
  blob := Or.inr ⟨rfl, rfl⟩
  leaf := by
    show Chain.identityPoint ∈ Chain.sampleBlake2s.entries.map (·.1)
    decide +kernel
  nodes := by
    show ∀ e ∈ PromotedMerkle.foldPairs (concatAndHash sampleContext.crates) 64 0
      (sampleContext.crates.blake2s256 Chain.identityPoint) sampleArgs.nodes,
        e.1 ++ e.2 ∈ Chain.sampleBlake2s.entries.map (·.1)
    decide +kernel

/-- The sample proof is accepted against the manifest with the sample root in its first cell, and
presents that root. -/
theorem accepted_binding_sample :
    AcceptedAgainst sampleContext Chain.sampleManifestRoot sampleArgs ∧
    reduceBytes32ToScalar sampleArgs.mduMerkleRoot = reduceBytes32ToScalar Chain.sampleMduRoot := by
  have haccepted : AcceptedAgainst sampleContext Chain.sampleManifestRoot sampleArgs :=
    ⟨by decide +kernel, rfl, by decide⟩
  -- the commitment of the sample manifest, at the secret 1, is its first cell
  have hpoly : commitPoly sampleContext 1 (blobPoly (manifestBlob [Chain.sampleMduRoot])) =
      Chain.sampleManifestRoot := by
    have hroot : (blobPoly (manifestBlob [Chain.sampleMduRoot])).eval 1 =
        reduceBytes32ToScalar Chain.sampleMduRoot := by
      have hcell := eval_blobPoly (length_manifestBlob [Chain.sampleMduRoot]) (i := 0) (by decide)
      rw [wordAt_manifestBlob _ (by decide), pow_zero] at hcell
      exact hcell.trans (reduceBytes32ToScalar_scalarToBytesBe _)
    have hne : reduceBytes32ToScalar Chain.sampleMduRoot ≠ 0 := by decide +kernel
    rw [commitPoly, hroot]
    simp [sampleContext, sampleCrates, hne]
  have hcommit : commitBlob sampleContext (manifestBlob [Chain.sampleMduRoot]) =
      Chain.sampleManifestRoot :=
    (trustedSetup_sampleContext.commitBlob_eq (length_manifestBlob _)).trans hpoly
  have hbinding := accepted_binding sampleContext 1 sampleOpenings sampleHashed binds_sample
    [Chain.sampleMduRoot] Chain.sampleManifestRoot (manifestBlob [Chain.sampleMduRoot])
    (by rw [computeManifestCommitment_ok, hcommit])
    (fun i hi => Or.inl ⟨hpoly, i, hi, rfl, rfl⟩)
  exact ⟨haccepted, (hbinding.1 sampleArgs haccepted computable_sampleArgs).2.1⟩

end NilStore.Core
