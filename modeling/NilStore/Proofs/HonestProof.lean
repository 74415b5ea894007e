import NilStore.Chain.Ledger
import NilStore.Gateway.ProofHelper
import NilStore.Proofs.Openings

/-!
# `NilStore.Proofs.HonestProof`: an honest chained proof verifies

`chainedProof_accepted` puts the three hops together: the manifest holds the root of the MDU modulo
the order, and the opening at its cell gives that value; the gateway's path leads from the blob
commitment to the root of the `rs_merkle` tree; and the blob is opened at the challenge, in the
domain or out of it.
-/

set_option autoImplicit false

namespace NilStore.Gateway

open NilStore.Lib NilStore.Core

section Hops

variable {setup : Setup} {secret : Scalar} {mduRoots commitments : List Bytes} {root : Bytes}

/-- The path that the gateway makes for a leaf is accepted, and its nodes have 32 bytes. The gateway
builds the tree itself, in Go, and the crate verifies the path. -/
theorem merklePath_accepted (hcrate : RsMerkle setup.crates)
    (hhash : ∀ b, (setup.crates.blake2s256 b).length = 32)
    (hroot : createMduMerkleRoot setup.ctx commitments = .ok root) {i : Nat} {c : Bytes}
    (hleaf : commitments[i]? = some c) :
    let leafHashes := commitments.map setup.crates.blake2s256
    let proof := merkleRootAndPath setup.crates.blake2s256 leafHashes i
    proof.1 = root ∧ root.length = 32 ∧ (∀ node ∈ proof.2, node.length = 32) ∧
      setup.crates.merkleVerify proof.2 root i (setup.crates.blake2s256 c) commitments.length =
        some true := by
  intro leafHashes proof
  have hlt : i < leafHashes.length := by
    rw [List.length_map]
    exact (List.getElem?_eq_some_iff.mp hleaf).1
  obtain ⟨hgateway, hpath⟩ := merkleRootAndPath_eq setup.crates.blake2s256 hlt
  have hleaves : ∀ x ∈ leafHashes, x.length = 32 := by
    intro x hx
    obtain ⟨c, -, rfl⟩ := List.mem_map.mp hx
    exact hhash c
  have hnodes : ∀ a b, (pairHash setup.crates.blake2s256 a b).length = 32 := fun a b => hhash _
  -- The two trees combine neighbours in the same way.
  have htree : PromotedMerkle.root (pairHash setup.crates.blake2s256) leafHashes = some root := by
    have hcore := hcrate.merkleRoot_eq leafHashes
    rw [createMduMerkleRoot] at hroot
    change setup.crates.merkleRoot leafHashes = _ at hcore
    cases hmerkle : setup.crates.merkleRoot leafHashes with
    | none =>
        have hnone : setup.ctx.crates.merkleRoot
            (commitments.map setup.ctx.crates.blake2s256) = none := hmerkle
        rw [hnone] at hroot
        cases hroot
    | some r =>
        have hsome : setup.ctx.crates.merkleRoot
            (commitments.map setup.ctx.crates.blake2s256) = some r := hmerkle
        rw [hsome] at hroot
        cases hroot
        rw [hmerkle] at hcore
        exact hcore.symm
  -- the gateway comes to the root of the crate
  have hfirst : proof.1 = root := Option.some.inj (hgateway.symm.trans htree)
  refine ⟨hfirst,
    PromotedMerkle.forall_root (P := fun b : Bytes => b.length = 32) hnodes hleaves htree, ?_, ?_⟩
  · rw [hpath]
    exact PromotedMerkle.forall_honestPath (P := fun b : Bytes => b.length = 32) hnodes hleaves i
  · have hleafHash : leafHashes[i]? = some (setup.crates.blake2s256 c) := by
      rw [List.getElem?_map, hleaf]
      rfl
    obtain ⟨hfold, -⟩ :=
      PromotedMerkle.foldPath_honestPath (pairHash setup.crates.blake2s256) leafHashes hleafHash
    rw [htree, ← hpath, List.length_map] at hfold
    -- a path that folds is long enough for the crate
    have hlong := (PromotedMerkle.foldPath_isSome _ _ _ _ _).mp (Option.isSome_of_mem hfold)
    rw [List.length_map] at hlt
    rw [hcrate.merkleVerify_eq _ _ _ _ _ hlt hlong]
    have hfold' : PromotedMerkle.foldPath (concatAndHash setup.crates) commitments.length i
        (setup.crates.blake2s256 c) proof.2 = some root := hfold
    rw [hfold', beq_self_eq_true]

/-- The opening of a cell shows the root in it: the manifest is a blob of roots, and a root is the
value of its polynomial at the point of its index. -/
theorem manifestOpening_accepted (hsetup : ConsistentSetup setup secret) {mduIndex : Nat}
    (hin : mduRoots[mduIndex]? = some root) (hindex : mduIndex < 4096)
    (hlength : root.length = 32) :
    ∃ proof y, setup.computeProof (manifestBlob mduRoots) (zForCell mduIndex) = .ok (proof, y) ∧
      verifyManifestInclusion setup.ctx (commitBlob setup.ctx (manifestBlob mduRoots)) root mduIndex
        proof = .ok true := by
  have hz : parseScalar (zForCell mduIndex) = .ok (omega ^ mduIndex) :=
    parseScalar_zForCell (hindex.trans (by norm_num))
  obtain ⟨q, hproof, hq⟩ := hsetup.computeProof_ok (length_manifestBlob mduRoots) hz
  refine ⟨_, _, hproof, ?_⟩
  have hopens := hsetup.trustedSetup.verifyProof_opening hz hq
  have hcell : wordAt 32 mduIndex (manifestBlob mduRoots) = rootCell root := by
    rw [wordAt_manifestBlob _ hindex, hin]
    rfl
  -- the value there is the root, reduced as the verifier reduces it
  have hvalue := eval_blobPoly (length_manifestBlob mduRoots) hindex
  rw [hcell, rootCell, reduceBytes32ToScalar_scalarToBytesBe] at hvalue
  have hcommit := hsetup.trustedSetup.commitBlob_eq (length_manifestBlob mduRoots)
  rw [hvalue, ← hcommit] at hopens
  have hchecks : ¬(root.length ≠ 32 ∨
      (setup.crates.g1ToCompressed (setup.g1Generator * q)).length ≠ 48) := by
    rw [hlength, hsetup.length_toCompressed]
    simp
  rw [verifyManifestInclusion, if_neg (Nat.not_le.mpr hindex), if_neg hchecks]
  exact hopens

end Hops

/-- The proof that the gateway assembles for a blob of an MDU in the manifest is accepted, for every
blob, every leaf that holds its commitment and every canonical challenge. Each of the three hops is
accepted by itself. -/
theorem chainedProof_accepted {setup : Setup} {secret : Scalar}
    (hsetup : ConsistentSetup setup secret) (hcrate : RsMerkle setup.crates)
    (hhash : ∀ b, (setup.crates.blake2s256 b).length = 32)
    {mduRoots commitments : List Bytes} {root blob c z : Bytes}
    {mduIndex leafIndex leafCount : UInt64}
    (hroots : mduRoots.length ≤ 4096) (hin : mduRoots[mduIndex.toNat]? = some root)
    (hroot : createMduMerkleRoot setup.ctx commitments = .ok root)
    (hcount : commitments.length = leafCount.toNat) (hblob : blob.length = blobSize)
    (hcommit : blobToCommitment setup.ctx blob = .ok c)
    (hleaf : commitments[leafIndex.toNat]? = some c) (hlength : z.length = 32)
    (hcanonical : ofBeBytes z < frModulus) :
    ∃ proof, chainedProof setup mduRoots mduIndex commitments leafIndex leafCount blob z =
      .ok proof ∧
      nilVerifyChainedProof (some setup.ctx) proof = some 1 := by
  have htrusted := hsetup.trustedSetup
  have hindex : mduIndex.toNat < 4096 := (List.getElem?_eq_some_iff.mp hin).1.trans_le hroots
  have hz : parseScalar z = .ok (ofBeBytes z : Scalar) := by
    rw [parseScalar, if_neg (not_not.mpr hlength), if_pos hcanonical]
  -- the second hop: the leaf is in the tree of its MDU
  obtain ⟨hpathRoot, hrootLength, hnodes, hmerkle⟩ :=
    merklePath_accepted hcrate hhash hroot hleaf
  -- the first hop: the root of the MDU is in the manifest
  obtain ⟨manifestProof, y, hmanifest, hhop1⟩ :=
    manifestOpening_accepted hsetup hin hindex hrootLength
  -- the third hop: the blob has the value at the challenge
  obtain ⟨q, hproof, hq⟩ := hsetup.computeProof_ok hblob hz
  have hc : c = setup.crates.g1ToCompressed (setup.g1Generator * (blobPoly blob).eval secret) := by
    have hcommitBlob := htrusted.commitBlob_eq hblob
    have hmade : blobToCommitment setup.ctx blob = .ok (commitBlob setup.ctx blob) := by
      rw [blobToCommitment, if_neg (not_not.mpr hblob), commitBlob]
      split <;> rfl
    rw [hmade] at hcommit
    exact (Except.ok.inj hcommit).symm.trans hcommitBlob
  have hhop3 := htrusted.verifyProof_opening hz hq
  refine ⟨_, except_bind_ok.mpr ⟨_, computeManifestCommitment_ok setup.ctx mduRoots,
    except_bind_ok.mpr ⟨_, hproof, except_bind_ok.mpr ⟨_, hmanifest, rfl⟩⟩⟩, ?_⟩
  refine nilVerifyChainedProof_eq_one.mpr ⟨setup.ctx, rfl, ?_, ?_, ?_⟩
  · show verifyManifestInclusion setup.ctx _ (merkleRootAndPath setup.crates.blake2s256
      (commitments.map setup.crates.blake2s256) leafIndex.toNat).1 mduIndex.toNat manifestProof = _
    rw [hpathRoot]
    exact hhop1
  · rw [ChainedProofArgs.hop2_eq]
    · show (setup.crates.merkleVerify
        (((merkleRootAndPath setup.crates.blake2s256 (commitments.map setup.crates.blake2s256)
          leafIndex.toNat).2.flatten.toChunks 32).filter (·.length = 32))
        (merkleRootAndPath setup.crates.blake2s256 (commitments.map setup.crates.blake2s256)
          leafIndex.toNat).1 leafIndex.toNat
        (setup.crates.blake2s256 (commitments.getD leafIndex.toNat [])) leafCount.toNat).map
          Except.ok = _
      rw [nodes_of_flatten hnodes, hpathRoot, List.getD_eq_getElem?_getD, hleaf, Option.getD_some,
        ← hcount, hmerkle]
      rfl
    · show (merkleRootAndPath setup.crates.blake2s256
        (commitments.map setup.crates.blake2s256) leafIndex.toNat).1.length = 32
      rw [hpathRoot, hrootLength]
    · show (commitments.getD leafIndex.toNat []).length = 48
      rw [List.getD_eq_getElem?_getD, hleaf, Option.getD_some, hc, hsetup.length_toCompressed]
  · show verifyProof setup.ctx (commitments.getD leafIndex.toNat []) z _ _ = _
    rw [List.getD_eq_getElem?_getD, hleaf, Option.getD_some, hc]
    exact hhop3

/-! ### On a small setup -/

/-- Crates that know some points, and have texts of their own for the other ones. -/
def listedCrates (points : List (Bytes × Scalar)) (blake2s : Chain.HashTable) : Crates :=
  { Chain.tableCrates [] blake2s with
    g1FromCompressed := fun b =>
      match points.find? fun e => e.1 = b with
      | some e => some e.2
      | none =>
          if b.length = 48 ∧ ofBeBytes b < frModulus then some (ofBeBytes b : Scalar) else none
    g1ToCompressed := fun p =>
      match points.find? fun e => e.2 = p with
      | some e => e.1
      | none => beBytes 48 p.val }

section Listed

variable {points : List (Bytes × Scalar)} {blake2s : Chain.HashTable}

/-- A listed point survives being compressed and read again, and every other point is told apart by
its size: its bytes are those of the number itself, which is below the modulus. -/
theorem listedCrates_fromCompressed (hlarge : ∀ e ∈ points, frModulus ≤ ofBeBytes e.1)
    (hnodup : (points.map (·.1)).Nodup) (p : Scalar) :
    (listedCrates points blake2s).g1FromCompressed
      ((listedCrates points blake2s).g1ToCompressed p) = some p := by
  -- the point is listed, or not
  cases hfind : points.find? fun e => e.2 = p with
  | some e =>
      have hmem := List.mem_of_find?_eq_some hfind
      have hp : e.2 = p := by simpa using List.find?_some hfind
      have hback : (points.find? fun e' => e'.1 = e.1) = some e := by
        have hsome : (points.find? fun e' => e'.1 = e.1).isSome :=
          List.find?_isSome.mpr ⟨e, hmem, by simp⟩
        obtain ⟨e', hfind'⟩ := Option.isSome_iff_exists.mp hsome
        have hsame : e'.1 = e.1 := by simpa using List.find?_some hfind'
        rw [hfind', List.inj_on_of_nodup_map hnodup (List.mem_of_find?_eq_some hfind') hmem hsame]
      simp only [listedCrates, hfind, hback, hp]
  | none =>
      have hlt : p.val < frModulus := p.val_lt
      have hread : ofBeBytes (beBytes 48 p.val) = p.val := by
        have hmodulus : frModulus < 256 ^ 48 := by decide
        rw [ofBeBytes_beBytes]
        omega
      have hback : (points.find? fun e => e.1 = beBytes 48 p.val) = none := by
        refine List.find?_eq_none.mpr fun e he => ?_
        have hle := hlarge e he
        intro heq
        rw [decide_eq_true_eq] at heq
        rw [heq, hread] at hle
        omega
      simp [listedCrates, hfind, hback, hread, hlt]

/-- Every compressed point has 48 bytes. -/
theorem listedCrates_toCompressed (hlengths : ∀ e ∈ points, e.1.length = 48) (p : Scalar) :
    ((listedCrates points blake2s).g1ToCompressed p).length = 48 := by
  cases hfind : points.find? fun e => e.2 = p with
  | some e =>
      simp only [listedCrates, hfind]
      exact hlengths e (List.mem_of_find?_eq_some hfind)
  | none => simp only [listedCrates, hfind, length_beBytes]

/-- The sample crates meet what is asked of `rs_merkle`. -/
theorem listedCrates_rsMerkle : RsMerkle (listedCrates points blake2s) where
  merkleRoot_eq := fun _ => rfl
  merkleVerify_eq := fun _ _ _ _ _ hindex hpath => if_pos ⟨hindex, hpath⟩

end Listed

/-- The leaf of a blob of zeros. -/
def zeroLeaf : Bytes := Chain.sampleNodes.headD []

/-- The root over two such leaves. -/
def twoLeafRoot : Bytes :=
  [0xc9, 0xa1, 0x2b, 0x64, 0x46, 0xa3, 0x5a, 0x1f, 0xf5, 0xe0, 0x03, 0x35, 0xb7, 0x86, 0xf5, 0xfb,
    0x3d, 0x52, 0x7a, 0x52, 0x03, 0xb1, 0x56, 0x88, 0xbf, 0x53, 0xca, 0xbc, 0x57, 0x66, 0xf5, 0x4a]

/-- The digests of the sample tree of two leaves. -/
def twoLeafBlake2s : Chain.HashTable where
  entries := [(Chain.identityPoint, zeroLeaf), (zeroLeaf ++ zeroLeaf, twoLeafRoot)]
  lengths := by decide +kernel

/-- The commitment to the manifest with this root at index 0. -/
def twoLeafManifest : Bytes :=
  [0xb5, 0x0a, 0xad, 0x02, 0x08, 0x66, 0x7a, 0x9a, 0x7d, 0xe5, 0x47, 0x13, 0xb8, 0x81, 0xf4, 0x78,
    0x32, 0xd6, 0xa4, 0x2b, 0xfd, 0xcb, 0xf4, 0x43, 0xcb, 0xb4, 0xcf, 0x23, 0xd1, 0xd7, 0xf5, 0x0c,
    0xe8, 0x5b, 0x3e, 0xe5, 0x84, 0xa9, 0x84, 0x3e, 0x1e, 0x46, 0x83, 0xb6, 0xdc, 0x3f, 0xdb, 0xb7]

/-- The opening of its first cell. At the secret 1, which is that cell's point, the quotient is the
derivative of the polynomial. -/
def twoLeafOpening : Bytes :=
  [0xa2, 0xa4, 0x4f, 0x44, 0x5b, 0xca, 0x7f, 0x7c, 0x76, 0x5c, 0x6d, 0x30, 0x26, 0x4a, 0x89, 0x85,
    0x97, 0x32, 0x78, 0xa4, 0xe6, 0x91, 0xaa, 0x91, 0x08, 0x57, 0xc7, 0xe3, 0x50, 0xa0, 0xd0, 0x75,
    0xe8, 0x66, 0x36, 0xbc, 0xcc, 0xf7, 0x0a, 0x61, 0xdf, 0xf4, 0xda, 0x42, 0xdf, 0x1e, 0xc3, 0x9b]

/-- The powers of the secret 1. -/
def onesSetup : Setup where
  crates := listedCrates
    [(Chain.identityPoint, 0), (twoLeafManifest, reduceBytes32ToScalar twoLeafRoot),
      (twoLeafOpening, reduceBytes32ToScalar twoLeafRoot * 4095 * 2⁻¹)] twoLeafBlake2s
  g1Points := List.replicate 4096 1
  g2Points := [1, 1]

/-- The sample setup is consistent for the secret 1: every power is the generator. -/
theorem consistentSetup_onesSetup : ConsistentSetup onesSetup 1 where
  fromCompressed := by
    refine listedCrates_fromCompressed ?_ ?_
    · intro e he
      simp only [List.mem_cons, List.not_mem_nil, or_false] at he
      rcases he with rfl | rfl | rfl <;> decide
    · show [Chain.identityPoint, twoLeafManifest, twoLeafOpening].Nodup
      decide
  length_toCompressed := by
    refine listedCrates_toCompressed ?_
    intro e he
    simp only [List.mem_cons, List.not_mem_nil, or_false] at he
    rcases he with rfl | rfl | rfl <;> decide
  powers := ⟨1, [], rfl⟩
  points := by
    -- the points of the setup are all equal
    have hpoint : ∀ i < 4096, onesSetup.g1Points.getD i 0 = 1 := by
      intro i hi
      show (List.replicate 4096 (1 : Scalar)).getD i 0 = 1
      rw [List.getD_eq_getElem?_getD, List.getElem?_replicate, if_pos hi]
      rfl
    -- so they are taken for powers
    have hflag : onesSetup.g1PointsAreMonomial = true := by
      rw [Setup.g1PointsAreMonomial, hpoint 0 (by decide), hpoint 1 (by decide)]
      rfl
    have hlength : onesSetup.g1Points.length = 4096 := List.length_replicate
    refine ⟨1, ?_⟩
    rw [hflag, if_pos rfl]
    refine ⟨hlength.ge, fun i hi => ?_⟩
    rw [hlength] at hi
    rw [hpoint i hi, one_pow, mul_one]

/-- The root of the sample tree. -/
theorem createMduMerkleRoot_twoLeaves :
    createMduMerkleRoot onesSetup.ctx [Chain.identityPoint, Chain.identityPoint] =
      .ok twoLeafRoot := by
  have hleaf : twoLeafBlake2s.hash Chain.identityPoint = zeroLeaf := rfl
  have hnode : twoLeafBlake2s.hash (zeroLeaf ++ zeroLeaf) = twoLeafRoot := by decide +kernel
  have hroot : PromotedMerkle.root (fun left right => twoLeafBlake2s.hash (left ++ right))
      [zeroLeaf, zeroLeaf] = some twoLeafRoot := by
    rw [PromotedMerkle.root, if_neg (by decide), PromotedMerkle.layerUp, PromotedMerkle.layerUp,
      PromotedMerkle.root, if_pos (by decide), hnode]
    rfl
  have hleaves : onesSetup.ctx.crates.merkleRoot
      ([Chain.identityPoint, Chain.identityPoint].map onesSetup.ctx.crates.blake2s256) =
        some twoLeafRoot := by
    show PromotedMerkle.root (fun left right => twoLeafBlake2s.hash (left ++ right))
      [twoLeafBlake2s.hash Chain.identityPoint, twoLeafBlake2s.hash Chain.identityPoint] = _
    rw [hleaf, hroot]
  rw [createMduMerkleRoot, hleaves]

/-- A blob of zeros at the second of two leaves, challenged at 0. -/
theorem chainedProof_accepted_twoLeaves :
    ∃ proof, chainedProof onesSetup [twoLeafRoot] 0 [Chain.identityPoint, Chain.identityPoint] 1 2
        (List.replicate blobSize 0) Chain.zeroHash = .ok proof ∧
      nilVerifyChainedProof (some onesSetup.ctx) proof = some 1 := by
  have hcommit : blobToCommitment onesSetup.ctx (List.replicate blobSize 0) =
      .ok Chain.identityPoint := by
    rw [blobToCommitment, if_neg (not_not.mpr List.length_replicate), if_pos (by simp)]
    rfl
  exact chainedProof_accepted consistentSetup_onesSetup listedCrates_rsMerkle
    twoLeafBlake2s.length_hash (by decide) rfl createMduMerkleRoot_twoLeaves rfl
    List.length_replicate hcommit rfl rfl (by decide)

end NilStore.Gateway
