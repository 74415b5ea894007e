import NilStore.Chain.Ledger
import NilStore.Gateway.CryptoFfi

/-!
# `NilStore.Proofs.ManifestCells`: which roots a manifest commits to

A slab puts the roots of its MDUs into one manifest: MDU #0, then the witness MDUs, then the user
MDUs. The root table has room for 65536 of them, the manifest for 4096, and building it drops the
rest without an error. `commitsToEveryRoot_iff` says that this is the only way in which a root is
lost: a manifest that can be built commits to all of its roots exactly when there are at most 4096.
-/

set_option autoImplicit false

namespace NilStore.Gateway

open NilStore.Lib NilStore.Core

/-- The root stands in its cell of the manifest, and there is a proof for it that the verifier
accepts. -/
structure Represented (ctx : KzgContext) (commitment manifestBlob : Bytes) (i : Nat)
    (root : Bytes) : Prop where
  cell : i < 4096 ∧ wordAt 32 i manifestBlob = rootCell root
  opens : ∃ proof, verifyManifestInclusion ctx commitment root i proof = .ok true

/-- Two lists of roots differ modulo the order at some position. -/
def DifferAtSome (mduRoots mduRoots' : List Bytes) : Prop :=
  ∃ (i : Nat) (root root' : Bytes), mduRoots[i]? = some root ∧ mduRoots'[i]? = some root' ∧
    reduceBytes32ToScalar root ≠ reduceBytes32ToScalar root'

/-- If a manifest is built of the roots, it represents each of them, and the manifest of a list that
differs at some position is another one. -/
def CommitsToEveryRoot (kzgCtx : Option KzgContext) (mduRoots : List Bytes) : Prop :=
  ∀ commitment manifestBlob,
    cryptoFfiComputeManifestCommitment kzgCtx mduRoots = .ok (commitment, manifestBlob) →
    (∀ i root, mduRoots[i]? = some root →
      ∃ ctx, kzgCtx = some ctx ∧ Represented ctx commitment manifestBlob i root) ∧
    ∀ mduRoots' commitment' manifestBlob',
      cryptoFfiComputeManifestCommitment kzgCtx mduRoots' = .ok (commitment', manifestBlob') →
      DifferAtSome mduRoots mduRoots' → manifestBlob' ≠ manifestBlob

section Cells

variable {ctx : KzgContext} {secret : Scalar} {mduRoots : List Bytes} {i : Nat} {root : Bytes}

/-- The cell of a root that the manifest has room for. -/
theorem wordAt_root (h : i < 4096) (hroot : mduRoots[i]? = some root) :
    wordAt 32 i (manifestBlob mduRoots) = rootCell root := by
  rw [wordAt_manifestBlob mduRoots h, hroot]
  rfl

/-- A root in its cell can be proved. -/
theorem represented_of_lt (hsetup : TrustedSetup ctx secret) (h : i < 4096)
    (hroot : mduRoots[i]? = some root) (hlength : root.length = 32) :
    Represented ctx (commitBlob ctx (manifestBlob mduRoots)) (manifestBlob mduRoots) i root := by
  have hcell := wordAt_root h hroot
  obtain ⟨proof, hproof, hopens⟩ := hsetup.exists_opening (length_manifestBlob mduRoots) h
  rw [hcell, rootCell, reduceBytes32ToScalar_scalarToBytesBe] at hopens
  have hchecks : ¬(root.length ≠ 32 ∨ proof.length ≠ 48) := by
    rw [hlength, hproof]
    simp
  refine ⟨⟨h, hcell⟩, proof, ?_⟩
  rw [verifyManifestInclusion, if_neg (by omega), if_neg hchecks]
  exact hopens

/-- Two lists that differ where one of them has room have different manifests. -/
theorem manifestBlob_ne {mduRoots' : List Bytes} (hle : mduRoots.length ≤ 4096)
    (h : DifferAtSome mduRoots mduRoots') : manifestBlob mduRoots' ≠ manifestBlob mduRoots := by
  obtain ⟨i, root, root', hroot, hroot', hne⟩ := h
  have hlt := (List.getElem?_eq_some_iff.mp hroot).1
  intro heq
  have hcell := congrArg (wordAt 32 i) heq
  rw [wordAt_root (by omega) hroot', wordAt_root (by omega) hroot] at hcell
  exact hne (scalarToBytesBe_inj hcell).symm

/-- The root at position 4096 has no cell. -/
theorem not_commitsToEveryRoot (hlengths : ∀ root ∈ mduRoots, root.length = 32)
    (hlong : 4096 < mduRoots.length) : ¬CommitsToEveryRoot (some ctx) mduRoots := by
  intro h
  have hne : mduRoots ≠ [] := by
    rintro rfl
    simp at hlong
  obtain ⟨hrepresents, -⟩ := h _ _
    (cryptoFfiComputeManifestCommitment_ok.mpr ⟨hne, hlengths, ctx, rfl, rfl⟩)
  obtain ⟨_, -, hrepresented⟩ := hrepresents 4096 _ (List.getElem?_eq_getElem hlong)
  exact absurd hrepresented.cell.1 (by decide)

end Cells

/-- A manifest commits to every root exactly when it cannot be built (the setup is not loaded, or a
root is not 32 bytes long) or there are at most 4096 roots. A blob has 4096 cells, and the loop
ignores the roots behind them. -/
theorem commitsToEveryRoot_iff (kzgCtx : Option KzgContext) (mduRoots : List Bytes)
    (hsetup : ∀ ctx, kzgCtx = some ctx → ∃ secret, TrustedSetup ctx secret) :
    CommitsToEveryRoot kzgCtx mduRoots ↔
      kzgCtx = none ∨ (∃ root ∈ mduRoots, root.length ≠ 32) ∨ mduRoots.length ≤ 4096 := by
  constructor
  -- otherwise it is built, and a root has no cell
  · intro h
    by_contra hnot
    simp only [not_or, not_exists, not_and, not_not, Nat.not_le] at hnot
    obtain ⟨hloaded, hlengths, hlong⟩ := hnot
    obtain ⟨ctx, rfl⟩ := Option.ne_none_iff_exists'.mp hloaded
    exact not_commitsToEveryRoot hlengths hlong h
  · intro h commitment blob hok
    obtain ⟨-, hlengths, ctx, hctx, hresult⟩ := cryptoFfiComputeManifestCommitment_ok.mp hok
    cases hresult
    have hle : mduRoots.length ≤ 4096 := by
      rcases h with hnone | ⟨root, hmem, hbad⟩ | hle
      · rw [hctx] at hnone
        cases hnone
      · exact absurd (hlengths root hmem) hbad
      · exact hle
    obtain ⟨secret, htrusted⟩ := hsetup ctx hctx
    -- each root is in its cell, and different roots give different manifests
    constructor
    · intro i root hroot
      obtain ⟨hlt, -⟩ := List.getElem?_eq_some_iff.mp hroot
      exact ⟨ctx, hctx, represented_of_lt htrusted (by omega) hroot
        (hlengths root (List.mem_of_getElem? hroot))⟩
    · intro mduRoots' commitment' blob' hok' hdiffer
      obtain ⟨-, -, ctx', hctx', hresult'⟩ := cryptoFfiComputeManifestCommitment_ok.mp hok'
      cases hresult'
      exact manifestBlob_ne hle hdiffer

/-! ### On a small setup -/

/-- A codec that knows the point at infinity, and has texts of its own for the other points. -/
def identityCrates : Crates :=
  { Chain.tableCrates [] Chain.noKeccak with
    g1FromCompressed := fun b =>
      if b = Chain.identityPoint then some 0
      else if b.length = 48 ∧ ofBeBytes b < frModulus then some (ofBeBytes b : Scalar) else none
    g1ToCompressed := fun p => if p = 0 then Chain.identityPoint else beBytes 48 p.val }

/-- A setup with the secret 1: the value of a polynomial at 1 is the first of its evaluations. -/
def identitySetup : KzgContext where
  crates := identityCrates
  commitEvals := fun evals => evals.headD 0
  g2Points := [1, 1]
  g1Generator := 1

/-- The identity setup is a trusted setup for the secret 1: its points are scalars, and its
compression is their number, or the fixed encoding of the identity. -/
theorem trustedSetup_identitySetup : TrustedSetup identitySetup 1 where
  fromCompressed := by
    intro p
    by_cases hp : p = 0
    · subst hp
      simp [identitySetup, identityCrates]
    -- the encoding of the identity is too large to be a scalar
    · have hlt : p.val < frModulus := p.val_lt
      have hread : ofBeBytes (beBytes 48 p.val) = p.val := by
        have hmodulus : frModulus < 256 ^ 48 := by decide
        rw [ofBeBytes_beBytes]
        omega
      have hne : beBytes 48 p.val ≠ Chain.identityPoint := by
        intro heq
        have hbad := congrArg ofBeBytes heq
        rw [hread] at hbad
        have hlarge : frModulus ≤ ofBeBytes Chain.identityPoint := by decide
        omega
      simp [identitySetup, identityCrates, hp, hne, hread, hlt]
  length_toCompressed := by
    intro p
    by_cases hp : p = 0
    · simp [identitySetup, identityCrates, hp, Chain.identityPoint]
    · simp [identitySetup, identityCrates, hp]
  powers := ⟨1, [], by simp [identitySetup]⟩
  commit := by
    intro p _
    have hne : (4096 : Nat) ≠ 0 := by decide
    simp only [identitySetup, List.headD_eq_head?_getD, List.head?_map,
      List.head?_range, if_neg hne, Option.map_some, Option.getD_some, pow_zero, one_mul]

/-- A manifest of 4096 different roots commits to each of them. -/
theorem commitsToEveryRoot_iff_identitySetup :
    CommitsToEveryRoot (some identitySetup) ((List.range 4096).map (beBytes 32)) :=
  (commitsToEveryRoot_iff (some identitySetup) _ fun ctx h => by
    cases h
    exact ⟨1, trustedSetup_identitySetup⟩).mpr
      (Or.inr (Or.inr (by rw [List.length_map, List.length_range])))

/-- The slab with MDU #0 and 4096 more MDUs has a manifest, and its last root is not in it. -/
theorem commitsToEveryRoot_4097 :
    ¬CommitsToEveryRoot (some identitySetup) (List.replicate 4097 Chain.zeroHash) := by
  refine not_commitsToEveryRoot (fun root hroot => ?_) (by rw [List.length_replicate]; decide)
  rw [List.eq_of_mem_replicate hroot]
  rfl

end NilStore.Gateway
