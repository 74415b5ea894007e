import NilStore.Lib.Chunks
import NilStore.Proofs.LivenessRewards

/-!
# `NilStore.Proofs.NoAbort`: when the call of the Rust verifier returns

`rs_merkle` checks a path when the index of the leaf is in range and the path has a node for each
layer that calls for one. Otherwise it may panic, and a panic that reaches the `extern "C"` boundary
aborts the process. The three closures `verifyChainedProof` check lengths; none of them checks how
many nodes a path has, and only the one of `ProveLiveness` checks the index. `call_returns_iff` says
which calls return a result whatever the crate does where it promises nothing: those that do not get
to the path because the first hop fails, and those whose index and path are as the crate wants them.
-/

set_option autoImplicit false

namespace NilStore.Core

open NilStore.Lib

/-- A check of Merkle paths, in the place of `MerkleProof::verify`. -/
abbrev PathCheck := List Bytes → Bytes → Nat → Bytes → Nat → Option Bool

/-- The check does what `rs_merkle` promises. -/
def PathCheck.Promised (check : PathCheck) (crates : Crates) : Prop :=
  ∀ path root index leaf numLeaves, index < numLeaves →
    PromotedMerkle.pathLength numLeaves index ≤ path.length →
    check path root index leaf numLeaves =
      some (PromotedMerkle.foldPath (concatAndHash crates) numLeaves index leaf path == some root)

/-- The setup, with another check of Merkle paths. -/
def KzgContext.withPathCheck (ctx : KzgContext) (check : PathCheck) : KzgContext :=
  { ctx with crates := { ctx.crates with merkleVerify := check } }

/-- The check that panics wherever it may. -/
def strictPathCheck (crates : Crates) : PathCheck := fun path root index leaf numLeaves =>
  if index < numLeaves ∧ PromotedMerkle.pathLength numLeaves index ≤ path.length then
    some (PromotedMerkle.foldPath (concatAndHash crates) numLeaves index leaf path == some root)
  else none

/-- The strict check answers wherever the crate promises an answer. -/
theorem strictPathCheck_promised (crates : Crates) : (strictPathCheck crates).Promised crates :=
  fun _ _ _ _ _ hindex hpath => if_pos ⟨hindex, hpath⟩

/-- The second hop, for a root and a commitment of the right lengths, is the check of the path. -/
theorem hop2_withPathCheck (ctx : KzgContext) (check : PathCheck) {a : ChainedProofArgs}
    (hroot : a.mduMerkleRoot.length = 32) (hcommitment : a.blobCommitment.length = 48) :
    a.hop2 (ctx.withPathCheck check) =
      (check a.nodes a.mduMerkleRoot a.blobIndex.toNat (ctx.crates.blake2s256 a.blobCommitment)
        a.leafCount.toNat).map .ok :=
  a.hop2_eq (ctx.withPathCheck check) hroot hcommitment

end NilStore.Core

namespace NilStore.Chain

open NilStore.Lib NilStore.Core

/-- The verification ends with a verdict or an error. -/
def VerifyResult.Returns (r : VerifyResult) : Prop := r ≠ .aborted ∧ ∀ text, r ≠ .panicked text

/-- The call of a closure returns, whatever check of paths the setup comes with that does what is
promised. -/
def AlwaysReturns (kzgCtx : Option KzgContext) (call : Option KzgContext → VerifyResult) : Prop :=
  ∀ check : PathCheck, (∀ ctx, kzgCtx = some ctx → check.Promised ctx.crates) →
    (call (kzgCtx.map fun ctx => ctx.withPathCheck check)).Returns

/-- The proof passes the checks of a closure. -/
def PassesChecks (guard : ChainedProof → Bool) (manifestRoot : Bytes) (p : ChainedProof) : Prop :=
  p.lengthsOk ∧ manifestRoot.length = 48 ∧ guard p ∧ p.merklePath.all (·.length = 32)

/-- The index of the leaf is in range, and the path has a node for each layer that calls for one. -/
def PathInShape (leafCount : UInt64) (p : ChainedProof) : Prop :=
  p.blobIndex.toNat < leafCount.toNat ∧
    PromotedMerkle.pathLength leafCount.toNat p.blobIndex.toNat ≤ p.merklePath.length

/-- If a proof passes the checks and the first hop, its path is in shape. -/
def SafeCall (kzgCtx : Option KzgContext) (guard : ChainedProof → Bool) (manifestRoot : Bytes)
    (leafCount : UInt64) (p : ChainedProof) : Prop :=
  ∀ ctx, kzgCtx = some ctx → PassesChecks guard manifestRoot p →
    verifyManifestInclusion ctx manifestRoot p.mduRootFr p.mduIndex.toNat p.manifestOpening =
      .ok true →
    PathInShape leafCount p

section Call

variable {guard : ChainedProof → Bool} {manifestRoot : Bytes} {leafCount : UInt64}
    {p : ChainedProof}

/-- A proof with 32-byte nodes comes to the verifier node by node. -/
theorem nodes_args (h : p.merklePath.all (·.length = 32)) :
    (p.args manifestRoot leafCount).nodes = p.merklePath := by
  have hnodes : ∀ node ∈ p.merklePath, node.length = 32 := by
    intro node hnode
    simpa using List.all_eq_true.mp h node hnode
  exact nodes_of_flatten hnodes

/-- A proof that fails a check of the closure is not passed on. -/
theorem guardedVerify_rejects (kzgCtx : Option KzgContext)
    (h : ¬PassesChecks guard manifestRoot p) :
    guardedVerify kzgCtx guard manifestRoot leafCount p = .verdict false := by
  rw [guardedVerify]
  by_cases hlengths : p.lengthsOk
  · rw [if_neg (not_not.mpr hlengths)]
    by_cases hroot : manifestRoot.length = 48
    · rw [if_neg (not_not.mpr hroot)]
      by_cases hguard : guard p
      · rw [if_neg (not_not.mpr hguard), if_pos fun hnodes => h ⟨hlengths, hroot, hguard, hnodes⟩]
      · rw [if_pos hguard]
    · rw [if_pos hroot]
  · rw [if_pos hlengths]

/-- A proof that passes them is. No slice is empty that the binding takes an address in, and no
length is wrong, so the binding calls the library, and its result is mapped. -/
theorem guardedVerify_calls (kzgCtx : Option KzgContext) (h : PassesChecks guard manifestRoot p) :
    guardedVerify kzgCtx guard manifestRoot leafCount p =
      match nilVerifyChainedProof kzgCtx (p.args manifestRoot leafCount) with
      | none => .aborted
      | some res =>
          if res = 1 then .verdict true
          else if res = 0 then .verdict false
          else .failed ("nil_verify_chained_proof failed with code: " ++ toString res) := by
  obtain ⟨hlengths, hroot, hguard, hnodes⟩ := h
  rw [guardedVerify, if_neg (not_not.mpr hlengths), if_neg (not_not.mpr hroot),
    if_neg (not_not.mpr hguard), if_neg (not_not.mpr hnodes)]
  simp only [ChainedProof.lengthsOk, Bool.and_eq_true, beq_iff_eq, bne_iff_ne] at hlengths
  obtain ⟨⟨⟨⟨⟨⟨hopening, hmdu⟩, hblob⟩, hpath⟩, hz⟩, hy⟩, hproof⟩ := hlengths
  have hpath : p.merklePath.flatten ≠ [] := by
    intro hnil
    have hnodes' : ∀ node ∈ p.merklePath, node.length = 32 := by
      intro node hnode
      simpa using List.all_eq_true.mp hnodes node hnode
    have hlength := length_flatten_words hnodes'
    rw [hnil, List.length_nil] at hlength
    omega
  -- the address of the first byte of each slice exists
  rw [cryptoFfiVerifyChainedProof]
  cases nilVerifyChainedProof kzgCtx (p.args manifestRoot leafCount) with
  | none => simp [ChainedProof.args, hroot, hopening, hmdu, hblob, hz, hy, hproof, hpath]
  | some res => simp [ChainedProof.args, hroot, hopening, hmdu, hblob, hz, hy, hproof, hpath]

/-- When the call of the verifier aborts. -/
theorem guardedVerify_aborts {kzgCtx : Option KzgContext} (h : PassesChecks guard manifestRoot p) :
    guardedVerify kzgCtx guard manifestRoot leafCount p = .aborted ↔
      nilVerifyChainedProof kzgCtx (p.args manifestRoot leafCount) = none := by
  rw [guardedVerify_calls kzgCtx h]
  cases nilVerifyChainedProof kzgCtx (p.args manifestRoot leafCount) with
  | none => simp
  | some res =>
      simp only [reduceCtorEq, iff_false]
      split
      · exact VerifyResult.noConfusion
      · split <;> exact VerifyResult.noConfusion

/-- The call never panics on the Go side. -/
theorem guardedVerify_ne_panicked (kzgCtx : Option KzgContext) (text : String) :
    guardedVerify kzgCtx guard manifestRoot leafCount p ≠ .panicked text := by
  by_cases h : PassesChecks guard manifestRoot p
  · rw [guardedVerify_calls kzgCtx h]
    cases nilVerifyChainedProof kzgCtx (p.args manifestRoot leafCount) with
    | none => exact VerifyResult.noConfusion
    | some res =>
        show (if res = 1 then _ else _) ≠ _
        split
        · exact VerifyResult.noConfusion
        · split <;> exact VerifyResult.noConfusion
  · rw [guardedVerify_rejects kzgCtx h]
    exact VerifyResult.noConfusion

/-- What the closures share: the call returns exactly when it is safe. The check of the path may
panic on an index or a path of the wrong shape, and nothing before it excludes these. -/
theorem guardedVerify_returns_iff (kzgCtx : Option KzgContext) :
    AlwaysReturns kzgCtx (fun k => guardedVerify k guard manifestRoot leafCount p) ↔
      SafeCall kzgCtx guard manifestRoot leafCount p := by
  constructor
  -- an unsafe call is one that some check of the path panics on
  · intro hreturns ctx hctx hpass hhop1
    by_contra hshape
    -- The check that panics wherever it may does so here.
    have hcall := hreturns (strictPathCheck ctx.crates) fun ctx' hctx' => by
      cases hctx.symm.trans hctx'
      exact strictPathCheck_promised ctx.crates
    refine hcall.1 ((guardedVerify_aborts hpass).mpr ?_)
    rw [nilVerifyChainedProof_eq_none, hctx]
    obtain ⟨hlengths, -, -, hnodes⟩ := hpass
    simp only [ChainedProof.lengthsOk, Bool.and_eq_true, beq_iff_eq] at hlengths
    obtain ⟨⟨⟨⟨⟨⟨-, hmdu⟩, hblob⟩, -⟩, -⟩, -⟩, -⟩ := hlengths
    refine ⟨ctx.withPathCheck (strictPathCheck ctx.crates), rfl, hhop1, ?_⟩
    have hhop2 := hop2_withPathCheck ctx (strictPathCheck ctx.crates)
      (a := p.args manifestRoot leafCount) hmdu hblob
    rw [hhop2, nodes_args hnodes]
    exact congrArg (Option.map Except.ok) (if_neg hshape)
  · intro hsafe check hcheck
    refine ⟨?_, guardedVerify_ne_panicked _⟩
    intro haborted
    by_cases hpass : PassesChecks guard manifestRoot p
    · obtain ⟨ctx', hctx', hhop1, hhop2⟩ :=
        nilVerifyChainedProof_eq_none.mp ((guardedVerify_aborts hpass).mp haborted)
      obtain ⟨ctx, hctx, rfl⟩ := Option.map_eq_some_iff.mp hctx'
      obtain ⟨hindex, hlength⟩ := hsafe ctx hctx hpass hhop1
      obtain ⟨hlengths, -, -, hnodes⟩ := hpass
      simp only [ChainedProof.lengthsOk, Bool.and_eq_true, beq_iff_eq] at hlengths
      obtain ⟨⟨⟨⟨⟨⟨-, hmdu⟩, hblob⟩, -⟩, -⟩, -⟩, -⟩ := hlengths
      rw [hop2_withPathCheck ctx check hmdu hblob, nodes_args hnodes] at hhop2
      have hverdict := hcheck ctx hctx p.merklePath p.mduRootFr p.blobIndex.toNat
        (ctx.crates.blake2s256 p.blobCommitment) leafCount.toNat hindex hlength
      cases (congrArg (Option.map Except.ok) hverdict).symm.trans hhop2
    · cases (guardedVerify_rejects _ hpass).symm.trans haborted

end Call

/-- The three places where the chain calls the verifier: `ProveLiveness` (for each proof in a
message of any type), `SubmitRetrievalSessionProof` and the precompile. Each call returns, whatever
the crate does where it promises nothing, exactly when it is safe. -/
theorem call_returns_iff (kzgCtx : Option KzgContext) (deal : Deal) (stripe : StripeParams)
    (creator : Str) (manifestRoot : Bytes) (leafCount : UInt64) (p : ChainedProof) :
    (AlwaysReturns kzgCtx (fun k => verifyLivenessProof k deal stripe creator p) ↔
      SafeCall kzgCtx (livenessGuard deal stripe creator) deal.manifestRoot stripe.leafCount p) ∧
    (AlwaysReturns kzgCtx (fun k => verifySessionProof k deal stripe p) ↔
      SafeCall kzgCtx (fun _ => true) deal.manifestRoot stripe.leafCount p) ∧
    (AlwaysReturns kzgCtx (fun k => verifyBatchProof k manifestRoot leafCount p) ↔
      SafeCall kzgCtx (fun _ => true) manifestRoot leafCount p) :=
  ⟨guardedVerify_returns_iff kzgCtx, guardedVerify_returns_iff kzgCtx,
    guardedVerify_returns_iff kzgCtx⟩

/-! ### A path that is too short -/

/-- A proof whose first hop verifies, with one node for a tree of 64 leaves. -/
def shortPathProof : ChainedProof := { sampleProof 0 with merklePath := [zeroHash] }

/-- The small chain with content in its deal. -/
def contentState : KeeperState Ledger :=
  run (apply (sampleProofEnv noKeccak)) (genesis defaultParams sampleBank)
    (sampleContentRun "General")

/-- The provider of the deal aborts the nodes with a system proof: it passes the checks, the first
hop verifies, and the crate asks the path for six nodes, where it has fewer. -/
theorem short_path_aborts :
    RsMerkle sampleSetup.crates ∧
    ((proveLiveness (sampleProofEnv noKeccak) (ctxAt 2) (systemProofMsg shortPathProof)).exec
      contentState).1 = .error .abort ∧
    ∀ deal, contentState.deals.get 0 = some deal →
      ¬AlwaysReturns (some sampleSetup) fun k =>
        verifyLivenessProof k deal mode1StripeParams providerText shortPathProof := by
  refine ⟨tableCrates_rsMerkle _ _, by decide +kernel, ?_⟩
  intro deal hdeal hreturns
  have hroot : (contentState.deals.get 0).map (·.manifestRoot) = some sampleManifestRoot := by
    decide +kernel
  rw [hdeal] at hroot
  have hroot : deal.manifestRoot = sampleManifestRoot := Option.some.inj hroot
  have hsafe := (guardedVerify_returns_iff _).mp hreturns
  rw [hroot] at hsafe
  -- the checks of the keeper
  have hpass : PassesChecks (livenessGuard deal mode1StripeParams providerText) sampleManifestRoot
      shortPathProof := by
    refine ⟨by decide +kernel, by decide, ?_, by decide +kernel⟩
    rfl
  have hhop1 : verifyManifestInclusion sampleSetup sampleManifestRoot shortPathProof.mduRootFr
      shortPathProof.mduIndex.toNat shortPathProof.manifestOpening = .ok true := by
    decide +kernel
  have hshape := (hsafe sampleSetup rfl hpass hhop1).2
  revert hshape
  decide +kernel

end NilStore.Chain
