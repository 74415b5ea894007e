import NilStore.Proofs.LivenessRewards
import NilStore.Proofs.PrecompileSteps

/-!
# `NilStore.Proofs.BatchRule`: two ways to be paid for a proof

A provider is paid for the bytes of a chained proof by `ProveLiveness` and by the precompile's
`proveRetrievalBatch`. Both ask the same verifier. `ProveLiveness` asks it for the leaf count of the
deal's stripe, and only when the blob is in range and in the sender's slot, and the slot is not
being repaired. The precompile asks it for the leaf count of the deal's hint, and makes none of
these checks.

`batch_rule_iff` says which of the proofs that a batch was paid for `ProveLiveness` would have
passed: exactly those that follow its rule, `FollowsRule`. `batch_pays_other_slot` is a batch that
is paid for a blob of another provider's slot.
-/

set_option autoImplicit false

namespace NilStore.Chain

open NilStore.Lib

variable {β : Type}

/-! ### The rule of `ProveLiveness` -/

/-- `ProveLiveness` passes the proof of the provider: the deal has a stripe, the provider's slot is
not being repaired, and the proof verifies. -/
def PassesLiveness (env : Env β) (deal : Deal) (provider : Str) (p : ChainedProof) : Prop :=
  ∃ stripe, stripeParamsForDeal deal = .ok stripe ∧ slotRepairing deal stripe provider = false ∧
    verifyLivenessProof env.kzgCtx deal stripe provider p = .verdict true

/-- The checks that `ProveLiveness` makes besides the verification. -/
structure InOwnSlot (deal : Deal) (stripe : StripeParams) (provider : Str) (p : ChainedProof) :
    Prop where
  inRange : p.blobIndex.toUInt64 < stripe.leafCount
  ownSlot : stripe.mode = 2 →
    providerSlotIndex deal provider = some (p.blobIndex.toUInt64 / stripe.rows)
  active : slotRepairing deal stripe provider = false

/-- The rule: the blob is in range and in the provider's slot, and the slot is not being repaired.
Where the deal's profile gives another leaf count than its hint, the verifier accepts the proof for
that count, too. -/
def FollowsRule (env : Env β) (deal : Deal) (provider : Str) (p : ChainedProof) : Prop :=
  ∃ stripe, stripeParamsForDeal deal = .ok stripe ∧ InOwnSlot deal stripe provider p ∧
    (stripe.leafCount = Precompile.batchLeafCount deal ∨
      verifyBatchProof env.kzgCtx deal.manifestRoot stripe.leafCount p = .verdict true)

/-- A closure accepts when its own check passes and the closure without that check accepts. -/
theorem guardedVerify_accepts {kzgCtx : Option Core.KzgContext} {guard : ChainedProof → Bool}
    {manifestRoot : Bytes} {leafCount : UInt64} {p : ChainedProof} :
    guardedVerify kzgCtx guard manifestRoot leafCount p = .verdict true ↔
      guard p = true ∧ verifyBatchProof kzgCtx manifestRoot leafCount p = .verdict true := by
  simp only [verifyBatchProof, guardedVerify]
  cases guard p <;> simp

/-- A stripe of Mode 2 has rows. -/
theorem stripe_rows_ne_zero {deal : Deal} {stripe : StripeParams}
    (h : stripeParamsForDeal deal = .ok stripe) (hmode : stripe.mode = 2) : stripe.rows ≠ 0 := by
  -- `K` divides 64 and is not zero.
  have hrows : ∀ k : UInt64, k ≠ 0 → 64 % k = 0 → 64 / k ≠ 0 := by
    intro k hk hdvd hzero
    have hk' : k.toNat ≠ 0 := fun h0 => hk (UInt64.toNat_inj.mp h0)
    have hmod : 64 % k.toNat = 0 := congrArg UInt64.toNat hdvd
    have hdiv : 64 / k.toNat = 0 := congrArg UInt64.toNat hzero
    have hsum := Nat.div_add_mod 64 k.toNat
    rw [hmod, hdiv] at hsum
    omega
  -- the stripe comes from the profile of the deal, or from its hint
  rw [stripeParamsForDeal] at h
  split at h
  · rename_i profile hprofile
    simp only at h
    split at h
    · cases h
    · rename_i hnonzero
      split at h
      · cases h
      · rename_i hdvd
        cases h
        exact hrows _ (fun hk => hnonzero (Or.inl hk)) (not_not.mp hdvd)
  · rw [except_bind_ok] at h
    obtain ⟨info, hparse, h⟩ := h
    rw [except_bind_ok] at h
    obtain ⟨rs, hrs, h⟩ := h
    cases rs with
    | none =>
        cases h
        exact absurd hmode (by decide)
    | some rs =>
        cases h
        rw [rsParamsFromHint] at hrs
        split at hrs
        · cases hrs
        · rename_i hhas
          split at hrs
          · cases hrs
          · cases hrs
            obtain ⟨hk, hdvd, -⟩ := parseServiceHint_checked hparse (not_not.mp hhas)
            exact hrows _ hk hdvd

/-- The closure's check is that of the range and of the slot. -/
theorem livenessGuard_iff {deal : Deal} {stripe : StripeParams} {provider : Str} {p : ChainedProof}
    (h : stripeParamsForDeal deal = .ok stripe) :
    livenessGuard deal stripe provider p = true ↔
      p.blobIndex.toUInt64 < stripe.leafCount ∧ (stripe.mode = 2 →
        providerSlotIndex deal provider = some (p.blobIndex.toUInt64 / stripe.rows)) := by
  rw [livenessGuard, Bool.and_eq_true, decide_eq_true_iff]
  by_cases hmode : stripe.mode = 2
  · have hslot : leafSlotIndex p.blobIndex.toUInt64 stripe.rows =
        .ok (p.blobIndex.toUInt64 / stripe.rows) := by
      rw [leafSlotIndex, if_neg (stripe_rows_ne_zero h hmode)]
    simp [hmode, hslot]
  · simp [hmode]

/-- A proof passes exactly when it is in the sender's slot and the verifier accepts it for the leaf
count of the stripe. -/
theorem passesLiveness_iff {env : Env β} {deal : Deal} {provider : Str} {p : ChainedProof} :
    PassesLiveness env deal provider p ↔
      ∃ stripe, stripeParamsForDeal deal = .ok stripe ∧ InOwnSlot deal stripe provider p ∧
        verifyBatchProof env.kzgCtx deal.manifestRoot stripe.leafCount p = .verdict true := by
  constructor
  · rintro ⟨stripe, hstripe, hactive, hverify⟩
    obtain ⟨hguard, hbatch⟩ := guardedVerify_accepts.mp hverify
    obtain ⟨hrange, hslot⟩ := (livenessGuard_iff hstripe).mp hguard
    exact ⟨stripe, hstripe, ⟨hrange, hslot, hactive⟩, hbatch⟩
  · rintro ⟨stripe, hstripe, hown, hbatch⟩
    have hguard := (livenessGuard_iff hstripe).mpr ⟨hown.inRange, hown.ownSlot⟩
    exact ⟨stripe, hstripe, hown.active, guardedVerify_accepts.mpr ⟨hguard, hbatch⟩⟩

/-! ### `ProveLiveness` with a system proof -/

/-- `ProveLiveness` answers the message with success. -/
def Succeeds (env : Env β) (ctx : Ctx) (msg : MsgProveLiveness) (s : KeeperState β) : Prop :=
  ∃ r s', (proveLiveness env ctx msg).exec s = (.ok r, s') ∧ r.success = true

section Handler

variable {env : Env β} {ctx : Ctx} {msg : MsgProveLiveness} {p : ChainedProof} {s : KeeperState β}
  {deal : Deal}

/-- A system proof that verifies is settled without a payment, which cannot fail. -/
theorem settleProof_system (c : ProofCall β) (tier : Tier) (reward : Int) (s : KeeperState β) :
    ∃ r s', (c.settleProof tier .system reward).exec s = (.ok r, s') ∧ r.success = true := by
  simp only [ProofCall.settleProof, Tx.exec_failIf_bind_ok, Tx.exec_update_bind, Tx.exec_pure,
    Prod.mk.injEq, Except.ok.injEq]
  exact ⟨_, _, ⟨by simp, rfl, rfl⟩, rfl⟩

/-- The handler answers a system proof of a provider of the deal with success exactly when the proof
passes. The halving interval must not be zero: the handler divides by it before it looks at the
proof. -/
theorem succeeds_iff (hproof : msg.proofType = .systemProof (some p))
    (hget : s.deals.get msg.dealId.toNat = some deal) (hmem : msg.creator ∈ deal.providers)
    (hhalving : s.getParams.halvingInterval ≠ 0) :
    Succeeds env ctx msg s ↔ PassesLiveness env deal msg.creator p := by
  constructor
  · rintro ⟨r, s', hexec, hr⟩
    -- what a success says of each check, from the first to the switch
    simp only [proveLiveness, Tx.exec_reads_bind_ok, Tx.exec_failIf_bind_ok,
      Tx.exec_ofExcept_bind_ok, Tx.exec_update_bind, Tx.exec_gets_bind, orFail_eq_ok,
      mapError_eq_ok, hget] at hexec
    obtain ⟨found, hfound, -, stripe, hstripe, hactive, -, hexec⟩ := hexec
    cases hfound
    simp only [ProofCall.handleProof, hproof, Tx.exec_ofExcept_bind_ok] at hexec
    obtain ⟨outcome, hverify, hexec⟩ := hexec
    refine ⟨stripe, hstripe, Bool.eq_false_iff.mpr hactive, ?_⟩
    have hnot : outcome ≠ .rejected := by
      intro hrejected
      subst hrejected
      simp only [if_true, Tx.exec_update_bind, Tx.exec_pure, Prod.mk.injEq, Except.ok.injEq]
        at hexec
      rw [← hexec.1] at hr
      cases hr
    -- Any other end of the verification is a rejection or a fault.
    simp only [ProofCall.verifySystemProof] at hverify
    split at hverify
    · assumption
    · exact absurd (Except.ok.inj hverify).symm hnot
    · exact absurd (Except.ok.inj hverify).symm hnot
    · cases hverify
    · cases hverify
  · rintro ⟨stripe, hstripe, hactive, hverify⟩
    have hparams : (rewardTier (tierOfLatency (dealAge ctx deal)) msg.creator s).getParams =
        s.getParams := by
      rw [(reputationOnly_rewardTier (tierOfLatency (dealAge ctx deal)) msg.creator s).2]
      rfl
    -- what passes is settled, and settling it cannot fail
    obtain ⟨r, s', hsettle, hr⟩ := settleProof_system
      ⟨env, ctx, s.getParams, deal, stripe, msg⟩ (tierOfLatency (dealAge ctx deal))
      (storageReward ctx.height64 s.getParams.halvingInterval
        (tierOfLatency (dealAge ctx deal)).rewardMultiplier)
      (rewardTier (tierOfLatency (dealAge ctx deal)) msg.creator s)
    refine ⟨r, s', ?_, hr⟩
    rw [proveLiveness, Tx.exec_reads_bind_ok]
    refine ⟨deal, by rw [hget]; rfl, ?_⟩
    rw [Tx.exec_failIf_bind_ok]
    refine ⟨not_not.mpr hmem, ?_⟩
    rw [Tx.exec_ofExcept_bind_ok]
    refine ⟨stripe, by rw [hstripe]; rfl, ?_⟩
    rw [Tx.exec_failIf_bind_ok]
    refine ⟨by simp [hactive], ?_⟩
    simp only [Tx.exec_update_bind, Tx.exec_gets_bind, Tx.exec_failIf_bind_ok]
    rw [← dealAge, hparams]
    refine ⟨hhalving, ?_⟩
    have hswitch : ProofCall.verifySystemProof
        ⟨env, ctx, s.getParams, deal, stripe, msg⟩ (some p) = .ok .system := by
      simp only [ProofCall.verifySystemProof, hverify]
    simp only [ProofCall.handleProof, hproof, Tx.exec_ofExcept_bind_ok]
    exact ⟨.system, hswitch, hsettle⟩

end Handler

/-! ### The rule of the precompile -/

/-- A verifier's answer is used only where the call returned a verdict. -/
theorem VerifyResult.toExcept_eq_ok {onError : String → Fault} {res : VerifyResult} {ok : Bool} :
    res.toExcept onError = .ok ok ↔ res = .verdict ok := by
  cases res <;> simp [VerifyResult.toExcept]

section Batch

variable {env : Env β} {ctx : Ctx} {s s' : KeeperState β}

/-- Each chunk of a batch that is paid has been verified for the leaf count of the hint. -/
theorem proveChunks_verified {deal : Deal} {bytes bytes' : UInt64} {chunks : List Precompile.Chunk}
    (h : (Precompile.proveChunks env ctx deal bytes chunks).exec s = (.ok bytes', s')) :
    ∀ chunk ∈ chunks, verifyBatchProof env.kzgCtx deal.manifestRoot
      (Precompile.batchLeafCount deal) chunk.proof = .verdict true := by
  induction chunks generalizing bytes s with
  | nil => simp
  | cons chunk rest ih =>
      simp only [Precompile.proveChunks, Tx.exec_ofExcept_bind_ok, Tx.exec_update_bind] at h
      obtain ⟨_, hcheck, hrest⟩ := h
      intro c hc
      rcases List.mem_cons.mp hc with rfl | hc
      · simp only [Precompile.checkChunk, except_bind_ok, rejectIf_eq_ok, not_not] at hcheck
        obtain ⟨_, -, _, -, ok, hverify, rfl⟩ := hcheck
        exact VerifyResult.toExcept_eq_ok.mp hverify
      · exact ih hrest c hc

end Batch

/-- A batch that is paid, in every state. Each of its proofs passes `ProveLiveness` in that state
exactly when it follows the rule; and unless the chain is without a halving interval, the handler
answers the provider's system proof with success exactly then. -/
theorem batch_rule_iff (env : Env β) (ctx : Ctx) (caller : Bytes) (dealId : UInt64)
    (provider filePath : Str) (nonce : UInt64) (chunks : List Precompile.Chunk)
    (s s' : KeeperState β) (out : Precompile.Output)
    (h : (Precompile.runProveRetrievalBatch env ctx caller dealId provider filePath nonce
      chunks).exec s = (.ok out, s')) :
    ∃ deal, s.deals.get dealId.toNat = some deal ∧ ∀ chunk ∈ chunks,
      (PassesLiveness env deal provider chunk.proof ↔
        FollowsRule env deal provider chunk.proof) ∧
      (s.getParams.halvingInterval ≠ 0 → ∀ epochId,
        (Succeeds env ctx ⟨provider, dealId, epochId, .systemProof (some chunk.proof)⟩ s ↔
          FollowsRule env deal provider chunk.proof)) := by
  rw [Precompile.runProveRetrievalBatch, Tx.exec_reads_bind_ok] at h
  -- the checks of the batch give the deal and its provider
  obtain ⟨deal, hcheck, h⟩ := h
  simp only [Precompile.checkBatch, except_bind_ok, rejectIf_eq_ok, orFail_eq_ok, not_not] at hcheck
  obtain ⟨_, -, _, -, _, -, found, hget, _, -, _, hmem, _, -, _, -, _, -, hfound⟩ := hcheck
  cases hfound
  obtain ⟨bytes, s₁, hchunks, -⟩ := Tx.exec_bind_ok.mp h
  refine ⟨deal, hget, fun chunk hchunk => ?_⟩
  have hverified := proveChunks_verified hchunks chunk hchunk
  -- the leaf count is all that the two rules differ in
  have hpasses : PassesLiveness env deal provider chunk.proof ↔
      FollowsRule env deal provider chunk.proof := by
    rw [passesLiveness_iff, FollowsRule]
    constructor
    · rintro ⟨stripe, hstripe, hown, hverify⟩
      exact ⟨stripe, hstripe, hown, Or.inr hverify⟩
    · rintro ⟨stripe, hstripe, hown, hcount | hverify⟩
      · exact ⟨stripe, hstripe, hown, by rw [hcount]; exact hverified⟩
      · exact ⟨stripe, hstripe, hown, hverify⟩
  refine ⟨hpasses, fun hhalving epochId => ?_⟩
  rw [← hpasses]
  exact succeeds_iff rfl hget hmem hhalving

/-! ### On a small chain with two slots -/

/-- The seed of the third draw. -/
def slotSeed : Bytes :=
  [0x2e, 0xdb, 0xb8, 0x79, 0x62, 0xeb, 0xa6, 0x19, 0x3a, 0x82, 0x37, 0x52, 0x82, 0xeb, 0x09, 0xfd,
    0xc0, 0x3a, 0x85, 0xb5, 0xa0, 0xfd, 0x3f, 0x02, 0x43, 0x5f, 0x67, 0xfa, 0x8a, 0x91, 0x55, 0xa2]

/-- The SHA-256 of deal 0 as two slots are assigned. The second draw hits the first provider again,
so there is a third. -/
def slotSha : HashTable where
  entries := sampleSha.entries ++
    [(uint64ToBigEndian 0 ++ uint64ToBigEndian 1,
      [0x7c, 0x3c, 0xcd, 0x10, 0xbb, 0x7e, 0xc3, 0x7b, 0x46, 0xd3, 0x79, 0x26, 0xae, 0x62, 0x74,
        0x26, 0x7f, 0x00, 0x7a, 0x34, 0xae, 0xaf, 0x15, 0xc8, 0x82, 0xa7, 0x15, 0xa7, 0xf3, 0x30,
        0x05, 0x29]),
      ([0x7c, 0x3c, 0xcd, 0x10, 0xbb, 0x7e, 0xc3, 0x7b, 0x46, 0xd3, 0x79, 0x26, 0xae, 0x62, 0x74,
        0x26, 0x7f, 0x00, 0x7a, 0x34, 0xae, 0xaf, 0x15, 0xc8, 0x82, 0xa7, 0x15, 0xa7, 0xf3, 0x30,
        0x05, 0x29], slotSeed),
      (slotSeed ++ uint64ToBigEndian 1,
      [0x8f, 0xfe, 0x8b, 0x57, 0xd7, 0xcd, 0x1f, 0x00, 0xcd, 0x89, 0x32, 0xd7, 0x57, 0xbc, 0xd7,
        0xb8, 0x8b, 0x10, 0xf1, 0x30, 0x45, 0x56, 0x0d, 0xef, 0x20, 0xf1, 0x53, 0x2d, 0x23, 0x35,
        0xa5, 0x50])]
  lengths := by decide

/-- The root of an MDU of 128 blobs. Its first half has the root `sampleMduRoot`, and the sibling of
that is 32 zeros. -/
def slotMduRoot : Bytes :=
  [0x64, 0xb0, 0xb5, 0x9e, 0x81, 0x6c, 0xff, 0x65, 0x47, 0xd0, 0xeb, 0xc0, 0x89, 0x1c, 0x2c, 0xbc,
    0x10, 0x11, 0xe4, 0x9a, 0x93, 0x21, 0x3e, 0x87, 0xa7, 0x32, 0x2e, 0xaf, 0x38, 0xb6, 0xe5, 0xf7]

/-- The digests of the sample proof, with the root of the MDU it lies in. -/
def slotBlake2s : HashTable where
  entries := sampleBlake2s.entries ++ [(sampleMduRoot ++ zeroHash, slotMduRoot)]
  lengths := by decide +kernel

/-- The commitment to the polynomial that is constantly that root. -/
def slotManifestRoot : Bytes :=
  [0x87, 0xea, 0x6b, 0x7c, 0x60, 0xff, 0x08, 0x60, 0x4f, 0x44, 0x46, 0xf0, 0x03, 0xab, 0x34, 0xd6,
    0x7e, 0x14, 0x89, 0xe3, 0x94, 0xe7, 0x4b, 0xde, 0x93, 0x97, 0x7d, 0x6f, 0x64, 0x54, 0x78, 0xdd,
    0x1e, 0xe2, 0x74, 0x89, 0x4c, 0x7e, 0xe5, 0x03, 0xac, 0x3f, 0x62, 0xae, 0x40, 0x0e, 0xe8, 0x57]

/-- Two slots of 64 blobs each: `otherText` has the first, `providerText` the second. -/
def slotEnv : Env Ledger :=
  { bookEnv sampleBook noKeccak slotSha [] 8 with
    kzgCtx := some (tableSetup
      [(identityPoint, 0), (slotManifestRoot, Core.reduceBytes32ToScalar slotMduRoot)] slotBlake2s)
        }

/-- The proof that the first byte of the first blob is zero. The blob is in the first slot. -/
def slotProof : ChainedProof :=
  { sampleProof 0 with
    mduRootFr := slotMduRoot
    merklePath := List.replicate 7 zeroHash }

/-- Two providers, and a deal with a slot for each. -/
def slotState : KeeperState Ledger :=
  run (apply slotEnv) (genesis defaultParams sampleBank)
    [.deliver (ctxAt 1) (registerMsg providerText), .deliver (ctxAt 1) (registerMsg otherText),
      .deliver (ctxAt 1) (createMsg 100 "General:rs=1+1"),
      .deliver (ctxAt 1) (.updateDealContent ⟨ownerText, 0, hexEncode slotManifestRoot, 1⟩)]

/-- The stripe of the deal. -/
def slotStripe : StripeParams := ⟨2, 1, 1, 64, 128, 2⟩

/-- The owner's contract submits the proof for a provider. -/
def slotBatch (provider : Str) : Handler Ledger Precompile.Output :=
  Precompile.runProveRetrievalBatch slotEnv (ctxAt 2) ownerAddr 0 provider "f".toList 1
    [⟨0, 1, slotProof⟩]

/-- The provider of the first slot is paid for the proof, and `ProveLiveness` would have passed
it. -/
theorem batch_rule_iff_slotBatch :
    ∃ deal, slotState.deals.get 0 = some deal ∧
      PassesLiveness slotEnv deal otherText slotProof := by
  have hout : ((slotBatch otherText).exec slotState).1 = .ok .ok := by decide +kernel
  obtain ⟨s', hexec⟩ := Tx.exists_exec_eq hout
  obtain ⟨deal, hget, hrule⟩ := batch_rule_iff slotEnv (ctxAt 2) ownerAddr 0 otherText "f".toList 1
    [⟨0, 1, slotProof⟩] slotState s' .ok hexec
  refine ⟨deal, hget, (hrule _ List.mem_cons_self).1.mpr ?_⟩
  have hslot : (slotState.deals.get 0).map (fun deal => (stripeParamsForDeal deal,
      providerSlotIndex deal otherText, slotRepairing deal slotStripe otherText,
      Precompile.batchLeafCount deal)) = some (.ok slotStripe, some 0, false, 128) := by
    decide +kernel
  have hget : slotState.deals.get 0 = some deal := hget
  rw [hget, Option.map_some, Option.some.injEq] at hslot
  simp only [Prod.mk.injEq] at hslot
  obtain ⟨hstripe, hindex, hactive, hcount⟩ := hslot
  refine ⟨slotStripe, hstripe, ⟨by decide, fun _ => ?_, hactive⟩, Or.inl hcount.symm⟩
  rw [hindex]
  decide

/-- The provider of the second slot is paid for the same proof, which `ProveLiveness` rejects. -/
theorem batch_pays_other_slot :
    ((slotBatch providerText).exec slotState).1 = .ok .ok ∧
    slotState.rewardsOf providerText = 0 ∧
    ((slotBatch providerText).exec slotState).2.rewardsOf providerText = 1 ∧
    ((proveLiveness slotEnv (ctxAt 2) ⟨providerText, 0, 1, .systemProof (some slotProof)⟩).exec
      slotState).1 = .ok ⟨false, 3, "0".toList⟩ := by
  decide +kernel

end NilStore.Chain
