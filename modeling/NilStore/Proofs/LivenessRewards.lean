import NilStore.Chain.Ledger

/-!
# `NilStore.Proofs.LivenessRewards`: what a liveness proof earns

`ProveLiveness` first finds the tier of the proof, by the age of the deal, and raises the reputation
of a provider that is in time. Then it looks at the proof. A system proof that does not verify is
answered without an error, so what was written before it stays: `rejected_proof_iff` says exactly
when that is nothing but the failure counter.

A system proof that verifies earns the storage reward of its height and tier. Nothing is kept of the
proof or of its epoch, so it earns again when it is sent again: `storage_reward_per_acceptance` is
what a run credits, one reward for each acceptance, and nothing from the eleventh block of the deal
on.
-/

set_option autoImplicit false

namespace NilStore.Chain

open NilStore.Lib

variable {β : Type}

/-- The age of a deal in blocks, as the tier is found by it. -/
def dealAge (ctx : Ctx) (deal : Deal) : Int := (ctx.blockHeight : Int) - newInt64 deal.startBlock

section Handler

variable {env : Env β} {ctx : Ctx} {msg : MsgProveLiveness} {s s' : KeeperState β}
  {r : MsgProveLivenessResponse}

/-! ### Rejected proofs -/

/-- Only a system proof is rejected without an error, and the switch writes nothing then. The other
kinds of proof fail the transaction when they do not verify. -/
theorem handleProof_rejected {c : ProofCall β} (h : c.handleProof.exec s = (.ok .rejected, s')) :
    s' = s := by
  rw [ProofCall.handleProof] at h
  -- by the kind of the proof
  cases hpt : c.msg.proofType with
  | systemProof proof =>
      simp only [hpt, Tx.exec_ofExcept, Prod.mk.injEq] at h
      exact h.2.symm
  | userReceipt receipt =>
      cases receipt with
      | none => simp [hpt] at h
      | some receipt =>
          simp only [hpt] at h
          obtain ⟨bytes, s₁, -, hlast⟩ := Tx.exec_bind_ok.mp h
          cases hlast
  | userReceiptBatch receipts =>
      simp only [hpt, Tx.exec_failIf_bind_ok] at h
      obtain ⟨bytes, s₁, -, hlast⟩ := Tx.exec_bind_ok.mp h.2
      cases hlast
  | sessionProof proof =>
      cases proof with
      | none => simp [hpt] at h
      | some proof =>
          simp only [hpt] at h
          obtain ⟨bytes, s₁, -, hlast⟩ := Tx.exec_bind_ok.mp h
          cases hlast
  | unset => simp [hpt] at h

/-- A proof that was answered without success: the reputation is raised if the tier says so, and the
failure is counted. -/
theorem proveLiveness_rejected (h : (proveLiveness env ctx msg).exec s = (.ok r, s'))
    (hr : r.success = false) :
    ∃ deal, s.deals.get msg.dealId.toNat = some deal ∧
      s' = trackProviderHealth msg.dealId.toNat msg.creator false
        (rewardTier (tierOfLatency (dealAge ctx deal)) msg.creator s) := by
  simp only [proveLiveness, Tx.exec_reads_bind_ok, Tx.exec_failIf_bind_ok,
    Tx.exec_ofExcept_bind_ok, Tx.exec_update_bind, Tx.exec_gets_bind, orFail_eq_ok] at h
  obtain ⟨deal, hget, -, stripe, -, -, -, h⟩ := h
  rw [Tx.exec_bind_ok] at h
  obtain ⟨outcome, s₂, hproof, h⟩ := h
  refine ⟨deal, hget, ?_⟩
  by_cases hrejected : outcome = .rejected
  · subst hrejected
    simp only [if_true, Tx.exec_update_bind, Tx.exec_pure, Prod.mk.injEq] at h
    rw [← h.2, handleProof_rejected hproof]
    rfl
  · rw [if_neg hrejected] at h
    rw [(settleProof_ok h).1] at hr
    cases hr

/-- A proof is in time up to the tenth block of its deal. -/
theorem tier_lt_three_iff {latency : Int} : (tierOfLatency latency).tier < 3 ↔ latency ≤ 10 := by
  rw [tierOfLatency]
  split
  · simp only [UInt32.reduceLT, true_iff]
    omega
  · split
    · simp only [UInt32.reduceLT, true_iff]
      omega
    · split
      · simpa only [UInt32.reduceLT, true_iff]
      · simpa only [UInt32.lt_irrefl, false_iff]

/-- Raising a reputation changes the store of providers exactly when the provider is in it. -/
theorem raiseReputation_providers_eq_iff {provider : Str} :
    (raiseReputation provider s).providers = s.providers ↔ s.providers.get provider = none := by
  rw [raiseReputation]
  cases hget : s.providers.get provider with
  | none => simp
  | some p =>
      simp only [reduceCtorEq, iff_false]
      intro heq
      have hself := KVStore.get_set_self s.providers provider
        { p with reputationScore := p.reputationScore + 1 }
      rw [heq, hget, Option.some.injEq] at hself
      have hscore := congrArg Provider.reputationScore hself
      simp only at hscore
      omega

/-- Nothing has changed but the failure counter of the sender for the deal, which has counted one
more failure. -/
def OnlyFailureCounted (msg : MsgProveLiveness) (s s' : KeeperState β) : Prop :=
  s' = trackProviderHealth msg.dealId.toNat msg.creator false s

end Handler

/-- A rejected proof, in every state. With an error, the transaction leaves the state as it was.
Without one, and without success, nothing but the failure counter has changed exactly when the proof
is late (the deal is more than ten blocks old) or its sender is not in the store of providers. -/
theorem rejected_proof_iff (env : Env β) (ctx : Ctx) (msg : MsgProveLiveness)
    (s s' : KeeperState β) (res : Except Fault MsgProveLivenessResponse)
    (h : (proveLiveness env ctx msg).exec s = (res, s')) :
    (∀ fault, res = .error fault → apply env s (.deliver ctx (.proveLiveness msg)) = s) ∧
      ∀ r, res = .ok r → r.success = false →
        apply env s (.deliver ctx (.proveLiveness msg)) = s' ∧
          ∃ deal, s.deals.get msg.dealId.toNat = some deal ∧
            (OnlyFailureCounted msg s s' ↔
              10 < dealAge ctx deal ∨ s.providers.get msg.creator = none) := by
  refine ⟨fun fault hres => ?_, fun r hres hr => ?_⟩
  · subst hres
    exact Tx.commitOrRollback_of_error (Tx.exec_bind_error.mpr (Or.inl h))
  -- a rejection commits what was written before the verification
  · subst hres
    refine ⟨Tx.commitOrRollback_of_ok (a := ()) (discard_ok.mpr ⟨r, h⟩), ?_⟩
    obtain ⟨deal, hget, rfl⟩ := proveLiveness_rejected h hr
    refine ⟨deal, hget, ?_⟩
    rw [OnlyFailureCounted]
    -- in time: the score of a registered provider has been raised
    by_cases hlate : dealAge ctx deal ≤ 10
    · have htier := tier_lt_three_iff.mpr hlate
      have hreward : rewardTier (tierOfLatency (dealAge ctx deal)) msg.creator s =
          raiseReputation msg.creator s := by rw [rewardTier, if_pos htier]
      have hnot : ¬10 < dealAge ctx deal := by omega
      simp only [hreward, hnot, false_or]
      constructor
      · intro heq
        have hproviders := congrArg (fun s₁ : KeeperState β => s₁.providers) heq
        exact raiseReputation_providers_eq_iff.mp hproviders
      · intro hnone
        rw [raiseReputation, hnone]
    · have htier : ¬(tierOfLatency (dealAge ctx deal)).tier < 3 := fun h =>
        hlate (tier_lt_three_iff.mp h)
      have hreward : rewardTier (tierOfLatency (dealAge ctx deal)) msg.creator s = s := by
        rw [rewardTier, if_neg htier]
        rfl
      have hpos : 10 < dealAge ctx deal := by omega
      simp only [hreward, hpos, true_or]

/-! ### Accepted system proofs -/

/-- The rewards of a provider that are not withdrawn yet. -/
def KeeperState.rewardsOf (s : KeeperState β) (provider : Str) : Int :=
  (s.providerRewards.get provider).getD 0

/-- The reward is not negative, whatever the height. -/
theorem storageReward_nonneg (height halvingInterval : UInt64) {multiplier : Int}
    (h : 0 ≤ multiplier) : 0 ≤ storageReward height halvingInterval multiplier := by
  simp only [storageReward]
  split
  · omega
  · positivity

/-- Even without decay and in the first tier, a proof earns a million. -/
theorem storageReward_le (height halvingInterval : UInt64) {multiplier : Int}
    (h : 0 ≤ multiplier) (hle : multiplier ≤ 10 ^ 18) :
    storageReward height halvingInterval multiplier ≤ 1000000 := by
  simp only [storageReward]
  split
  · omega
  · have hdecay : (1000000 : Int) / 2 ^ (height / halvingInterval).toNat ≤ 1000000 :=
      Int.ediv_le_self _ (by decide)
    have hprod := mul_le_mul hdecay hle h (by decide)
    omega

/-- The multiplier is between 0 and 1, and 0 for a proof that comes late. -/
theorem rewardMultiplier_bounds (latency : Int) :
    0 ≤ (tierOfLatency latency).rewardMultiplier ∧
      (tierOfLatency latency).rewardMultiplier ≤ 10 ^ 18 ∧
      (10 < latency → (tierOfLatency latency).rewardMultiplier = 0) := by
  rw [tierOfLatency]
  split
  · exact ⟨by decide, by decide, fun h => by omega⟩
  · split
    · exact ⟨by decide, by decide, fun h => by omega⟩
    · split
      · exact ⟨by decide, by decide, fun h => by omega⟩
      · exact ⟨by decide, by decide, fun _ => rfl⟩

/-- The reward of a system proof at a height, for a deal of an age. -/
def proofReward (height halvingInterval : UInt64) (age : Int) : Int :=
  storageReward height halvingInterval (tierOfLatency age).rewardMultiplier

/-- The reward of a proof is at most the base reward, and 0 for a proof that comes late. -/
theorem proofReward_bounds (height halvingInterval : UInt64) (age : Int) :
    0 ≤ proofReward height halvingInterval age ∧ proofReward height halvingInterval age ≤ 1000000 ∧
      (10 < age → proofReward height halvingInterval age = 0) := by
  obtain ⟨hpos, hle, hlate⟩ := rewardMultiplier_bounds age
  refine ⟨storageReward_nonneg _ _ hpos, storageReward_le _ _ hpos hle, fun hage => ?_⟩
  rw [proofReward, storageReward, hlate hage, mul_zero, Int.zero_ediv]

/-- Crediting a provider raises its rewards by the credit. -/
theorem rewardsOf_accumulateReward {provider : Str} {reward : Int} {s : KeeperState β}
    (h : 0 ≤ reward) :
    (accumulateReward provider reward s).rewardsOf provider = s.rewardsOf provider + reward := by
  rw [accumulateReward]
  split
  · rw [KeeperState.rewardsOf, KVStore.get_set_self]
    rfl
  · have hzero : reward = 0 := by omega
    rw [hzero, add_zero]

/-- No proof is paid a negative amount. -/
theorem payment_nonneg (proofType : ProofType) : 0 ≤ proofType.payment := by
  cases proofType with
  | systemProof proof => exact le_refl 0
  | _ => exact Int.natCast_nonneg _

/-- A proof that was answered with success has earned its reward and what its message is charged.
The reward is computed from the age of the deal, and the charge comes from its escrow. -/
theorem proveLiveness_credited {env : Env β} {ctx : Ctx} {msg : MsgProveLiveness}
    {s s' : KeeperState β} {r : MsgProveLivenessResponse}
    (h : (proveLiveness env ctx msg).exec s = (.ok r, s')) (hr : r.success = true) :
    ∃ deal reward, s.deals.get msg.dealId.toNat = some deal ∧
      reward = proofReward ctx.height64 s.getParams.halvingInterval (dealAge ctx deal) ∧
      r.rewardAmount = decimal (reward + msg.proofType.payment) ∧
      s'.rewardsOf msg.creator = s.rewardsOf msg.creator + (reward + msg.proofType.payment) := by
  -- the handler, step by step, up to the switch over the kinds
  simp only [proveLiveness, Tx.exec_reads_bind_ok, Tx.exec_failIf_bind_ok,
    Tx.exec_ofExcept_bind_ok, Tx.exec_update_bind, Tx.exec_gets_bind, orFail_eq_ok] at h
  obtain ⟨deal, hget, -, stripe, -, -, -, h⟩ := h
  rw [Tx.exec_bind_ok] at h
  obtain ⟨outcome, s₂, hswitch, h⟩ := h
  -- The tier touches the providers only, and the switch heat and nonces.
  have hraise := (reputationOnly_rewardTier (tierOfLatency (dealAge ctx deal)) msg.creator s).2
  have hparams : (rewardTier (tierOfLatency (dealAge ctx deal)) msg.creator s).getParams =
      s.getParams := by rw [hraise]; rfl
  obtain ⟨hpay, -, hkeep⟩ := handleProof_ok hswitch
  have hrewards : s₂.rewardsOf msg.creator = s.rewardsOf msg.creator := by
    rw [HeatAndNonces] at hkeep
    rw [hkeep]
    show (rewardTier (tierOfLatency (dealAge ctx deal)) msg.creator s).rewardsOf msg.creator = _
    rw [hraise]
    rfl
  by_cases hrejected : outcome = .rejected
  · subst hrejected
    simp only [if_true, Tx.exec_update_bind, Tx.exec_pure, Prod.mk.injEq, Except.ok.injEq] at h
    rw [← h.1] at hr
    cases hr
  · simp only [if_neg hrejected, ProofCall.settleProof, Tx.exec_failIf_bind_ok,
      Tx.exec_update_bind, Tx.exec_pure, Prod.mk.injEq, Except.ok.injEq, hpay hrejected] at h
    obtain ⟨-, rfl, rfl⟩ := h
    have hpos := (proofReward_bounds ctx.height64 s.getParams.halvingInterval (dealAge ctx deal)).1
    have hnonneg := add_nonneg hpos (payment_nonneg msg.proofType)
    refine ⟨deal, _, hget, rfl, ?_, ?_⟩
    · rw [← hparams]
      rfl
    · have hsum := @rewardsOf_accumulateReward _ msg.creator _ s₂ hnonneg
      rw [hrewards] at hsum
      rw [← hsum, ← hparams]
      rfl

/-- A system proof that was accepted has earned its reward, whatever was proved before. -/
theorem proveLiveness_accepted {env : Env β} {ctx : Ctx} {msg : MsgProveLiveness}
    {proof : Option ChainedProof} {s s' : KeeperState β} {r : MsgProveLivenessResponse}
    (h : (proveLiveness env ctx msg).exec s = (.ok r, s')) (hr : r.success = true)
    (hproof : msg.proofType = .systemProof proof) :
    ∃ deal, s.deals.get msg.dealId.toNat = some deal ∧
      s'.rewardsOf msg.creator = s.rewardsOf msg.creator +
        proofReward ctx.height64 s.getParams.halvingInterval (dealAge ctx deal) := by
  obtain ⟨deal, reward, hget, rfl, -, hsum⟩ := proveLiveness_credited h hr
  -- A system proof is charged nothing.
  rw [hproof] at hsum
  exact ⟨deal, hget, by rw [hsum]; exact congrArg _ (add_zero _)⟩

/-- What an accepted system proof has been credited. -/
structure SystemCredit where
  dealId : UInt64
  provider : Str
  epochId : UInt64
  height : UInt64
  halvingInterval : UInt64
  age : Int
  amount : Int

/-- The credit is for this deal, provider and epoch. -/
def SystemCredit.isFor (dealId : UInt64) (provider : Str) (epochId : UInt64) (c : SystemCredit) :
    Bool :=
  c.dealId == dealId && c.provider == provider && c.epochId == epochId

/-- The credits of an event: the difference that an accepted system proof makes to the rewards of
its sender. -/
def Event.systemCredits (env : Env β) (s : KeeperState β) : Event → List SystemCredit
  | .deliver ctx (.proveLiveness msg) =>
      match msg.proofType, s.deals.get msg.dealId.toNat, (proveLiveness env ctx msg).exec s with
      | .systemProof _, some deal, (.ok r, s') =>
          if r.success then
            [{ dealId := msg.dealId
               provider := msg.creator
               epochId := msg.epochId
               height := ctx.height64
               halvingInterval := s.getParams.halvingInterval
               age := dealAge ctx deal
               amount := s'.rewardsOf msg.creator - s.rewardsOf msg.creator }]
          else []
      | _, _, _ => []
  | _ => []

/-- Each credit is one reward. -/
theorem systemCredits_amount {env : Env β} {s : KeeperState β} {e : Event} {c : SystemCredit}
    (h : c ∈ e.systemCredits env s) : c.amount = proofReward c.height c.halvingInterval c.age := by
  cases e with
  | deliver ctx msg =>
      cases msg with
      | proveLiveness msg =>
          rw [Event.systemCredits] at h
          split at h
          · rename_i proof deal r s' hproof hget hexec
            split at h
            · rename_i hr
              obtain rfl := List.mem_singleton.mp h
              obtain ⟨deal', hget', heq⟩ := proveLiveness_accepted hexec hr hproof
              rw [hget] at hget'
              cases hget'
              simp only [heq, add_sub_cancel_left]
            · cases h
          · cases h
      | _ => cases h
  | endBlock ctx => cases h
  | call ctx input => cases h

/-- What credits of one reward each come to. -/
theorem sum_amounts_le {credits : List SystemCredit}
    (h : ∀ c ∈ credits, c.amount = proofReward c.height c.halvingInterval c.age) :
    (credits.map (·.amount)).sum ≤ 1000000 * (credits.countP fun c => c.age ≤ 10) := by
  induction credits with
  | nil => simp
  | cons c rest ih =>
      have hrest := ih fun c' hc' => h c' (List.mem_cons_of_mem _ hc')
      obtain ⟨-, hle, hlate⟩ := proofReward_bounds c.height c.halvingInterval c.age
      rw [← h c List.mem_cons_self] at hle hlate
      rw [List.map_cons, List.sum_cons, List.countP_cons]
      by_cases hage : c.age ≤ 10
      · simp only [hage, decide_true, if_true]
        push_cast
        omega
      · have hzero := hlate (by omega)
        simp only [hage, decide_false, if_false, Bool.false_eq_true]
        push_cast
        omega

/-- The storage rewards of a run. Each accepted system proof is credited one reward, that of its
height and of the age of its deal; so for a deal, a provider and an epoch, the rewards come to at
most a million for each proof that was accepted in the first ten blocks of the deal. -/
theorem storage_reward_per_acceptance (env : Env β) (params : Params) (b : β) (es : List Event)
    (dealId : UInt64) (provider : Str) (epochId : UInt64) :
    (∀ c ∈ trace (apply env) (fun s e => e.systemCredits env s) (genesis params b) es,
      c.amount = proofReward c.height c.halvingInterval c.age ∧ 0 ≤ c.amount ∧
        c.amount ≤ 1000000 ∧ (10 < c.age → c.amount = 0)) ∧
    (((trace (apply env) (fun s e => e.systemCredits env s) (genesis params b) es).filter
      (SystemCredit.isFor dealId provider epochId)).map (·.amount)).sum ≤
        1000000 * ((trace (apply env) (fun s e => e.systemCredits env s) (genesis params b)
          es).filter (SystemCredit.isFor dealId provider epochId)).countP fun c => c.age ≤ 10 := by
  have hone : ∀ c ∈ trace (apply env) (fun s e => e.systemCredits env s) (genesis params b) es,
      c.amount = proofReward c.height c.halvingInterval c.age := by
    intro c hc
    obtain ⟨past, e, rest, -, he⟩ := mem_trace hc
    exact systemCredits_amount he
  refine ⟨fun c hc => ?_, sum_amounts_le fun c hc => hone c (List.mem_of_mem_filter hc)⟩
  rw [hone c hc]
  exact ⟨rfl, proofReward_bounds c.height c.halvingInterval c.age⟩

/-! ### On a small chain -/

/-- A system proof of the provider for deal 0. -/
def systemProofMsg (proof : ChainedProof) : MsgProveLiveness where
  creator := providerText
  dealId := 0
  epochId := 1
  proofType := .systemProof (some proof)

/-- The same proof for the same epoch, twice in one block: the provider earns two rewards. -/
theorem storage_reward_twice :
    ¬∀ es dealId provider epochId,
      (((trace (apply (sampleProofEnv noKeccak))
          (fun s e => e.systemCredits (sampleProofEnv noKeccak) s)
          (genesis defaultParams sampleBank) es).filter
        (SystemCredit.isFor dealId provider epochId)).map (·.amount)).sum ≤ 1000000 := by
  intro hall
  have htwice := hall (sampleContentRun "General" ++
    [.deliver (ctxAt 2) (.proveLiveness (systemProofMsg (sampleProof 0))),
      .deliver (ctxAt 2) (.proveLiveness (systemProofMsg (sampleProof 0)))]) 0 providerText 1
  exact absurd htwice (by decide +kernel)

/-- One provider, and a deal without content: no proof for it can verify. -/
def emptyDealState : KeeperState Ledger :=
  run (apply (sampleProofEnv noKeccak)) (genesis defaultParams sampleBank)
    [.deliver (ctxAt 1) (registerMsg providerText), .deliver (ctxAt 1) (createMsg 100 "General")]

/-- A rejected proof for a deal that is eleven blocks old is only counted. -/
theorem rejected_proof_iff_emptyDealState :
    OnlyFailureCounted (systemProofMsg (sampleProof 0)) emptyDealState
      (apply (sampleProofEnv noKeccak) emptyDealState
        (.deliver (ctxAt 12) (.proveLiveness (systemProofMsg (sampleProof 0))))) := by
  have hverdict : ((proveLiveness (sampleProofEnv noKeccak) (ctxAt 12)
      (systemProofMsg (sampleProof 0))).exec emptyDealState).1 = .ok ⟨false, 3, "0".toList⟩ := by
    decide +kernel
  have hage : (emptyDealState.deals.get 0).map (dealAge (ctxAt 12)) = some 11 := by decide +kernel
  obtain ⟨s', hexec⟩ := Tx.exists_exec_eq hverdict
  obtain ⟨hs', deal, hget, hiff⟩ := (rejected_proof_iff (sampleProofEnv noKeccak) (ctxAt 12)
    (systemProofMsg (sampleProof 0)) emptyDealState s' _ hexec).2 _ rfl rfl
  have hget : emptyDealState.deals.get 0 = some deal := hget
  rw [hget] at hage
  have hlate : dealAge (ctxAt 12) deal = 11 := Option.some.inj hage
  rw [hs', hiff, hlate]
  exact Or.inl (by decide)

/-- In its first blocks, the deal's provider gains reputation by a proof that is rejected. -/
theorem rejected_proof_earns_reputation :
    ((proveLiveness (sampleProofEnv noKeccak) (ctxAt 2) (systemProofMsg (sampleProof 0))).exec
      emptyDealState).1 = .ok ⟨false, 3, "0".toList⟩ ∧
    (emptyDealState.providers.get providerText).map (·.reputationScore) = some 100 ∧
    ((apply (sampleProofEnv noKeccak) emptyDealState
      (.deliver (ctxAt 2) (.proveLiveness (systemProofMsg (sampleProof 0))))).providers.get
        providerText).map (·.reputationScore) = some 101 := by
  decide +kernel

end NilStore.Chain
