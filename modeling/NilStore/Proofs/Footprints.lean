import NilStore.Proofs.Frames
import NilStore.Proofs.LivenessRewards

/-!
# `NilStore.Proofs.Footprints`: which events write rewards, records and registrations

Beside the stores of `Frames`: rewards are written by proofs and by withdrawals only, proof
summaries by liveness proofs and by cancelled sessions, providers by registrations and by liveness
proofs, and params by the authority. `handle_footprint` says so of every message that succeeds,
`call_footprint` of every call of the precompile, whether it fails or not, and `endBlock_footprint`
of the end of a block.
-/

set_option autoImplicit false

namespace NilStore.Chain

open NilStore.Lib

variable {β : Type}

/-- Rewards, proof summaries, providers and params are as they were. -/
structure RecordsKept (s s' : KeeperState β) : Prop where
  rewards : s'.providerRewards = s.providerRewards
  proofs : s'.proofs = s.proofs
  proofCount : s'.proofCount = s.proofCount
  providers : s'.providers = s.providers
  params : s'.params = s.params

/-- A step that changes nothing keeps the records. -/
theorem RecordsKept.refl (s : KeeperState β) : RecordsKept s s := ⟨rfl, rfl, rfl, rfl, rfl⟩

/-- Steps that keep the records compose. -/
theorem RecordsKept.trans (a b c : KeeperState β) (hab : RecordsKept a b) (hbc : RecordsKept b c) :
    RecordsKept a c :=
  ⟨hbc.rewards.trans hab.rewards, hbc.proofs.trans hab.proofs, hbc.proofCount.trans hab.proofCount,
    hbc.providers.trans hab.providers, hbc.params.trans hab.params⟩

/-- The session messages keep the records. -/
theorem RecordsKept.serves : ServesSessions (RecordsKept (β := β)) where
  refl := RecordsKept.refl
  trans := RecordsKept.trans
  bank _ _ := ⟨rfl, rfl, rfl, rfl, rfl⟩
  escrow _ _ _ _ _ := ⟨rfl, rfl, rfl, rfl, rfl⟩
  sessions _ _ _ _ _ := ⟨rfl, rfl, rfl, rfl, rfl⟩
  heat _ _ := ⟨rfl, rfl, rfl, rfl, rfl⟩

namespace Msg

/-- The message proves liveness or withdraws rewards. -/
def movesRewards : Msg → Prop
  | .proveLiveness _ => True
  | .withdrawRewards _ => True
  | _ => False

/-- The message may store a proof summary. -/
def recordsProof : Msg → Prop
  | .proveLiveness _ => True
  | .cancelRetrievalSession _ => True
  | _ => False

/-- The message may write a provider. -/
def writesProvider : Msg → Prop
  | .registerProvider _ => True
  | .proveLiveness _ => True
  | _ => False

end Msg

/-- What a message leaves alone of rewards, proof summaries, providers and params. -/
structure Footprint (msg : Msg) (s s' : KeeperState β) : Prop where
  rewards : ¬msg.movesRewards → s'.providerRewards = s.providerRewards
  proofs : ¬msg.recordsProof → s'.proofs = s.proofs ∧ s'.proofCount = s.proofCount
  providers : ¬msg.writesProvider → s'.providers = s.providers
  params : (∀ m, msg ≠ .updateParams m) → s'.params = s.params

/-- The message leaves all of them alone. -/
theorem Footprint.of_kept {msg : Msg} {s s' : KeeperState β} (h : RecordsKept s s') :
    Footprint msg s s' :=
  ⟨fun _ => h.rewards, fun _ => ⟨h.proofs, h.proofCount⟩, fun _ => h.providers, fun _ => h.params⟩

section Messages

variable {env : Env β} {ctx : Ctx} {s s' : KeeperState β}

/-- A message that succeeds writes within its footprint: rewards, evidence, proofs and receipts are
each written by the messages that are named for them, and by no other. -/
theorem handle_footprint {msg : Msg} {u : Unit} (h : (handle env ctx msg).exec s = (.ok u, s')) :
    Footprint msg s s' := by
  -- one case for each message, by the frame of its handler
  cases msg with
  | updateParams msg =>
      obtain ⟨-, -, rfl⟩ := updateParams_ok h
      exact ⟨fun _ => rfl, fun _ => ⟨rfl, rfl⟩, fun _ => rfl, fun hno => absurd rfl (hno msg)⟩
  | registerProvider msg =>
      obtain ⟨addr, endpoints, -, rfl⟩ := registerProvider_ok h
      exact ⟨fun _ => rfl, fun _ => ⟨rfl, rfl⟩, fun hno => absurd trivial hno, fun _ => rfl⟩
  | createDeal msg =>
      obtain ⟨r, h⟩ := discard_ok.mp h
      obtain ⟨payer, deal, -, -, -, hframe⟩ := createDeal_ok h
      rw [hframe]
      exact .of_kept ⟨rfl, rfl, rfl, rfl, rfl⟩
  | updateDealContent msg =>
      obtain ⟨payer, deal, root, -, -, hframe⟩ := updateDealContent_ok h
      rw [hframe]
      exact .of_kept ⟨rfl, rfl, rfl, rfl, rfl⟩
  | createDealFromEvm msg =>
      obtain ⟨r, h⟩ := discard_ok.mp h
      obtain ⟨intent, evmAddr, deal, -, -, -, -, -, hframe⟩ := createDealFromEvm_ok h
      rw [hframe]
      exact .of_kept ⟨rfl, rfl, rfl, rfl, rfl⟩
  | updateDealContentFromEvm msg =>
      obtain ⟨intent, evmAddr, deal, root, -, -, -, -, hframe⟩ := updateDealContentFromEvm_ok h
      rw [hframe]
      exact .of_kept ⟨rfl, rfl, rfl, rfl, rfl⟩
  | openRetrievalSession msg =>
      obtain ⟨id, h⟩ := discard_ok.mp h
      exact .of_kept ((keeps_openRetrievalSession RecordsKept.serves msg s).of_exec h)
  | confirmRetrievalSession msg =>
      exact .of_kept ((keeps_confirmRetrievalSession RecordsKept.serves msg s).of_exec h)
  | cancelRetrievalSession msg =>
      obtain ⟨session, -, -, hcanceled⟩ := cancelRetrievalSession_ok h
      -- a cancellation records evidence when the provider has not answered
      cases hcanceled with
      | unchanged => exact .of_kept (.refl s)
      | refunded hstatus hexp hfee hget hevidence =>
          rw [EvidenceOnly] at hevidence
          rw [hevidence]
          exact ⟨fun _ => rfl, fun hno => absurd trivial hno, fun _ => rfl, fun _ => rfl⟩
      | free hstatus hexp hfee hevidence =>
          rw [EvidenceOnly] at hevidence
          rw [hevidence]
          exact ⟨fun _ => rfl, fun hno => absurd trivial hno, fun _ => rfl, fun _ => rfl⟩
  | submitRetrievalSessionProof msg =>
      obtain ⟨session, -, -, -, -, hadvanced⟩ := submitRetrievalSessionProof_ok h
      cases hadvanced with
      | unchanged => exact .of_kept (.refl s)
      | moved hstatus hfinished =>
          cases hfinished <;> exact .of_kept ⟨rfl, rfl, rfl, rfl, rfl⟩
  | proveLiveness msg =>
      obtain ⟨r, h⟩ := discard_ok.mp h
      refine ⟨fun hno => absurd trivial hno, fun hno => absurd trivial hno,
        fun hno => absurd trivial hno, fun _ => ?_⟩
      obtain ⟨deal, stripe, -, -, -, -, ⟨-, hrejected⟩ | ⟨-, hproved⟩⟩ := proveLiveness_ok h
      · rw [hrejected.frame]
      · rw [hproved.frame]
  | signalSaturation msg =>
      obtain ⟨r, h⟩ := discard_ok.mp h
      obtain ⟨deal, -, -, -, rfl⟩ := signalSaturation_ok h
      exact .of_kept ⟨rfl, rfl, rfl, rfl, rfl⟩
  | startSlotRepair msg =>
      obtain ⟨deal, slot, pending, -, -, -, -, -, -, -, -, rfl⟩ := startSlotRepair_ok h
      exact .of_kept ⟨rfl, rfl, rfl, rfl, rfl⟩
  | completeSlotRepair msg =>
      obtain ⟨deal, slot, -, rfl⟩ := completeSlotRepair_ok h
      exact .of_kept ⟨rfl, rfl, rfl, rfl, rfl⟩
  | addCredit msg =>
      obtain ⟨r, h⟩ := discard_ok.mp h
      obtain ⟨payer, deal, amount, b, -, -, -, -, -, -, rfl⟩ := addCredit_ok h
      exact .of_kept ⟨rfl, rfl, rfl, rfl, rfl⟩
  | withdrawRewards msg =>
      obtain ⟨r, h⟩ := discard_ok.mp h
      obtain ⟨addr, b₁, b₂, -, -, -, -, -, rfl⟩ := withdrawRewards_ok h
      exact ⟨fun hno => absurd trivial hno, fun _ => ⟨rfl, rfl⟩, fun _ => rfl, fun _ => rfl⟩

/-- Accumulating a reward writes rewards only. -/
theorem accumulateReward_eq (provider : Str) (reward : Int) (s : KeeperState β) :
    accumulateReward provider reward s =
      { s with providerRewards := (accumulateReward provider reward s).providerRewards } := by
  unfold accumulateReward
  split <;> rfl

/-- What it writes depends on the rewards only. -/
theorem accumulateReward_congr {provider : Str} {reward : Int}
    (h : s'.providerRewards = s.providerRewards) :
    (accumulateReward provider reward s').providerRewards =
      (accumulateReward provider reward s).providerRewards := by
  unfold accumulateReward
  split
  · simp only [h]
  · exact h

/-- The summary of a liveness proof that is stored in this state. -/
def livenessSummary (ctx : Ctx) (msg : MsgProveLiveness) (deal : Deal) (s : KeeperState β) :
    Proof where
  id := s.proofCount
  creator := msg.creator
  commitment := "deal:" ++ toString msg.dealId ++ "/epoch:" ++ toString msg.epochId ++ "/tier:" ++
    (tierOfLatency (dealAge ctx deal)).tierName
  valid := true
  blockHeight := ctx.blockHeight

/-- A liveness proof that succeeds adds to the rewards of its sender and stores its summary. The
tier and the heat are written too, but not in these records. -/
theorem proveLiveness_records {msg : MsgProveLiveness} {r : MsgProveLivenessResponse}
    (h : (proveLiveness env ctx msg).exec s = (.ok r, s')) (hr : r.success = true) :
    ∃ deal, s.deals.get msg.dealId.toNat = some deal ∧
      s'.providerRewards = (accumulateReward msg.creator
        (proofReward ctx.height64 s.getParams.halvingInterval (dealAge ctx deal) +
          msg.proofType.payment) s).providerRewards ∧
      s'.proofs = s.proofs.set s.proofCount (livenessSummary ctx msg deal s) ∧
      s'.proofCount = s.proofCount + 1 := by
  -- the handler, step by step, up to the switch over the type of the proof
  simp only [proveLiveness, Tx.exec_reads_bind_ok, Tx.exec_failIf_bind_ok,
    Tx.exec_ofExcept_bind_ok, Tx.exec_update_bind, Tx.exec_gets_bind, orFail_eq_ok] at h
  obtain ⟨deal, hget, -, stripe, -, -, -, h⟩ := h
  rw [Tx.exec_bind_ok] at h
  obtain ⟨outcome, s₂, hswitch, h⟩ := h
  refine ⟨deal, hget, ?_⟩
  -- The tier touches the providers only, and the switch heat and nonces.
  have htier : tierOfLatency ((ctx.blockHeight : Int) - newInt64 deal.startBlock) =
      tierOfLatency (dealAge ctx deal) := rfl
  rw [htier] at hswitch h
  have hraise := (reputationOnly_rewardTier (tierOfLatency (dealAge ctx deal)) msg.creator s).2
  have hparams : (rewardTier (tierOfLatency (dealAge ctx deal)) msg.creator s).getParams =
      s.getParams := by
    rw [hraise]
    rfl
  obtain ⟨hpay, -, hkeep⟩ := handleProof_ok hswitch
  rw [HeatAndNonces] at hkeep
  by_cases hrejected : outcome = .rejected
  · simp only [if_pos hrejected, Tx.exec_update_bind, Tx.exec_pure, Prod.mk.injEq,
      Except.ok.injEq] at h
    rw [← h.1] at hr
    cases hr
  -- the payment of the type, and the reward of the tier
  · simp only [if_neg hrejected, ProofCall.settleProof, Tx.exec_failIf_bind_ok,
      Tx.exec_update_bind, Tx.exec_pure, Prod.mk.injEq, hpay hrejected] at h
    obtain ⟨-, -, rfl⟩ := h
    have hrewards : s₂.providerRewards = s.providerRewards := by rw [hkeep, hraise]
    have hproofs : s₂.proofs = s.proofs := by rw [hkeep, hraise]
    have hcount : s₂.proofCount = s.proofCount := by rw [hkeep, hraise]
    rw [← hparams]
    refine ⟨accumulateReward_congr hrewards, ?_, ?_⟩
    · show (accumulateReward msg.creator _ s₂).proofs.set
        (accumulateReward msg.creator _ s₂).proofCount
        (⟨(accumulateReward msg.creator _ s₂).proofCount, _, _, _, _⟩ : Proof) = _
      rw [accumulateReward_eq]
      simp only [hproofs, hcount]
      rfl
    · show (accumulateReward msg.creator _ s₂).proofCount + 1 = _
      rw [accumulateReward_eq, hcount]

/-- The end of a block keeps the records. -/
theorem endBlock_footprint (env : Env β) (ctx : Ctx) (s : KeeperState β) :
    RecordsKept s (apply env s (.endBlock ctx)) := by
  have hframe := (checkMissedProofs_spec env ctx s).frame
  rw [apply, hframe]
  exact ⟨rfl, rfl, rfl, rfl, rfl⟩

end Messages

namespace Precompile

variable {env : Env β} {ctx : Ctx} {s s' : KeeperState β}

/-- The bytes that the chunks of a batch say, added as the loop adds them. -/
def batchBytes (bytes : UInt64) (chunks : List Chunk) : UInt64 :=
  chunks.foldl (fun acc chunk => acc + chunk.rangeLen) bytes

/-- The bytes a batch is paid for are those of its chunks. -/
theorem proveChunks_bytes {deal : Deal} {chunks : List Chunk} {bytes bytes' : UInt64}
    (h : (proveChunks env ctx deal bytes chunks).exec s = (.ok bytes', s')) :
    bytes' = batchBytes bytes chunks := by
  induction chunks generalizing bytes s with
  | nil =>
      rw [proveChunks, Tx.exec_pure] at h
      cases h
      rfl
  | cons chunk rest ih =>
      simp only [proveChunks, Tx.exec_ofExcept_bind_ok, Tx.exec_update_bind] at h
      obtain ⟨-, -, hrest⟩ := h
      exact ih hrest

/-- A batch of proofs credits the payment for its bytes to the provider that it names, and is
charged to the escrow. -/
theorem runProveRetrievalBatch_rewards {caller : Bytes} {dealId : UInt64} {provider filePath : Str}
    {nonce : UInt64} {chunks : List Chunk} {out : Output}
    (h : (runProveRetrievalBatch env ctx caller dealId provider filePath nonce chunks).exec s =
      (.ok out, s')) :
    s'.providerRewards = s.providerRewards.set provider
      ((s.providerRewards.get provider).getD 0 + bandwidthPayment (batchBytes 0 chunks)) := by
  rw [runProveRetrievalBatch, Tx.exec_reads_bind_ok] at h
  obtain ⟨deal, -, h⟩ := h
  obtain ⟨bytes, s₁, hchunks, h⟩ := Tx.exec_bind_ok.mp h
  have hheat : HeatOnly s s₁ := (keeps_proveChunks _ _ _ _).of_exec hchunks
  simp only [Tx.exec_failIf_bind_ok, Tx.exec_update_bind, Tx.exec_pure, Prod.mk.injEq] at h
  obtain ⟨-, -, rfl⟩ := h
  rw [HeatOnly] at hheat
  rw [hheat, proveChunks_bytes hchunks]

/-- A call keeps the records, unless it is a batch of proofs that succeeds; that one writes rewards
alone of them. A batch that fails midway has written heat only. -/
theorem call_footprint {input : Input} {res : Except Fault Output}
    (h : (run env ctx input).exec s = (res, s')) :
    RecordsKept s s' ∨ ∃ dealId provider filePath nonce chunks out,
      input.call = .ok (.proveRetrievalBatch dealId provider filePath nonce chunks) ∧
        res = .ok out ∧ RecordsKept { s with providerRewards := s'.providerRewards } s' ∧
        s'.providerRewards = s.providerRewards.set provider
          ((s.providerRewards.get provider).getD 0 + bandwidthPayment (batchBytes 0 chunks)) := by
  -- a call on sessions, on deals, or one of three others
  rcases run_cases h with ⟨-, -, rfl⟩ | ⟨-, call, hcall, hserve⟩
  · exact Or.inl (.refl s')
  · by_cases hsessions : call.servesSessions
    · exact Or.inl (serve_within (.of_serves RecordsKept.serves) hserve hsessions)
    · by_cases hdeals : call.servesDeals
      · rw [serve_deals_frame hserve hdeals]
        exact Or.inl ⟨rfl, rfl, rfl, rfl, rfl⟩
      · cases call with
        | proveRetrievalBatch dealId provider filePath nonce chunks =>
            cases res with
            | ok out =>
                refine Or.inr ⟨dealId, provider, filePath, nonce, chunks, out, hcall, rfl, ?_,
                  runProveRetrievalBatch_rewards hserve⟩
                obtain ⟨deal, amount, -, -, hframe⟩ := runProveRetrievalBatch_ok hserve
                rw [hframe]
                exact ⟨rfl, rfl, rfl, rfl, rfl⟩
            | error e =>
                have hheat := runProveRetrievalBatch_fails hserve
                rw [HeatOnly] at hheat
                rw [hheat]
                exact Or.inl ⟨rfl, rfl, rfl, rfl, rfl⟩
        | computeRetrievalSessions sessions =>
            cases (Prod.mk.inj hserve).2
            exact Or.inl (.refl _)
        | computeRetrievalSessionIds sessions =>
            cases (Prod.mk.inj hserve).2
            exact Or.inl (.refl _)
        | createDeal duration hint escrow spend => exact absurd trivial hdeals
        | updateDealContent dealId root size => exact absurd trivial hdeals
        | openRetrievalSession session => exact absurd trivial hsessions
        | openRetrievalSessions sessions => exact absurd trivial hsessions
        | confirmRetrievalSession sessionId => exact absurd trivial hsessions
        | confirmRetrievalSessions sessionIds => exact absurd trivial hsessions

end Precompile

end NilStore.Chain
