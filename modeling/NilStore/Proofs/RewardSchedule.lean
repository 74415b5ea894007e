import Mathlib.Algebra.Order.Floor.Semiring
import Mathlib.Data.Rat.Floor
import NilStore.Lib.Faults
import NilStore.Proofs.NoAbort

/-!
# `NilStore.Proofs.RewardSchedule`: what a proof earns at a height

`rewardAt` is the schedule of the storage rewards: a million, halved once for each interval of the
height, and of that the share of the tier. `RewardsDefined` says that `ProveLiveness` follows it: no
run divides by zero, every proof that is answered with success is told the reward of its height and
latency, and the schedule is bounded and does not grow with the height.

`Params.Validate` does not look at the halving interval (`validateHalvingInterval` is a stub), so it
accepts an interval of zero, and then every proof of a deal panics. `rewardsDefined_iff` says that
this is the only way for the schedule to fail.
-/

set_option autoImplicit false

namespace NilStore.Chain

open NilStore.Lib

variable {β : Type}

/-! ### The schedule -/

/-- The share of the reward that a proof of a latency has. -/
def latencyShare (latency : Int) : ℚ :=
  if latency ≤ 1 then 1
  else if latency ≤ 5 then 4 / 5
  else if latency ≤ 10 then 1 / 2
  else 0

/-- A million, halved once for each interval. -/
def decayedReward (halvingInterval height : Nat) : Int :=
  ⌊(1000000 : ℚ) / 2 ^ (height / halvingInterval)⌋

/-- The reward of a proof of a height and a latency. -/
def rewardAt (halvingInterval height : Nat) (latency : Int) : Int :=
  ⌊latencyShare latency * decayedReward halvingInterval height⌋

/-- The decayed reward as a formula: the base reward, halved once for each full interval. -/
theorem decayedReward_eq (halvingInterval height : Nat) :
    decayedReward halvingInterval height = 1000000 / 2 ^ (height / halvingInterval) := by
  have hfloor := Rat.floor_intCast_div_natCast 1000000 (2 ^ (height / halvingInterval))
  push_cast at hfloor
  rw [decayedReward, hfloor]

/-- The share of a late proof is not negative. -/
theorem latencyShare_nonneg (latency : Int) : 0 ≤ latencyShare latency := by
  rw [latencyShare]
  split_ifs <;> norm_num

/-- No proof has more than the whole reward. -/
theorem latencyShare_le_one (latency : Int) : latencyShare latency ≤ 1 := by
  rw [latencyShare]
  split_ifs <;> norm_num

/-- The units of the multiplier are `10 ^ -18`. -/
theorem rewardMultiplier_eq (latency : Int) :
    ((tierOfLatency latency).rewardMultiplier : ℚ) = latencyShare latency * 10 ^ 18 := by
  rw [tierOfLatency, latencyShare]
  split
  · norm_num
  · split
    · norm_num
    · split <;> norm_num

/-- The code's arithmetic, with its bound on the shift and its decimals, is the schedule. The source
divides twice, by the power and by the decimals, and only the second one rounds what counts. -/
theorem proofReward_eq (ctx : Ctx) (halvingInterval : UInt64) (latency : Int) :
    proofReward ctx.height64 halvingInterval latency =
      rewardAt halvingInterval.toNat ctx.blockHeight latency := by
  -- From the 64th halving on, the quotient is zero as well.
  have hdecay : (if 64 ≤ (ctx.height64 / halvingInterval).toNat then (0 : Int)
      else 1000000 / 2 ^ (ctx.height64 / halvingInterval).toNat) =
        decayedReward halvingInterval.toNat ctx.blockHeight := by
    rw [decayedReward_eq, UInt64.toNat_div, Ctx.toNat_height64]
    split
    · rename_i hlarge
      have hpow : (2 : Int) ^ 64 ≤ 2 ^ (ctx.blockHeight / halvingInterval.toNat) :=
        pow_le_pow_right₀ (by decide) hlarge
      exact (Int.ediv_eq_zero_of_lt (by decide) (lt_of_lt_of_le (by decide) hpow)).symm
    · rfl
  simp only [proofReward, storageReward, hdecay]
  -- the decimals of the multiplier are a fraction
  have hshare := rewardMultiplier_eq latency
  have hfloor := Rat.floor_intCast_div_natCast
    (decayedReward halvingInterval.toNat ctx.blockHeight * (tierOfLatency latency).rewardMultiplier)
    (10 ^ 18)
  simp only [Int.cast_mul, Nat.cast_pow, Nat.cast_ofNat] at hfloor
  rw [← hfloor, rewardAt, hshare]
  congr 1
  ring

/-- The decayed reward is at most the base reward. -/
theorem decayedReward_le (halvingInterval height : Nat) :
    decayedReward halvingInterval height ≤ 1000000 := by
  rw [decayedReward_eq]
  exact Int.ediv_le_self _ (by decide)

/-- The reward does not grow with the height. -/
theorem decayedReward_antitone {halvingInterval height later : Nat} (h : height ≤ later) :
    decayedReward halvingInterval later ≤ decayedReward halvingInterval height := by
  have hexp : height / halvingInterval ≤ later / halvingInterval := Nat.div_le_div_right h
  refine Int.floor_le_floor ?_
  gcongr
  norm_num

/-- A reward of the schedule is at most a million. -/
theorem rewardAt_le (halvingInterval height : Nat) (latency : Int) :
    0 ≤ rewardAt halvingInterval height latency ∧
      rewardAt halvingInterval height latency ≤ 1000000 := by
  have hdecayed : (0 : ℚ) ≤ decayedReward halvingInterval height := by
    have hnonneg : 0 ≤ decayedReward halvingInterval height := by
      rw [decayedReward_eq]
      positivity
    exact_mod_cast hnonneg
  constructor
  · exact Int.floor_nonneg.mpr (mul_nonneg (latencyShare_nonneg latency) hdecayed)
  · have hmul : latencyShare latency * decayedReward halvingInterval height ≤
        1 * decayedReward halvingInterval height :=
      mul_le_mul_of_nonneg_right (latencyShare_le_one latency) hdecayed
    rw [one_mul] at hmul
    have hfloor := Int.floor_le_floor hmul
    rw [Int.floor_intCast] at hfloor
    exact hfloor.trans (decayedReward_le halvingInterval height)

/-- The schedule does not grow with the height. -/
theorem rewardAt_antitone {halvingInterval height later : Nat} (latency : Int)
    (h : height ≤ later) :
    rewardAt halvingInterval later latency ≤ rewardAt halvingInterval height latency := by
  refine Int.floor_le_floor (mul_le_mul_of_nonneg_left ?_ (latencyShare_nonneg latency))
  exact_mod_cast decayedReward_antitone h

/-! ### The run -/

/-- The panic of a division by zero. -/
def divideByZero : Fault := .panic "integer divide by zero"

/-- A fault that is not a panic. -/
def Fault.NoPanic (f : Fault) : Prop := ∀ text, f ≠ .panic text

/-- An ordinary error is no panic. -/
theorem noPanic_err (code : SdkError) (text : String) : Fault.NoPanic (.err code text) := by
  intro text' h
  cases h

section Switch

variable {c : ProofCall β}

/-- The lookup of the proof does not panic. -/
theorem faultsIn_requireProof (proof : ChainedProof) :
    FaultsIn Fault.NoPanic (c.requireProof proof) := by
  refine faultsIn_bind (fun e he => ?_) fun ok => faultsIn_rejectIf (noPanic_err _ _)
  rw [verifyLivenessProof] at he
  cases hverify : guardedVerify c.env.kzgCtx (livenessGuard c.deal c.stripe c.msg.creator)
      c.deal.manifestRoot c.stripe.leafCount proof with
  | verdict ok =>
      rw [hverify] at he
      cases he
  | failed text =>
      rw [hverify] at he
      cases he
      exact noPanic_err _ _
  | panicked text => exact absurd hverify (guardedVerify_ne_panicked _ text)
  | aborted =>
      rw [hverify] at he
      cases he
      exact fun text => nofun

/-- The check of an envelope does not panic. -/
theorem faultsIn_checkEnvelope (name : String) (dealId epochId : UInt64) (provider filePath : Str) :
    FaultsIn Fault.NoPanic (c.checkEnvelope name dealId epochId provider filePath) :=
  faultsIn_bind (faultsIn_rejectIf (noPanic_err _ _)) fun _ =>
    faultsIn_bind (faultsIn_rejectIf (noPanic_err _ _)) fun _ =>
      faultsIn_bind (faultsIn_rejectIf (noPanic_err _ _)) fun _ =>
        faultsIn_bind (faultsIn_rejectIf (noPanic_err _ _)) fun _ =>
          faultsIn_rejectIf (noPanic_err _ _)

/-- The check of a nonce does not panic. -/
theorem faultsIn_checkFresh (name : String) (expiresAt nonce : UInt64) (filePath : Str)
    (nonces : KVStore (Nat ×ₗ Str) UInt64) :
    FaultsIn Fault.NoPanic (c.checkFresh name expiresAt nonce filePath nonces) :=
  faultsIn_bind (faultsIn_rejectIf (noPanic_err _ _)) fun _ => faultsIn_rejectIf (noPanic_err _ _)

/-- The check of a receipt's signature does not panic. -/
theorem faultsIn_checkReceiptSignature (receipt : RetrievalReceipt) :
    FaultsIn Fault.NoPanic (c.checkReceiptSignature receipt) := by
  simp only [ProofCall.checkReceiptSignature]
  split
  · exact faultsIn_pure ()
  · exact faultsIn_bind (faultsIn_orFail (noPanic_err _ _)) fun _ =>
      faultsIn_bind (faultsIn_orFail (noPanic_err _ _)) fun _ =>
        faultsIn_rejectIf (noPanic_err _ _)

/-- The checks of a receipt do not panic. -/
theorem faultsIn_checkReceipt (receipt : RetrievalReceipt)
    (nonces : KVStore (Nat ×ₗ Str) UInt64) :
    FaultsIn Fault.NoPanic (c.checkReceipt receipt nonces) :=
  faultsIn_bind (faultsIn_checkEnvelope _ _ _ _ _) fun _ =>
    faultsIn_bind (faultsIn_rejectIf (noPanic_err _ _)) fun _ =>
      faultsIn_bind (faultsIn_rejectIf (noPanic_err _ _)) fun _ =>
        faultsIn_bind (faultsIn_checkFresh _ _ _ _ _) fun _ =>
          faultsIn_bind (faultsIn_requireProof _) fun _ => faultsIn_checkReceiptSignature receipt

/-- The handling of a receipt does not panic. -/
theorem faultsIn_verifyRetrievalReceipt (bytes : UInt64) (receipt : RetrievalReceipt) :
    Tx.FaultsIn Fault.NoPanic (c.verifyRetrievalReceipt bytes receipt) :=
  Tx.faultsIn_bind (Tx.faultsIn_reads fun _ => faultsIn_checkReceipt _ _) fun _ =>
    Tx.faultsIn_bind (Tx.faultsIn_update _) fun _ =>
      Tx.faultsIn_bind (Tx.faultsIn_failIf (noPanic_err _ _)) fun _ =>
        Tx.faultsIn_bind (Tx.faultsIn_update _) fun _ => Tx.faultsIn_pure _

/-- The handling of a batch does not panic. -/
theorem faultsIn_verifyReceipts (receipts : List RetrievalReceipt) (bytes : UInt64) :
    Tx.FaultsIn Fault.NoPanic (c.verifyReceipts bytes receipts) := by
  induction receipts generalizing bytes with
  | nil => exact Tx.faultsIn_pure _
  | cons receipt rest ih =>
      exact Tx.faultsIn_bind (faultsIn_verifyRetrievalReceipt bytes receipt) fun bytes' => ih bytes'

/-- The checks of a chunk do not panic. -/
theorem faultsIn_checkChunk (receipt : DownloadSessionReceipt) (seen : List UInt32)
    (chunk : SessionChunkProof) : FaultsIn Fault.NoPanic (c.checkChunk receipt seen chunk) :=
  faultsIn_bind (faultsIn_rejectIf (noPanic_err _ _)) fun _ =>
    faultsIn_bind (faultsIn_rejectIf (noPanic_err _ _)) fun _ =>
      faultsIn_bind (faultsIn_rejectIf (noPanic_err _ _)) fun _ =>
        faultsIn_bind (faultsIn_requireProof _) fun _ => faultsIn_rejectIf (noPanic_err _ _)

/-- The handling of the chunks does not panic. -/
theorem faultsIn_verifyChunks (receipt : DownloadSessionReceipt) (chunks : List SessionChunkProof)
    (seen : List UInt32) (bytes : UInt64) :
    Tx.FaultsIn Fault.NoPanic (c.verifyChunks receipt seen bytes chunks) := by
  induction chunks generalizing seen bytes with
  | nil => exact Tx.faultsIn_pure _
  | cons chunk rest ih =>
      exact Tx.faultsIn_bind (Tx.faultsIn_ofExcept (faultsIn_checkChunk _ _ _)) fun _ =>
        Tx.faultsIn_bind (Tx.faultsIn_failIf (noPanic_err _ _)) fun _ =>
          Tx.faultsIn_bind (Tx.faultsIn_update _) fun _ => ih _ _

/-- The checks of a session receipt do not panic. -/
theorem faultsIn_checkSessionReceipt (proof : RetrievalSessionProof)
    (nonces : KVStore (Nat ×ₗ Str) UInt64) :
    FaultsIn Fault.NoPanic (c.checkSessionReceipt proof nonces) :=
  faultsIn_bind (faultsIn_checkEnvelope _ _ _ _ _) fun _ =>
    faultsIn_bind (faultsIn_rejectIf (noPanic_err _ _)) fun _ =>
      faultsIn_bind (faultsIn_rejectIf (noPanic_err _ _)) fun _ =>
        faultsIn_bind (faultsIn_rejectIf (noPanic_err _ _)) fun _ =>
          faultsIn_bind (faultsIn_checkFresh _ _ _ _ _) fun _ =>
            faultsIn_bind (faultsIn_rejectIf (noPanic_err _ _)) fun _ =>
              faultsIn_bind (faultsIn_orFail (noPanic_err _ _)) fun _ =>
                faultsIn_bind (faultsIn_rejectIf (noPanic_err _ _)) fun _ =>
                  faultsIn_rejectIf (noPanic_err _ _)

/-- The handling of a session proof does not panic. -/
theorem faultsIn_verifySession (proof : RetrievalSessionProof) :
    Tx.FaultsIn Fault.NoPanic (c.verifySession proof) :=
  Tx.faultsIn_bind (Tx.faultsIn_reads fun _ => faultsIn_checkSessionReceipt _ _) fun _ =>
    Tx.faultsIn_bind (faultsIn_verifyChunks _ _ _ _) fun _ =>
      Tx.faultsIn_bind (Tx.faultsIn_failIf (noPanic_err _ _)) fun _ =>
        Tx.faultsIn_bind (Tx.faultsIn_update _) fun _ => Tx.faultsIn_pure _

/-- The handling of a system proof does not panic. -/
theorem faultsIn_verifySystemProof (proof : Option ChainedProof) :
    FaultsIn Fault.NoPanic (c.verifySystemProof proof) := by
  intro e he
  cases proof with
  | none => cases he
  | some p =>
      rw [ProofCall.verifySystemProof, verifyLivenessProof] at he
      cases hverify : guardedVerify c.env.kzgCtx (livenessGuard c.deal c.stripe c.msg.creator)
          c.deal.manifestRoot c.stripe.leafCount p with
      | verdict ok =>
          simp only [hverify] at he
          cases ok <;> cases he
      | failed text =>
          simp only [hverify] at he
          cases he
      | panicked text => exact absurd hverify (guardedVerify_ne_panicked _ text)
      | aborted =>
          simp only [hverify] at he
          cases he
          exact fun text => by simp

/-- The switch on the proof type never panics. -/
theorem faultsIn_handleProof : Tx.FaultsIn Fault.NoPanic c.handleProof := by
  rw [ProofCall.handleProof]
  cases c.msg.proofType with
  | systemProof proof => exact Tx.faultsIn_ofExcept (faultsIn_verifySystemProof proof)
  | userReceipt receipt =>
      cases receipt with
      | none => exact Tx.faultsIn_throw (noPanic_err _ _)
      | some receipt =>
          exact Tx.faultsIn_bind (faultsIn_verifyRetrievalReceipt _ _) fun _ => Tx.faultsIn_pure _
  | userReceiptBatch receipts =>
      exact Tx.faultsIn_bind (Tx.faultsIn_failIf (noPanic_err _ _)) fun _ =>
        Tx.faultsIn_bind (faultsIn_verifyReceipts _ _) fun _ => Tx.faultsIn_pure _
  | sessionProof proof =>
      cases proof with
      | none => exact Tx.faultsIn_throw (noPanic_err _ _)
      | some proof =>
          exact Tx.faultsIn_bind (faultsIn_verifySession _) fun _ => Tx.faultsIn_pure _
  | unset => exact Tx.faultsIn_throw (noPanic_err _ _)

/-- Settling a proof does not panic. -/
theorem faultsIn_settleProof (tier : Tier) (outcome : ProofOutcome) (reward : Int) :
    Tx.FaultsIn Fault.NoPanic (c.settleProof tier outcome reward) :=
  Tx.faultsIn_bind (Tx.faultsIn_failIf (noPanic_err _ _)) fun _ =>
    Tx.faultsIn_bind (Tx.faultsIn_update _) fun _ =>
      Tx.faultsIn_bind (Tx.faultsIn_update _) fun _ =>
        Tx.faultsIn_bind (Tx.faultsIn_update _) fun _ =>
          Tx.faultsIn_bind (Tx.faultsIn_update _) fun _ => Tx.faultsIn_pure _

end Switch

/-- With an interval, the handler never panics. -/
theorem proveLiveness_noPanic {env : Env β} {ctx : Ctx} {msg : MsgProveLiveness}
    {s s' : KeeperState β} {f : Fault} (hinterval : s.getParams.halvingInterval ≠ 0)
    (h : (proveLiveness env ctx msg).exec s = (.error f, s')) : f.NoPanic := by
  simp only [proveLiveness, Tx.exec_reads_bind_error, Tx.exec_failIf_bind_error,
    Tx.exec_ofExcept_bind_error, Tx.exec_update_bind, Tx.exec_gets_bind] at h
  rcases h with ⟨h, -⟩ | ⟨deal, -, ⟨-, rfl, -⟩ | ⟨-, ⟨h, -⟩ | ⟨stripe, -, ⟨-, rfl, -⟩ |
    ⟨-, ⟨hzero, -, -⟩ | ⟨-, h⟩⟩⟩⟩⟩
  · exact faultsIn_orFail (noPanic_err _ _) f h
  · exact noPanic_err _ _
  · exact faultsIn_mapError (fun _ => noPanic_err _ _) f h
  · exact noPanic_err _ _
  · -- The tier does not touch the params.
    have hraise := (reputationOnly_rewardTier
      (tierOfLatency ((ctx.blockHeight : Int) - newInt64 deal.startBlock)) msg.creator s).2
    rw [hraise] at hzero
    exact absurd hzero hinterval
  · refine Tx.faultsIn_bind faultsIn_handleProof (fun outcome => ?_) _ _ _ h
    refine Tx.faultsIn_ite ?_ (faultsIn_settleProof _ _ _)
    exact Tx.faultsIn_bind (Tx.faultsIn_update _) fun _ => Tx.faultsIn_pure _

/-- The rewards are well defined under these params: the computation never divides by zero, a proof
that is answered with success is told and credited the reward of its height and latency (and what
its message is charged), and the schedule is bounded and does not grow. -/
structure RewardsDefined (env : Env β) (params : Params) : Prop where
  neverDivides : ∀ ctx msg (s : KeeperState β), s.getParams = params →
    ((proveLiveness env ctx msg).exec s).1 ≠ .error divideByZero
  follows : ∀ ctx msg s s' r, s.getParams = params →
    (proveLiveness env ctx msg).exec s = (.ok r, s') → r.success = true →
      ∃ deal reward, s.deals.get msg.dealId.toNat = some deal ∧
        reward = rewardAt params.halvingInterval.toNat ctx.blockHeight (dealAge ctx deal) ∧
        r.rewardAmount = decimal (reward + msg.proofType.payment) ∧
        s'.rewardsOf msg.creator = s.rewardsOf msg.creator + (reward + msg.proofType.payment)
  bounded : ∀ height latency, 0 ≤ rewardAt params.halvingInterval.toNat height latency ∧
    rewardAt params.halvingInterval.toNat height latency ≤ 1000000
  antitone : ∀ height later latency, height ≤ later →
    rewardAt params.halvingInterval.toNat later latency ≤
      rewardAt params.halvingInterval.toNat height latency

/-! ### An interval of zero -/

/-- The deal of an owner with one provider. -/
def oneProviderDeal (ctx : Ctx) (provider : Str) : Deal :=
  newDeal ctx 0 provider 0 0 1 { raw := "General".toList, base := "General".toList } 1 [provider]

/-- A chain with these params and this one deal. -/
def oneDealState (b : β) (params : Params) (deal : Deal) : KeeperState β :=
  { KeeperState.empty b with
    params := some params
    deals := KVStore.empty.set 0 deal }

/-- The message that proves nothing for deal 0. -/
def emptyProofMsg (provider : Str) : MsgProveLiveness where
  creator := provider
  dealId := 0
  epochId := 1
  proofType := .systemProof none

/-- With an interval of zero, the proof of a deal's provider panics. The check of the stripe and of
the membership come first, and both are met here. -/
theorem divides_by_zero (env : Env β) (b : β) {params : Params} (ctx : Ctx) (provider : Str)
    (hzero : params.halvingInterval = 0) :
    ((proveLiveness env ctx (emptyProofMsg provider)).exec
      (oneDealState b params (oneProviderDeal ctx provider))).1 = .error divideByZero := by
  -- the deal, its stripe and its provider
  have hget : (oneDealState b params (oneProviderDeal ctx provider)).deals.get 0 =
      some (oneProviderDeal ctx provider) := KVStore.get_set_self _ _ _
  have hstripe : stripeParamsForDeal (oneProviderDeal ctx provider) = .ok mode1StripeParams := by
    have hhint : parseServiceHint "General".toList =
        .ok { raw := "General".toList, base := "General".toList } := by decide +kernel
    show (parseServiceHint "General".toList >>= _) = _
    rw [hhint]
    rfl
  have hmem : provider ∈ (oneProviderDeal ctx provider).providers := List.mem_singleton.mpr rfl
  -- the steps up to the division
  have hexec : (proveLiveness env ctx (emptyProofMsg provider)).exec
      (oneDealState b params (oneProviderDeal ctx provider)) = (.error divideByZero,
        rewardTier (tierOfLatency ((ctx.blockHeight : Int) -
          newInt64 (oneProviderDeal ctx provider).startBlock)) provider
            (oneDealState b params (oneProviderDeal ctx provider))) := by
    have hraise := (reputationOnly_rewardTier
      (tierOfLatency ((ctx.blockHeight : Int) - newInt64 (oneProviderDeal ctx provider).startBlock))
      provider (oneDealState b params (oneProviderDeal ctx provider))).2
    simp only [proveLiveness, Tx.exec_reads_bind_error, Tx.exec_failIf_bind_error,
      Tx.exec_ofExcept_bind_error, Tx.exec_update_bind, Tx.exec_gets_bind]
    refine Or.inr ⟨_, orFail_eq_ok.mpr hget, Or.inr ⟨not_not.mpr hmem, Or.inr ⟨_,
      mapError_eq_ok.mpr hstripe, Or.inr ⟨?_, Or.inl ⟨?_, rfl, rfl⟩⟩⟩⟩⟩
    · -- Mode 1 has no slots to repair.
      show ¬(slotRepairing _ mode1StripeParams _) = true
      exact Bool.false_ne_true
    · show (rewardTier _ _ _).getParams.halvingInterval = 0
      rw [show (emptyProofMsg provider).creator = provider from rfl, hraise]
      exact hzero
  rw [hexec]

/-- **The rewards are well defined** exactly when the halving interval is not zero. Then the
division is defined, an accepted proof is credited what the schedule says, between nothing and a
million, and the schedule does not rise with the height. -/
theorem rewardsDefined_iff (env : Env β) (b : β) (params : Params) :
    RewardsDefined env params ↔ params.halvingInterval ≠ 0 := by
  constructor
  · intro hdefined hzero
    let ctx : Ctx := ⟨0, by decide, [], []⟩
    exact hdefined.neverDivides ctx (emptyProofMsg [])
      (oneDealState b params (oneProviderDeal ctx []))
      rfl (divides_by_zero env b ctx [] hzero)
  · intro hinterval
    refine ⟨?_, ?_, fun height latency => rewardAt_le _ height latency,
      fun height later latency hle => rewardAt_antitone latency hle⟩
    · intro ctx msg s hparams herror
      obtain ⟨s', hexec⟩ := Tx.exists_exec_eq herror
      exact proveLiveness_noPanic (hparams ▸ hinterval) hexec _ rfl
    · intro ctx msg s s' r hparams hexec hr
      obtain ⟨deal, reward, hget, rfl, htold, hcredited⟩ := proveLiveness_credited hexec hr
      rw [hparams, proofReward_eq] at htold hcredited
      exact ⟨deal, _, hget, rfl, htold, hcredited⟩

/-- The default params, with an interval of zero. -/
def zeroIntervalParams : Params := { defaultParams with halvingInterval := 0 }

/-- They are accepted, and the first proof of a deal divides by zero. -/
theorem zeroInterval_divides : zeroIntervalParams.validate = .ok () ∧
    ¬RewardsDefined (sampleProofEnv noKeccak) zeroIntervalParams := by
  refine ⟨by decide, fun hdefined => ?_⟩
  exact hdefined.neverDivides (ctxAt 1) (emptyProofMsg providerText)
    (oneDealState sampleBank zeroIntervalParams (oneProviderDeal (ctxAt 1) providerText)) rfl
    (divides_by_zero _ sampleBank (ctxAt 1) providerText rfl)

end NilStore.Chain
