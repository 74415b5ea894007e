import NilStore.Chain.Ledger
import NilStore.Proofs.ConfirmFailures

/-!
# `NilStore.Proofs.CallAtomicity`: which failing calls of the precompile leave no trace

The handlers were written for a message server that drops what a failing message wrote, and the
precompile calls them without that. `Call.LeavesNoTrace` says for each method when a failure leaves
everything as it was, and `failed_call_unchanged_iff` that this is exactly when.

A creation charges its fee first (`CreationWhole`). A batch of proofs counts the heat of a chunk
before it looks at the next one (`BatchWhole`). Openings and confirmations are in `OpeningFailures`
and `ConfirmFailures`.
-/

set_option autoImplicit false

namespace NilStore.Chain

open NilStore.Lib

variable {β : Type}

/-! ### Creating a deal -/

/-- What `CreateDeal` checks after the fee, with the escrow to pay. -/
def creationChecks (env : Env β) (ctx : Ctx) (msg : MsgCreateDeal) (dealId : Nat)
    (providers : KVStore Str Provider) : Except Fault Int := do
  let hint ← (parseServiceHint (trimSpace msg.serviceHint)).mapError errInvalidRequest
  let _ ← dealOwner env.codec msg.creator hint
  let stripe ← requestedStripe hint
  let _ ← (assignProviders env (UInt64.ofNat dealId) ctx.lastBlockHash hint.base stripe.1
    providers).mapError (wrapf "failed to assign providers: ")
  rejectIf (msg.durationBlocks = 0) (errInvalidRequest "Deal duration cannot be zero")
  rejectIf (¬validHintBase hint.base)
    (errInvalidRequest ("invalid service hint: " ++ fmtS hint.base))
  let escrow ← nonNegative msg.initialEscrowAmount "invalid initial escrow amount: "
  let _ ← nonNegative msg.maxMonthlySpend "invalid max monthly spend: "
  return escrow

/-- Where the fee takes coins away, the rest of the creation goes through: the checks pass, and the
escrow can be paid. -/
def CreationWhole (env : Env β) (ctx : Ctx) (msg : MsgCreateDeal) (s : KeeperState β) : Prop :=
  ∀ payer b, env.codec.accAddressFromBech32 msg.creator = some payer →
    payer ≠ env.bank.moduleAddress feeCollectorName → TakesCreationFee env ctx msg s b →
    (∀ code text, creationChecks env ctx msg s.dealCount s.providers ≠ .error (.err code text)) ∧
      ∀ escrow, creationChecks env ctx msg s.dealCount s.providers = .ok escrow →
        (env.bank.sendCoinsFromAccountToModule ctx b payer moduleName (bondCoin escrow)).isSome

section Creation

variable {env : Env β} {ctx : Ctx} {msg : MsgCreateDeal} {s s' : KeeperState β}

/-- The handler fails as the check does, or by what the second relation says where the check passes,
and writes nothing then. -/
def FailsAs {α γ : Type} (x : Handler β α) (check : Except Fault γ) (r : γ → Fault → Prop)
    (s : KeeperState β) : Prop :=
  ∀ e s', x.exec s = (.error e, s') ↔ s' = s ∧ (check = .error e ∨ ∃ a, check = .ok a ∧ r a e)

section FailsAs

variable {α γ δ : Type} {g : δ → Handler β α} {f : δ → Except Fault γ} {r : γ → Fault → Prop}

/-- A pure check fails the same way in both computations, so only what follows counts. -/
theorem failsAs_ofExcept_bind {x : Except Fault δ} (h : ∀ a, x = .ok a → FailsAs (g a) (f a) r s) :
    FailsAs (Tx.ofExcept x >>= g) (x >>= f) r s := by
  intro e s'
  cases x with
  | error e' =>
      constructor
      · intro hexec
        cases hexec
        exact ⟨rfl, .inl rfl⟩
      · rintro ⟨rfl, heq | ⟨a, heq, -⟩⟩
        · cases heq
          rfl
        · cases heq
  | ok a => exact h a rfl e s'

/-- A check of the state fails the same way in both computations, so only what follows counts. -/
theorem failsAs_reads_bind {x : KeeperState β → Except Fault δ}
    (h : ∀ a, x s = .ok a → FailsAs (g a) (f a) r s) : FailsAs (Tx.reads x >>= g) (x s >>= f) r s :=
  failsAs_ofExcept_bind h

/-- A guard fails the same way in both computations, so only what follows counts. -/
theorem failsAs_failIf_bind {c : Prop} [Decidable c] {e₀ : Fault} {g : Unit → Handler β α}
    {f : Unit → Except Fault γ} (h : ¬c → FailsAs (g ()) (f ()) r s) :
    FailsAs (Tx.failIf c e₀ >>= g) (rejectIf c e₀ >>= f) r s := by
  have hsame : (Tx.failIf c e₀ >>= g).exec s = (Tx.ofExcept (rejectIf c e₀) >>= g).exec s := by
    rw [Tx.exec_bind, Tx.exec_failIf, Tx.exec_bind, Tx.exec_ofExcept, rejectIf]
  intro e s'
  rw [hsame]
  exact failsAs_ofExcept_bind (fun u hu => h (rejectIf_eq_ok.mp hu)) e s'

end FailsAs

/-- How a creation fails after its fee: at one of the checks that follow, or when the escrow cannot
be taken. In both cases the fee and the number of the deal are gone. -/
theorem createDeal_error_iff {payer : Bytes} {b : β} {e : Fault}
    (haddr : env.codec.accAddressFromBech32 msg.creator = some payer)
    (hlong : ¬(0 < s.getParams.minDurationBlocks ∧
      msg.durationBlocks < s.getParams.minDurationBlocks))
    (hfee : FeePaid env ctx s.getParams payer s.bank b) :
    (createDeal env ctx msg).exec s = (.error e, s') ↔
      s' = { s with bank := b, dealCount := s.dealCount + 1 } ∧
        (creationChecks env ctx msg s.dealCount s.providers = .error e ∨
          ∃ escrow, creationChecks env ctx msg s.dealCount s.providers = .ok escrow ∧
            env.bank.sendCoinsFromAccountToModule ctx b payer moduleName (bondCoin escrow) = none ∧
            e = errInsufficientFunds "failed to send coins") := by
  -- the fee, as `FeePaid` has it
  have hpaid : (payDealCreationFee env ctx s.getParams payer).exec s =
      (.ok (), { s with bank := b }) := by
    rw [FeePaid] at hfee
    rw [payDealCreationFee, Tx.exec_ite]
    split
    · rename_i hcharges
      rw [if_pos hcharges] at hfee
      exact bankCall_ok.mpr ⟨b, hfee, rfl⟩
    · rename_i hfree
      rw [if_neg hfree] at hfee
      rw [← hfee]
      rfl
  rw [createDeal, Tx.exec_bind, Tx.exec_ofExcept, orFail_eq_ok.mpr haddr]
  simp only
  rw [Tx.exec_gets_bind, Tx.exec_bind, Tx.exec_failIf, if_neg hlong]
  simp only
  rw [Tx.exec_bind, hpaid]
  simp only
  rw [nextDealId_bind]
  -- The rest fails as the checks do, one after the other, or at the payment.
  refine (?_ : FailsAs _ (creationChecks env ctx msg s.dealCount s.providers) (fun escrow e =>
    env.bank.sendCoinsFromAccountToModule ctx b payer moduleName (bondCoin escrow) = none ∧
      e = errInsufficientFunds "failed to send coins") _) e s'
  rw [creationChecks]
  refine failsAs_ofExcept_bind fun hint _ => ?_
  refine failsAs_ofExcept_bind fun owner _ => ?_
  refine failsAs_ofExcept_bind fun stripe _ => ?_
  refine failsAs_reads_bind fun assigned _ => ?_
  refine failsAs_failIf_bind fun _ => failsAs_failIf_bind fun _ => ?_
  refine failsAs_ofExcept_bind fun escrow _ => failsAs_ofExcept_bind fun spend _ => ?_
  -- the escrow is the last step that can fail
  intro e s'
  constructor
  · intro hexec
    rcases bankCall_bind_error.mp hexec with ⟨hsend, rfl, rfl⟩ | ⟨b', -, hlast⟩
    · exact ⟨rfl, .inr ⟨escrow, rfl, hsend, rfl⟩⟩
    · cases hlast
  · rintro ⟨rfl, hcheck | ⟨escrow', hcheck, hsend, rfl⟩⟩
    · cases hcheck
    · cases hcheck
      exact bankCall_bind_error.mpr (.inl ⟨hsend, rfl, rfl⟩)

/-- A creation leaves no trace when it fails, if and only if it is whole: the payer who can pay the
fee passes the later checks and can pay the escrow too. The bridge does not roll back what a failed
creation has written. -/
theorem createDeal_clean_iff : FailsClean env (createDeal env ctx msg) s ↔
    CreationWhole env ctx msg s := by
  constructor
  -- a fee that is gone would be the trace
  · rintro hclean payer b haddr hne htakes
    obtain ⟨payer', hpayer', hlong, hcharges, hsend⟩ := htakes
    rw [haddr] at hpayer'
    cases hpayer'
    have hfee : FeePaid env ctx s.getParams payer s.bank b := by rwa [FeePaid, if_pos hcharges]
    -- The payer has paid a positive fee.
    have hspent : ∀ {code text}, (createDeal env ctx msg).exec s =
        (.error (.err code text), { s with bank := b, dealCount := s.dealCount + 1 }) → False := by
      intro code text hexec
      have hsame := (hclean code text _ hexec).balances payer s.getParams.dealCreationFee.denom
      have hbalance := env.bank.balance_toModule hsend payer s.getParams.dealCreationFee.denom
      rw [hsame, debit, debit, if_pos ⟨rfl, rfl⟩, if_neg fun h => hne h.1] at hbalance
      have hpos := hcharges.2
      omega
    -- so no check after the fee fails, and the escrow is taken
    refine ⟨fun code text hcheck => ?_, fun escrow hcheck => ?_⟩
    · exact hspent ((createDeal_error_iff haddr hlong hfee).mpr ⟨rfl, .inl hcheck⟩)
    · by_contra hnone
      rw [Option.not_isSome_iff_eq_none] at hnone
      exact hspent
        ((createDeal_error_iff haddr hlong hfee).mpr ⟨rfl, .inr ⟨escrow, hcheck, hnone, rfl⟩⟩)
  · intro hwhole code text s' hexec
    obtain ⟨b, ⟨hframe, -⟩, htakes | ⟨rfl, -⟩⟩ := createDeal_fails hexec
    · obtain ⟨payer, haddr, hlong, hcharges, hsend⟩ := id htakes
      by_cases hne : payer = env.bank.moduleAddress feeCollectorName
      · -- The fee collector pays itself.
        rw [hframe]
        refine ⟨rfl, ⟨rfl, rfl, rfl, rfl⟩, rfl, rfl, rfl, rfl, rfl, fun a d => ?_⟩
        have hbalance := env.bank.balance_toModule hsend a d
        rw [← hne] at hbalance
        simpa using hbalance
      · obtain ⟨hchecks, hescrow⟩ := hwhole payer b haddr hne htakes
        have hfee : FeePaid env ctx s.getParams payer s.bank b := by rwa [FeePaid, if_pos hcharges]
        obtain ⟨-, hcheck | ⟨escrow, hcheck, hnone, -⟩⟩ :=
          (createDeal_error_iff haddr hlong hfee).mp hexec
        · exact absurd hcheck (hchecks code text)
        · have hsome := hescrow escrow hcheck
          rw [hnone] at hsome
          cases hsome
    · rw [hframe]
      exact ⟨rfl, ⟨rfl, rfl, rfl, rfl⟩, rfl, rfl, rfl, rfl, rfl, fun _ _ => rfl⟩

end Creation

/-! ### Proving a batch -/

/-- The bytes that the heat of a deal has counted. -/
def heatBytes (s : KeeperState β) (d : Nat) : UInt64 :=
  ((s.dealHeatStates.get d).getD ⟨0, 0, 0, 0⟩).bytesServedTotal

/-- Counting bytes for a deal adds them to its heat, wrapping as the counter does. -/
theorem heatBytes_incrementHeat (ctx : Ctx) (d : Nat) (bytes : UInt64) (s : KeeperState β) :
    heatBytes (incrementHeat ctx d bytes false s) d = heatBytes s d + bytes := by
  rw [heatBytes, incrementHeat, KVStore.get_set_self]
  rfl

namespace Precompile

/-- The checks of the chunks, one after the other. -/
def checkChunks (env : Env β) (deal : Deal) : UInt64 → List Chunk → Except Fault UInt64
  | bytesServed, [] => .ok bytesServed
  | bytesServed, chunk :: rest => do
      checkChunk env deal bytesServed chunk
      checkChunks env deal (bytesServed + chunk.rangeLen) rest

/-- Where the first chunk of a batch passes, the others do and the escrow covers the payment. -/
def BatchWhole (env : Env β) (caller : Bytes) (dealId : UInt64) (provider filePath : Str)
    (nonce : UInt64) (chunks : List Chunk) (s : KeeperState β) : Prop :=
  ∀ deal chunk rest, checkBatch env caller dealId provider filePath nonce chunks s = .ok deal →
    chunks = chunk :: rest → checkChunk env deal 0 chunk = .ok () →
    (∀ code text, checkChunks env deal 0 chunks ≠ .error (.err code text)) ∧
      ∀ bytes, checkChunks env deal 0 chunks = .ok bytes →
        bandwidthPayment bytes ≤ deal.escrowBalance

section Batch

variable {env : Env β} {ctx : Ctx} {caller : Bytes} {s s' : KeeperState β}

/-- A chunk that passes has bytes, and the count does not overflow. -/
theorem checkChunk_lt {deal : Deal} {bytes : UInt64} {chunk : Chunk}
    (h : checkChunk env deal bytes chunk = .ok ()) : bytes < bytes + chunk.rangeLen := by
  simp only [checkChunk, except_bind_ok, rejectIf_eq_ok] at h
  obtain ⟨-, hlen, -, hover, -⟩ := h
  have hne : bytes ≠ bytes + chunk.rangeLen := by
    intro heq
    refine hlen ?_
    grind
  exact UInt64.lt_of_le_of_ne (UInt64.not_lt.mp hover) hne

/-- The chunks are proved as far as they pass, and the heat has counted those. The bytes reached are
at least those before, since a chunk that passes does not wrap them. -/
theorem proveChunks_run (env : Env β) (ctx : Ctx) (deal : Deal) (bytes : UInt64)
    (chunks : List Chunk) (s : KeeperState β) :
    ∃ s' reached, (proveChunks env ctx deal bytes chunks).exec s =
      (checkChunks env deal bytes chunks, s') ∧
      bytes ≤ reached ∧ heatBytes s' deal.id + bytes = heatBytes s deal.id + reached := by
  -- by the chunks; a chunk that fails ends the loop with what is counted so far
  induction chunks generalizing bytes s with
  | nil => exact ⟨s, bytes, rfl, UInt64.le_refl _, rfl⟩
  | cons chunk rest ih =>
      cases hcheck : checkChunk env deal bytes chunk with
      | error e =>
          refine ⟨s, bytes, ?_, UInt64.le_refl _, rfl⟩
          rw [proveChunks, checkChunks, Tx.exec_bind, Tx.exec_ofExcept, hcheck]
          rfl
      | ok u =>
          obtain ⟨s', reached, hrun, hle, hheat⟩ :=
            ih (bytes + chunk.rangeLen) (incrementHeat ctx deal.id chunk.rangeLen false s)
          rw [heatBytes_incrementHeat] at hheat
          refine ⟨s', reached, ?_,
            UInt64.le_trans (UInt64.le_of_lt (checkChunk_lt hcheck)) hle, by grind⟩
          rw [proveChunks, checkChunks, Tx.exec_bind, Tx.exec_ofExcept, hcheck]
          simp only
          rw [Tx.exec_update_bind, hrun]
          rfl

/-- Where the first chunk fails, nothing is written; where it passes, the heat has grown, whatever
comes after it. -/
theorem proveChunks_cases (env : Env β) (ctx : Ctx) (deal : Deal) (chunk : Chunk)
    (rest : List Chunk) (s : KeeperState β) :
    (∃ e, checkChunk env deal 0 chunk = .error e ∧
        (proveChunks env ctx deal 0 (chunk :: rest)).exec s = (.error e, s)) ∨
      checkChunk env deal 0 chunk = .ok () ∧ ∃ s', s'.dealHeatStates ≠ s.dealHeatStates ∧
        (proveChunks env ctx deal 0 (chunk :: rest)).exec s =
          (checkChunks env deal 0 (chunk :: rest), s') := by
  cases hcheck : checkChunk env deal 0 chunk with
  | error e =>
      refine .inl ⟨e, rfl, ?_⟩
      rw [proveChunks, Tx.exec_bind, Tx.exec_ofExcept, hcheck]
  | ok u =>
      obtain ⟨s', reached, hrun, hle, hheat⟩ :=
        proveChunks_run env ctx deal (0 + chunk.rangeLen) rest
        (incrementHeat ctx deal.id chunk.rangeLen false s)
      refine .inr ⟨rfl, s', fun hsame => ?_, ?_⟩
      -- the same heat would mean that no byte was reached
      · have hbytes : heatBytes s' deal.id =
          heatBytes s deal.id := by rw [heatBytes, heatBytes, hsame]
        rw [heatBytes_incrementHeat, hbytes] at hheat
        have hzero : reached = 0 := by grind
        rw [hzero] at hle
        exact absurd (checkChunk_lt hcheck) (UInt64.not_lt.mpr hle)
      · rw [proveChunks, checkChunks, Tx.exec_bind, Tx.exec_ofExcept, hcheck]
        simp only
        rw [Tx.exec_update_bind, hrun]
        rfl

/-- A batch leaves no trace when it fails, if and only if it is whole: once its first chunk passes,
the others pass, and the escrow holds the payment. -/
theorem runProveRetrievalBatch_clean_iff {dealId : UInt64} {provider filePath : Str}
    {nonce : UInt64} {chunks : List Chunk} :
    FailsClean env (runProveRetrievalBatch env ctx caller dealId provider filePath nonce chunks) s ↔
      BatchWhole env caller dealId provider filePath nonce chunks s := by
  rw [runProveRetrievalBatch, failsClean_reads_bind]
  -- the steps after the checks, for a batch with a first chunk
  have hsteps : ∀ deal chunk rest, chunks = chunk :: rest →
      (FailsClean env (proveChunks env ctx deal 0 chunks >>= fun bytesServed =>
        Tx.failIf (deal.escrowBalance - bandwidthPayment bytesServed < 0)
          (errorf "proveRetrievalBatch: escrow exhausted") >>= fun _ =>
        Tx.update (fun s =>
          { s with
            deals := s.deals.set dealId.toNat
              { deal with escrowBalance := deal.escrowBalance - bandwidthPayment bytesServed }
            providerRewards :=
              s.providerRewards.set provider ((s.providerRewards.get provider).getD 0 +
                bandwidthPayment bytesServed)
            receiptNoncesByDealFile :=
              s.receiptNoncesByDealFile.set (join dealId.toNat filePath) nonce
            dealProviderStatus :=
              s.dealProviderStatus.set (join dealId.toNat provider) ctx.height64 }) >>= fun _ =>
        pure Output.ok) s ↔
      (checkChunk env deal 0 chunk = .ok () →
        (∀ code text, checkChunks env deal 0 chunks ≠ .error (.err code text)) ∧
          ∀ bytes, checkChunks env deal 0 chunks = .ok bytes →
            bandwidthPayment bytes ≤ deal.escrowBalance)) := by
    rintro deal chunk rest rfl
    rcases proveChunks_cases env ctx deal chunk rest s
      with ⟨e, hcheck, hrun⟩ | ⟨hcheck, s', hne, hrun⟩
    · refine ⟨fun _ hok => ?_, fun _ code text s₁ hexec => ?_⟩
      · rw [hcheck] at hok
        cases hok
      · rw [Tx.exec_bind, hrun] at hexec
        cases hexec
        exact .refl env s
    -- the first chunk passes: any failure from here on leaves the heat
    · cases hall : checkChunks env deal 0 (chunk :: rest) with
      | error e =>
          rw [hall] at hrun
          rw [failsClean_of_error (Tx.exec_bind_error.mpr (.inl hrun))]
          constructor
          · intro hclean _
            refine ⟨fun code text heq => ?_, by simp⟩
            cases heq
            exact hne (hclean ⟨code, text, rfl⟩).dealHeatStates
          · rintro hwhole ⟨code, text, rfl⟩
            exact absurd rfl ((hwhole hcheck).1 code text)
      | ok bytes =>
          rw [hall] at hrun
          by_cases hescrow : deal.escrowBalance - bandwidthPayment bytes < 0
          · rw [failsClean_of_error (Tx.exec_bind_error.mpr (.inr ⟨bytes, s', hrun,
              Tx.exec_failIf_bind_error.mpr (.inl ⟨hescrow, rfl, rfl⟩)⟩))]
            constructor
            · intro hclean
              exact absurd (hclean ⟨_, _, rfl⟩).dealHeatStates hne
            · intro hwhole
              have hle := (hwhole hcheck).2 bytes rfl
              omega
          -- the escrow holds the payment, and the batch does not fail
          · refine ⟨fun _ _ => ⟨by simp, fun bytes' heq => ?_⟩, fun _ => failsClean_of_ok
              (Tx.exec_bind_ok.mpr ⟨bytes, s', hrun, Tx.exec_failIf_bind_ok.mpr ⟨hescrow, rfl⟩⟩)⟩
            cases heq
            omega
  constructor
  · intro hclean deal chunk rest hbatch hchunks hcheck
    exact (hsteps deal chunk rest hchunks).mp (hclean deal hbatch) hcheck
  · intro hwhole deal hbatch
    cases hchunks : chunks with
    | nil =>
        -- The checks before the chunks reject an empty batch.
        simp only [checkBatch, except_bind_ok, rejectIf_eq_ok] at hbatch
        obtain ⟨_, -, _, -, _, -, _, -, _, -, _, -, _, -, _, -, _, hne, -⟩ := hbatch
        exact absurd hchunks hne
    | cons chunk rest =>
        rw [← hchunks]
        exact (hsteps deal chunk rest hchunks).mpr fun hcheck =>
          hwhole deal chunk rest hbatch hchunks hcheck

end Batch

/-! ### Every call -/

/-- The message of a call that creates a deal. -/
def createMsgOf (env : Env β) (caller : Bytes) (durationBlocks : UInt64) (serviceHint : Str)
    (initialEscrow maxMonthlySpend : Nat) : MsgCreateDeal where
  creator := env.codec.accAddressString caller
  durationBlocks := durationBlocks
  serviceHint := trimSpace serviceHint
  maxMonthlySpend := some maxMonthlySpend
  initialEscrowAmount := some initialEscrow

/-- When the call leaves everything as it was, should it fail. -/
def Call.LeavesNoTrace (env : Env β) (ctx : Ctx) (caller : Bytes) (s : KeeperState β) : Call → Prop
  | .createDeal durationBlocks serviceHint initialEscrow maxMonthlySpend =>
      durationBlocks ≠ 0 → CreationWhole env ctx
        (createMsgOf env caller durationBlocks serviceHint initialEscrow maxMonthlySpend) s
  | .updateDealContent _ _ _ => True
  | .proveRetrievalBatch dealId provider filePath nonce chunks =>
      BatchWhole env caller dealId provider filePath nonce chunks s
  | .openRetrievalSession session =>
      InputWrites env ctx (env.codec.accAddressString caller) "openRetrievalSession" s session →
        OpensInputs env ctx (env.codec.accAddressString caller) "openRetrievalSession" [session] s
  | .openRetrievalSessions sessions =>
      ∀ session rest, sessions = session :: rest →
        InputWrites env ctx (env.codec.accAddressString caller) "openRetrievalSessions" s session →
          OpensInputs env ctx (env.codec.accAddressString caller) "openRetrievalSessions" sessions s
  | .computeRetrievalSessions _ => True
  | .computeRetrievalSessionIds _ => True
  | .confirmRetrievalSession sessionId =>
      ConfirmsWhole env ctx (env.codec.accAddressString caller) s [sessionId]
  | .confirmRetrievalSessions sessionIds =>
      ConfirmsWhole env ctx (env.codec.accAddressString caller) s sessionIds

section Calls

variable {env : Env β} {ctx : Ctx} {caller : Bytes} {s s' : KeeperState β}

/-- A handler that writes nothing when it fails. -/
theorem failsClean_of_kept {α : Type} {x : Handler β α}
    (h : ∀ e s', x.exec s = (.error e, s') → s' = s) :
    FailsClean env x s := by
  intro code text s' hexec
  rw [h _ s' hexec]
  exact .refl env s

/-- A call leaves no trace when it fails, if and only if the condition of its method holds. The
conditions are on the state before the call; methods that check everything before they write have
none. -/
theorem serve_clean_iff (call : Call) :
    FailsClean env (serve env ctx caller call) s ↔ call.LeavesNoTrace env ctx caller s := by
  -- one case for each method of the precompile
  cases call with
  | createDeal durationBlocks serviceHint initialEscrow maxMonthlySpend =>
      rw [serve, runCreateDeal, failsClean_failIf_bind, failsClean_bind_pure]
      exact imp_congr Iff.rfl createDeal_clean_iff
  | updateDealContent dealId manifestRoot sizeBytes =>
      exact ⟨fun _ => trivial, fun _ => failsClean_of_kept fun _ _ => runUpdateDealContent_fails⟩
  | proveRetrievalBatch dealId provider filePath nonce chunks =>
    exact runProveRetrievalBatch_clean_iff
  | openRetrievalSession session =>
      rw [serve, runOpenRetrievalSession, failsClean_bind_pure]
      exact openSession_clean_iff
  | openRetrievalSessions sessions =>
      rw [serve, runOpenRetrievalSessions, failsClean_failIf_bind, failsClean_bind_pure]
      -- an empty list is refused before the first session
      cases sessions with
      | nil => exact ⟨fun _ _ _ heq => absurd heq (by simp), fun _ hne => absurd rfl hne⟩
      | cons session rest =>
          constructor
          · intro hclean session' rest' heq
            cases heq
            exact openSessions_clean_iff.mp (hclean (List.cons_ne_nil _ _))
          · intro hwhole _
            exact openSessions_clean_iff.mpr (hwhole session rest rfl)
  | computeRetrievalSessions sessions =>
      exact ⟨fun _ => trivial, fun _ => failsClean_of_kept fun _ _ h => (Prod.mk.inj h).2.symm⟩
  | computeRetrievalSessionIds sessions =>
      exact ⟨fun _ => trivial, fun _ => failsClean_of_kept fun _ _ h => (Prod.mk.inj h).2.symm⟩
  | confirmRetrievalSession sessionId =>
      rw [serve, runConfirmRetrievalSession, failsClean_bind_pure, Call.LeavesNoTrace,
        ← confirmSessions_clean_iff]
      exact failsClean_bind_pure.symm
  | confirmRetrievalSessions sessionIds =>
      rw [serve, runConfirmRetrievalSessions, failsClean_failIf_bind, failsClean_bind_pure,
        confirmSessions_clean_iff]
      cases sessionIds with
      | nil => exact ⟨fun _ => trivial, fun _ hne => absurd rfl hne⟩
      | cons sessionId rest => exact ⟨fun h => h (List.cons_ne_nil _ _), fun h _ => h⟩

/-- A call that returns an error has changed nothing, if and only if it is read-only, does not
decode, or meets the condition of its method. -/
theorem failed_call_unchanged_iff (env : Env β) (ctx : Ctx) (input : Input) (s : KeeperState β) :
    (∀ code text s', (run env ctx input).exec s = (.error (.err code text), s') →
      Unchanged env s s') ↔
      (input.readonly = false → ∀ call, input.call = .ok call →
        call.LeavesNoTrace env ctx input.caller s) := by
  constructor
  · intro hclean hread call hcall
    refine (serve_clean_iff call).mp fun code text s' hserve => hclean code text s' ?_
    refine Tx.exec_failIf_bind_error.mpr (.inr ⟨by rw [hread]; exact Bool.false_ne_true, ?_⟩)
    exact Tx.exec_ofExcept_bind_error.mpr (.inr ⟨call, by rw [hcall]; rfl, hserve⟩)
  · intro hwhole code text s' hrun
    rcases run_cases hrun with ⟨-, -, rfl⟩ | ⟨hread, call, hcall, hserve⟩
    · exact .refl env s'
    · exact (serve_clean_iff call).mpr (hwhole hread call hcall) code text s' hserve

end Calls

/-! ### A call on the small chain -/

/-- An opening that repeats nonce 0. -/
def replayInput : Input where
  readonly := false
  caller := ownerAddr
  call := .ok (.openRetrievalSession
    { dealId := 0
      provider := providerText
      manifestRoot := List.replicate 48 0
      startMduIndex := 0
      startBlobIndex := 0
      blobCount := 2
      nonce := 0
      expiresAt := 100 })

/-- The small chain with a deal that has content, before any session. -/
def contentState : KeeperState Ledger :=
  Lib.run (apply (sampleEnv noKeccak [])) (genesis defaultParams sampleBank) (openRun.take 4)

/-- The opening with nonce 0 is refused, and its fee is gone. -/
theorem failed_call_charges :
    ¬∀ code text s', (run (sampleEnv noKeccak []) (ctxAt 2) replayInput).exec contentState =
      (.error (.err code text), s') → Unchanged (sampleEnv noKeccak []) contentState s' := by
  have hrun : ((run (sampleEnv noKeccak []) (ctxAt 2) replayInput).exec contentState).1 =
      .error (.err .errInvalidRequest "nonce replay rejected") := by
    decide +kernel
  have hescrow :
      (((run (sampleEnv noKeccak []) (ctxAt 2) replayInput).exec contentState).2.deals.get 0).map
      (·.escrowBalance) ≠ (contentState.deals.get 0).map (·.escrowBalance) := by
    decide +kernel
  obtain ⟨s', hexec⟩ := Tx.exists_exec_eq hrun
  intro hclean
  rw [hexec, (hclean _ _ s' hexec).deals] at hescrow
  exact hescrow rfl

end Precompile

end NilStore.Chain
