import NilStore.Lib.Nonces
import NilStore.Proofs.Frames

/-!
# `NilStore.Proofs.ReceiptNonces`: every receipt is accepted once

Four paths accept receipts: a single receipt, a batch of receipts, a session receipt, and the
batch of proofs of the precompile. All four check and store nonces in `receiptNoncesByDealFile`,
under the deal and the path of the file. `Event.accepted` lists what an event has accepted, and
`apply_consumes` shows that the store takes these receipts in order, whichever path they come by.

`receipts_accepted_once` says it of whole runs, calls of the precompile included.
-/

set_option autoImplicit false

namespace NilStore.Chain

open NilStore.Lib

variable {β : Type}

/-! ### What is accepted -/

/-- A receipt as one of the paths accepts it. -/
inductive AcceptedReceipt where
  | receipt (r : RetrievalReceipt)
  | session (r : DownloadSessionReceipt)
  | batch (dealId : UInt64) (filePath : Str) (nonce : UInt64)

namespace AcceptedReceipt

/-- The deal and the path of the file. -/
def dealFile : AcceptedReceipt → Nat ×ₗ Str
  | .receipt r => join r.dealId.toNat r.filePath
  | .session r => join r.dealId.toNat r.filePath
  | .batch dealId filePath _ => join dealId.toNat filePath

/-- The nonce an accepted receipt uses. -/
def nonce : AcceptedReceipt → UInt64
  | .receipt r => r.nonce
  | .session r => r.nonce
  | .batch _ _ nonce => nonce

/-- The use of a nonce. -/
def use (a : AcceptedReceipt) : (Nat ×ₗ Str) × UInt64 := (a.dealFile, a.nonce)

end AcceptedReceipt

/-- The receipts of a proof. -/
def ProofType.receipts : ProofType → List AcceptedReceipt
  | .userReceipt (some receipt) => [.receipt receipt]
  | .userReceiptBatch receipts => (receipts.getD []).map .receipt
  | .sessionProof (some proof) => [.session proof.sessionReceipt]
  | _ => []

/-- The receipts that an event has accepted. -/
def Event.accepted (env : Env β) (s : KeeperState β) : Event → List AcceptedReceipt
  | .deliver ctx (.proveLiveness msg) =>
      if ((proveLiveness env ctx msg).exec s).1.isOk then msg.proofType.receipts else []
  | .call ctx input =>
      match input.call with
      | .ok (.proveRetrievalBatch dealId _ filePath nonce _) =>
          if ((Precompile.run env ctx input).exec s).1.isOk then [.batch dealId filePath nonce]
          else []
      | _ => []
  | _ => []

/-! ### The paths of `ProveLiveness` -/

section Liveness

variable {c : ProofCall β} {s s' : KeeperState β} {bytes bytes' : UInt64}

/-- A fresh nonce is above the last one used for the file of the deal. -/
theorem checkFresh_ok {name : String} {expiresAt nonce : UInt64} {filePath : Str}
    {nonces : KVStore (Nat ×ₗ Str) UInt64} {u : Unit}
    (h : c.checkFresh name expiresAt nonce filePath nonces = .ok u) :
    lastUsed 0 nonces (join c.msg.dealId.toNat filePath) < nonce := by
  simp only [ProofCall.checkFresh, except_bind_ok, rejectIf_eq_ok, UInt64.not_le] at h
  obtain ⟨_, -, hnonce⟩ := h
  exact hnonce

/-- An envelope that passes is for the deal of the message. -/
theorem checkEnvelope_ok {name : String} {dealId epochId : UInt64} {provider filePath : Str}
    {u : Unit} (h : c.checkEnvelope name dealId epochId provider filePath = .ok u) :
    dealId = c.msg.dealId := by
  simp only [ProofCall.checkEnvelope, except_bind_ok, rejectIf_eq_ok, not_not] at h
  obtain ⟨_, hdeal, -⟩ := h
  exact hdeal

/-- One receipt uses its nonce. -/
theorem verifyRetrievalReceipt_consumes {receipt : RetrievalReceipt}
    (h : (c.verifyRetrievalReceipt bytes receipt).exec s = (.ok bytes', s')) :
    Consumes 0 s.receiptNoncesByDealFile [(AcceptedReceipt.receipt receipt).use]
      s'.receiptNoncesByDealFile := by
  simp only [ProofCall.verifyRetrievalReceipt, Tx.exec_reads_bind_ok, Tx.exec_update_bind,
    Tx.exec_failIf_bind_ok, Tx.exec_pure, Prod.mk.injEq, Except.ok.injEq] at h
  obtain ⟨_, hcheck, -, -, rfl⟩ := h
  simp only [ProofCall.checkReceipt, except_bind_ok] at hcheck
  obtain ⟨_, henvelope, _, -, _, -, _, hfresh, -⟩ := hcheck
  -- The nonce is checked under the deal of the message, and stored under that of the receipt.
  have hlt := checkFresh_ok hfresh
  rw [← checkEnvelope_ok henvelope] at hlt
  exact .one hlt

/-- A batch uses the nonces of its receipts, first to last. -/
theorem verifyReceipts_consumes {receipts : List RetrievalReceipt}
    (h : (c.verifyReceipts bytes receipts).exec s = (.ok bytes', s')) :
    Consumes 0 s.receiptNoncesByDealFile (receipts.map fun r => (AcceptedReceipt.receipt r).use)
      s'.receiptNoncesByDealFile := by
  induction receipts generalizing bytes s with
  | nil =>
      rw [ProofCall.verifyReceipts, Tx.exec_pure] at h
      cases h
      exact .done _
  | cons receipt rest ih =>
      rw [ProofCall.verifyReceipts, Tx.exec_bind_ok] at h
      obtain ⟨bytes₁, s₁, hone, hrest⟩ := h
      exact (verifyRetrievalReceipt_consumes hone).append (ih hrest)

/-- The chunks of a session use no nonce. -/
theorem verifyChunks_nonces {receipt : DownloadSessionReceipt} {seen : List UInt32}
    {chunks : List SessionChunkProof}
    (h : (c.verifyChunks receipt seen bytes chunks).exec s = (.ok bytes', s')) :
    s'.receiptNoncesByDealFile = s.receiptNoncesByDealFile := by
  induction chunks generalizing seen bytes s with
  | nil =>
      rw [ProofCall.verifyChunks, Tx.exec_pure] at h
      cases h
      rfl
  | cons chunk rest ih =>
      simp only [ProofCall.verifyChunks, Tx.exec_ofExcept_bind_ok, Tx.exec_failIf_bind_ok,
        Tx.exec_update_bind] at h
      obtain ⟨-, -, -, hrest⟩ := h
      have hkept := ih hrest
      exact hkept

/-- A session receipt uses its nonce, after its chunks. -/
theorem verifySession_consumes {proof : RetrievalSessionProof}
    (h : (c.verifySession proof).exec s = (.ok bytes, s')) :
    Consumes 0 s.receiptNoncesByDealFile [(AcceptedReceipt.session proof.sessionReceipt).use]
      s'.receiptNoncesByDealFile := by
  simp only [ProofCall.verifySession, Tx.exec_reads_bind_ok] at h
  obtain ⟨_, hcheck, h⟩ := h
  simp only [ProofCall.checkSessionReceipt, except_bind_ok] at hcheck
  obtain ⟨_, henvelope, _, -, _, -, _, -, _, hfresh, -⟩ := hcheck
  have hlt := checkFresh_ok hfresh
  rw [← checkEnvelope_ok henvelope] at hlt
  rw [Tx.exec_bind_ok] at h
  obtain ⟨total, s₁, hchunks, h⟩ := h
  simp only [Tx.exec_failIf_bind_ok, Tx.exec_update_bind, Tx.exec_pure, Prod.mk.injEq,
    Except.ok.injEq] at h
  obtain ⟨-, rfl, rfl⟩ := h
  rw [← verifyChunks_nonces hchunks] at hlt ⊢
  exact .one hlt

/-- The switch uses the nonces of the receipts of the message, in their order. A system proof has
none. -/
theorem handleProof_consumes {outcome : ProofOutcome}
    (h : c.handleProof.exec s = (.ok outcome, s')) :
    Consumes 0 s.receiptNoncesByDealFile (c.msg.proofType.receipts.map (·.use))
      s'.receiptNoncesByDealFile := by
  rw [ProofCall.handleProof] at h
  -- by the kind of the proof
  cases hpt : c.msg.proofType with
  | systemProof proof =>
      simp only [hpt, Tx.exec_ofExcept, Prod.mk.injEq] at h
      obtain ⟨-, rfl⟩ := h
      exact .done _
  | userReceipt receipt =>
      cases receipt with
      | none => simp [hpt] at h
      | some receipt =>
          simp only [hpt, Tx.exec_bind_ok, Tx.exec_pure, Prod.mk.injEq, Except.ok.injEq] at h
          obtain ⟨bytes, s₁, hone, -, rfl⟩ := h
          exact verifyRetrievalReceipt_consumes hone
  | userReceiptBatch receipts =>
      simp only [hpt, Tx.exec_failIf_bind_ok] at h
      obtain ⟨-, h⟩ := h
      simp only [Tx.exec_bind_ok, Tx.exec_pure, Prod.mk.injEq, Except.ok.injEq] at h
      obtain ⟨bytes, s₁, hall, -, rfl⟩ := h
      have hbatch := verifyReceipts_consumes hall
      rw [ProofType.receipts, List.map_map]
      exact hbatch
  | sessionProof proof =>
      cases proof with
      | none => simp [hpt] at h
      | some proof =>
          simp only [hpt, Tx.exec_bind_ok, Tx.exec_pure, Prod.mk.injEq, Except.ok.injEq] at h
          obtain ⟨bytes, s₁, hsession, -, rfl⟩ := h
          exact verifySession_consumes hsession
  | unset => simp [hpt] at h

/-- A proof message that was answered uses the nonces of its receipts. -/
theorem proveLiveness_consumes {env : Env β} {ctx : Ctx} {msg : MsgProveLiveness}
    {r : MsgProveLivenessResponse} (h : (proveLiveness env ctx msg).exec s = (.ok r, s')) :
    Consumes 0 s.receiptNoncesByDealFile (msg.proofType.receipts.map (·.use))
      s'.receiptNoncesByDealFile := by
  simp only [proveLiveness, Tx.exec_reads_bind_ok, Tx.exec_failIf_bind_ok,
    Tx.exec_ofExcept_bind_ok, Tx.exec_update_bind, Tx.exec_gets_bind] at h
  obtain ⟨deal, -, -, stripe, -, -, -, h⟩ := h
  rw [Tx.exec_bind_ok] at h
  obtain ⟨outcome, s₂, hproof, h⟩ := h
  have hstart : ∀ tier, (rewardTier tier msg.creator s).receiptNoncesByDealFile =
      s.receiptNoncesByDealFile := fun tier => by
    rw [(reputationOnly_rewardTier tier msg.creator s).2]
  have hconsumes := handleProof_consumes hproof
  rw [hstart] at hconsumes
  by_cases hrejected : outcome = .rejected
  · simp only [if_pos hrejected, Tx.exec_update_bind, Tx.exec_pure, Prod.mk.injEq] at h
    obtain ⟨-, rfl⟩ := h
    exact hconsumes
  · rw [if_neg hrejected] at h
    rw [(settleProof_ok h).2.2]
    exact hconsumes

end Liveness

/-! ### All events -/

section Events

variable {env : Env β} {ctx : Ctx} {s s' : KeeperState β}

/-- A batch of proofs that succeeds uses its nonce. -/
theorem runProveRetrievalBatch_consumes {caller : Bytes} {dealId : UInt64}
    {provider filePath : Str} {nonce : UInt64} {chunks : List Precompile.Chunk}
    {r : Precompile.Output}
    (h : (Precompile.runProveRetrievalBatch env ctx caller dealId provider filePath nonce
      chunks).exec s = (.ok r, s')) :
    Consumes 0 s.receiptNoncesByDealFile
      [(AcceptedReceipt.batch dealId filePath nonce).use] s'.receiptNoncesByDealFile := by
  simp only [Precompile.runProveRetrievalBatch, Tx.exec_reads_bind_ok] at h
  obtain ⟨deal, hcheck, h⟩ := h
  simp only [Precompile.checkBatch, except_bind_ok, rejectIf_eq_ok, UInt64.not_le] at hcheck
  obtain ⟨_, -, _, -, _, -, found, -, _, -, _, -, _, -, _, hlt, -⟩ := hcheck
  rw [Tx.exec_bind_ok] at h
  obtain ⟨bytes, s₁, hchunks, h⟩ := h
  have hheat : HeatOnly s s₁ := (Precompile.keeps_proveChunks _ _ _ _).of_exec hchunks
  rw [HeatOnly] at hheat
  simp only [Tx.exec_failIf_bind_ok, Tx.exec_update_bind, Tx.exec_pure, Prod.mk.injEq] at h
  obtain ⟨-, -, rfl⟩ := h
  rw [hheat]
  exact .one hlt

/-- A call that is no successful batch of proofs writes no nonce of a receipt, and no call writes
one of a signature. -/
theorem call_nonces {input : Precompile.Input} {res : Except Fault Precompile.Output}
    (h : (Precompile.run env ctx input).exec s = (res, s')) :
    Consumes 0 s.receiptNoncesByDealFile
        (((Event.call ctx input).accepted env s).map (·.use)) s'.receiptNoncesByDealFile ∧
      s'.evmNonces = s.evmNonces := by
  -- a call that is not served writes nothing
  rcases Precompile.run_cases h with ⟨-, ⟨e, rfl⟩, rfl⟩ | ⟨-, call, hcall, hserve⟩
  · have hnone : (Event.call ctx input).accepted env s' = [] := by
      simp only [Event.accepted, h]
      split <;> rfl
    rw [hnone]
    exact ⟨.done _, rfl⟩
  -- a call on sessions leaves both kinds of nonces
  · by_cases hsessions : call.servesSessions
    · have hkept := Precompile.serve_within (.of_serves NoncesKept.serves) hserve hsessions
      have hnone : (Event.call ctx input).accepted env s = [] := by
        simp only [Event.accepted, hcall]
        cases call <;> first | rfl | exact hsessions.elim
      rw [hnone, hkept.1]
      exact ⟨.done _, hkept.2⟩
    · cases call with
      | createDeal duration hint escrow spend =>
          have hnone : (Event.call ctx input).accepted env s = [] := by
            simp only [Event.accepted, hcall]
          rw [hnone, Precompile.serve_deals_frame hserve trivial]
          exact ⟨.done _, rfl⟩
      | updateDealContent dealId root size =>
          have hnone : (Event.call ctx input).accepted env s = [] := by
            simp only [Event.accepted, hcall]
          rw [hnone, Precompile.serve_deals_frame hserve trivial]
          exact ⟨.done _, rfl⟩
      -- a batch uses one nonce when it succeeds
      | proveRetrievalBatch dealId provider filePath nonce chunks =>
          cases res with
          | ok r =>
              have hone : (Event.call ctx input).accepted env s =
                  [.batch dealId filePath nonce] := by
                simp only [Event.accepted, hcall, h]
                rfl
              rw [hone]
              refine ⟨runProveRetrievalBatch_consumes hserve, ?_⟩
              obtain ⟨deal, amount, -, -, hframe⟩ := Precompile.runProveRetrievalBatch_ok hserve
              rw [hframe]
          | error e =>
              have hnone : (Event.call ctx input).accepted env s = [] := by
                simp only [Event.accepted, hcall, h]
                rfl
              have hheat := Precompile.runProveRetrievalBatch_fails hserve
              rw [HeatOnly] at hheat
              rw [hnone, hheat]
              exact ⟨.done _, rfl⟩
      | computeRetrievalSessions sessions =>
          have hnone : (Event.call ctx input).accepted env s = [] := by
            simp only [Event.accepted, hcall]
          cases (Prod.mk.inj hserve).2
          rw [hnone]
          exact ⟨.done _, rfl⟩
      | computeRetrievalSessionIds sessions =>
          have hnone : (Event.call ctx input).accepted env s = [] := by
            simp only [Event.accepted, hcall]
          cases (Prod.mk.inj hserve).2
          rw [hnone]
          exact ⟨.done _, rfl⟩
      | _ => exact absurd trivial hsessions

/-- Every event uses the nonces of the receipts that it accepts, in order. A message that fails
accepts none, since its writes are rolled back. -/
theorem apply_consumes (env : Env β) (s : KeeperState β) (e : Event) :
    Consumes 0 s.receiptNoncesByDealFile ((e.accepted env s).map (·.use))
      (apply env s e).receiptNoncesByDealFile := by
  -- one case for each kind of event
  cases e with
  | deliver ctx msg =>
      -- only a liveness proof carries receipts
      by_cases hmsg : ∀ m, msg ≠ .proveLiveness m
      · have hnone : (Event.deliver ctx msg).accepted env s = [] := by
          cases msg <;> first | rfl | exact absurd rfl (hmsg _)
        rw [hnone]
        rcases deliver_cases env ctx msg s with heq | hok
        · rw [heq]
          exact .done _
        · exact .of_eq ((handle_frame hok).receiptNonces hmsg)
      · push Not at hmsg
        obtain ⟨m, rfl⟩ := hmsg
        cases hexec : (proveLiveness env ctx m).exec s with
        | mk res s' =>
            cases res with
            | error fault =>
                have hsame : apply env s (.deliver ctx (.proveLiveness m)) = s :=
                  Tx.commitOrRollback_of_error (Tx.exec_bind_error.mpr (Or.inl hexec))
                simp only [Event.accepted, hexec, hsame]
                exact .done _
            | ok r =>
                have hnext : apply env s (.deliver ctx (.proveLiveness m)) = s' :=
                  Tx.commitOrRollback_of_ok (a := ()) (discard_ok.mpr ⟨r, hexec⟩)
                simp only [Event.accepted, hexec, hnext]
                exact proveLiveness_consumes hexec
  | endBlock ctx =>
      rw [apply, (checkMissedProofs_spec env ctx s).frame]
      exact .done _
  | call ctx input =>
      cases hexec : (Precompile.run env ctx input).exec s with
      | mk res s' =>
          have hcall := (call_nonces hexec).1
          rw [apply, hexec]
          exact hcall

end Events

/-- Receipts are accepted once. In every run, the nonces of the receipts that are accepted for one
deal and one file, by whichever paths, strictly increase. So no receipt is accepted twice. -/
theorem receipts_accepted_once (env : Env β) (params : Params) (b : β) (es : List Event) :
    let accepted := trace (apply env) (fun s e => e.accepted env s) (genesis params b) es
    accepted.Pairwise (fun a a' => a.dealFile = a'.dealFile → a.nonce < a'.nonce) ∧
      accepted.Nodup := by
  intro accepted
  have hconsumes : Consumes 0 (genesis params b).receiptNoncesByDealFile (accepted.map (·.use))
      (run (apply env) (genesis params b) es).receiptNoncesByDealFile := by
    rw [← trace_map]
    refine run_consumes (fun _ _ => True) KeeperState.receiptNoncesByDealFile
      (fun s e => (e.accepted env s).map (·.use)) (fun past e _ => apply_consumes env _ e) ?_
    exact fun _ _ _ _ => trivial
  have hincreasing := List.pairwise_map.mp hconsumes.increasing
  refine ⟨hincreasing, hincreasing.imp fun hlt heq => ?_⟩
  subst heq
  exact UInt64.lt_irrefl _ (hlt rfl)

end NilStore.Chain
