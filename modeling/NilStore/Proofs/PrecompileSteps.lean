import NilStore.Proofs.DealSteps

/-!
# `NilStore.Proofs.PrecompileSteps`: what a call of the precompile does to deals and providers

A call keeps what it wrote when it fails, so what is shown here is about every run of a
handler. `EscrowOnly` is the frame of the calls that serve retrievals: deals differ in their
escrow at most. A call that creates a deal fails before it writes the deal
(`createDeal_fails`), and one that updates content fails before it writes the content
(`updateDealContent_fails`).

`apply_moved` puts messages, calls and ends of blocks together, and `run_wellFormed` is the
invariant over whole runs.
-/

set_option autoImplicit false

namespace NilStore.Chain

open NilStore.Lib

variable {β : Type}

/-! ### The frame -/

/-- The deal but for its escrow. -/
def Deal.withoutEscrow (deal : Deal) : Deal := { deal with escrowBalance := 0 }

/-- Deals differ in their escrow at most; providers and proof statuses are the same. -/
structure EscrowOnly (s s' : KeeperState β) : Prop where
  deals : ∀ d, (s'.deals.get d).map Deal.withoutEscrow = (s.deals.get d).map Deal.withoutEscrow
  dealCount : s'.dealCount = s.dealCount
  providers : s'.providers = s.providers
  dealProviderStatus : s'.dealProviderStatus = s.dealProviderStatus

namespace EscrowOnly

/-- A step that changes nothing changes only escrows. -/
theorem refl (s : KeeperState β) : EscrowOnly s s := ⟨fun _ => rfl, rfl, rfl, rfl⟩

/-- Steps that change only escrows compose. -/
theorem trans (a b c : KeeperState β) (hab : EscrowOnly a b) (hbc : EscrowOnly b c) :
    EscrowOnly a c :=
  ⟨fun d => (hbc.deals d).trans (hab.deals d), hbc.dealCount.trans hab.dealCount,
    hbc.providers.trans hab.providers, hbc.dealProviderStatus.trans hab.dealProviderStatus⟩

/-- A write elsewhere. -/
theorem of_eq {s s' : KeeperState β} (hdeals : s'.deals = s.deals)
    (hcount : s'.dealCount = s.dealCount) (hproviders : s'.providers = s.providers)
    (hstatus : s'.dealProviderStatus = s.dealProviderStatus) : EscrowOnly s s' :=
  ⟨fun d => by rw [hdeals], hcount, hproviders, hstatus⟩

/-- A write to the escrow of a stored deal. -/
theorem of_set {s : KeeperState β} {d : Nat} {deal : Deal} (hget : s.deals.get d = some deal)
    (amount : Int) :
    EscrowOnly s { s with deals := s.deals.set d { deal with escrowBalance := amount } } := by
  refine ⟨fun d' => ?_, rfl, rfl, rfl⟩
  rw [KVStore.get_set]
  split
  · rename_i hd
    subst hd
    rw [hget]
    rfl
  · rfl

/-- A change of escrows is a quiet step, whichever event made it. -/
theorem toQuiet {env : Env β} {e : Event} {s s' : KeeperState β} (h : EscrowOnly s s') :
    QuietlyMoved env e s s' := by
  refine .of_deals ⟨fun {d deal} hget => ?_, fun {d deal'} hnone hsome => ?_, h.dealCount.ge⟩
    h.providers h.dealProviderStatus
  · have hd := h.deals d
    rw [hget, Option.map_some, Option.map_eq_some_iff] at hd
    obtain ⟨deal', hget', heq⟩ := hd
    refine ⟨deal', hget', ?_⟩
    -- The deals are equal but for the escrow.
    have : deal' = { deal with escrowBalance := deal'.escrowBalance } := by
      cases deal
      cases deal'
      simp only [Deal.withoutEscrow, Deal.mk.injEq] at heq ⊢
      tauto
    rw [this]
    exact .escrow _
  · have hd := h.deals d
    rw [hnone, hsome] at hd
    cases hd

end EscrowOnly

/-- Nothing but the heat has changed. -/
def HeatOnly (s s' : KeeperState β) : Prop := s' = { s with dealHeatStates := s'.dealHeatStates }

/-- A step that changes nothing changes only heat. -/
theorem HeatOnly.refl (s : KeeperState β) : HeatOnly s s := rfl

/-- Steps that change only heat compose. -/
theorem HeatOnly.trans (a b c : KeeperState β) (hab : HeatOnly a b) (hbc : HeatOnly b c) :
    HeatOnly a c := by
  rw [HeatOnly] at hab hbc ⊢
  rw [hab] at hbc
  exact hbc

/-! ### The calls that serve retrievals -/

/-- What a relation on states has to allow so that every run of the session handlers, failed or
not, is within it: bank calls, charges to an escrow, and writes to sessions and heat. -/
structure ServesSessions (r : KeeperState β → KeeperState β → Prop) : Prop where
  refl : ∀ s, r s s
  trans : ∀ a b c, r a b → r b c → r a c
  bank : ∀ s b, r s { s with bank := b }
  escrow : ∀ s d deal amount, s.deals.get d = some deal →
    r s { s with deals := s.deals.set d { deal with escrowBalance := amount } }
  sessions : ∀ s sessions byOwner byProvider nonces, r s { s with
    retrievalSessions := sessions
    retrievalSessionsByOwner := byOwner
    retrievalSessionsByProvider := byProvider
    retrievalSessionNonces := nonces }
  heat : ∀ s heat, r s { s with dealHeatStates := heat }

/-- Serving sessions changes deals in their escrow only. -/
theorem EscrowOnly.serves : ServesSessions (EscrowOnly (β := β)) where
  refl := EscrowOnly.refl
  trans := EscrowOnly.trans
  bank _ _ := .of_eq rfl rfl rfl rfl
  escrow _ _ _ amount hget := .of_set hget amount
  sessions _ _ _ _ _ := .of_eq rfl rfl rfl rfl
  heat _ _ := .of_eq rfl rfl rfl rfl

section Keeps

variable {env : Env β} {ctx : Ctx} {s : KeeperState β}
  {r : KeeperState β → KeeperState β → Prop}

open Tx

/-- A bank call is within the frame. -/
theorem keepsAt_bankCall (hr : ServesSessions r) {call : β → Option β} {fault : Fault} :
    KeepsAt r (bankCall call fault) s := by
  refine keepsAt_updateOr hr.refl fun s' h => ?_
  obtain ⟨b, -, rfl⟩ := Option.map_eq_some_iff.mp h
  exact hr.bank s b

/-- Charging the fees of an opening keeps what the bank and the escrows keep. -/
theorem keepsAt_chargeFees (hr : ServesSessions r) {params : Params}
    {msg : MsgOpenRetrievalSession} {deal : Deal}
    (hget : s.deals.get msg.dealId.toNat = some deal) :
    KeepsAt r (chargeFees env ctx params msg deal) s := by
  refine keepsAt_ite (fun _ => ?_) fun _ => keeps_pure hr.refl _ s
  refine keepsAt_bind hr.trans (keeps_failIf hr.refl _ _ s) fun _ s₁ h₁ => ?_
  obtain ⟨-, rfl⟩ := exec_failIf_ok.mp h₁
  refine keepsAt_bind hr.trans ?_ fun _ s₂ h₂ => keepsAt_update ?_
  · exact keepsAt_ite (fun _ => keepsAt_bankCall hr) fun _ => keeps_pure hr.refl _ s
  · -- Burning leaves the deals as they are.
    have hdeals : s₂.deals = s.deals := by
      rw [burnBaseFee, exec_ite] at h₂
      split at h₂
      · obtain ⟨b, -, rfl⟩ := bankCall_ok.mp h₂
        rfl
      · cases h₂
        rfl
    exact hr.escrow s₂ _ _ _ (by rw [hdeals, hget])

/-- Opening a session keeps what its fees and its writes keep. -/
theorem keeps_openRetrievalSession (hr : ServesSessions r) (msg : MsgOpenRetrievalSession) :
    Keeps r (openRetrievalSession env ctx msg) := by
  intro s
  refine keepsAt_bind hr.trans (keeps_reads hr.refl _ s) fun plan s₁ h₁ => ?_
  obtain ⟨hplan, rfl⟩ := Prod.mk.inj h₁
  refine keepsAt_bind hr.trans (keeps_gets hr.refl _ s) fun params s₁ h₁ => ?_
  obtain ⟨-, rfl⟩ := Prod.mk.inj h₁
  refine keepsAt_bind hr.trans (keepsAt_chargeFees hr (checkOpen_ok hplan).1) fun _ s₂ _ => ?_
  refine keepsAt_bind hr.trans (keeps_gets hr.refl _ s₂) fun last s₂ _ => ?_
  refine keepsAt_bind hr.trans (keeps_failIf hr.refl _ _ s₂) fun _ s₂ _ => ?_
  refine keepsAt_bind hr.trans (keeps_ofExcept hr.refl _ s₂) fun sessionId s₂ _ => ?_
  refine keepsAt_bind hr.trans (keepsAt_update ?_) fun _ s₃ _ => keeps_pure hr.refl _ s₃
  exact hr.sessions s₂ _ _ _ _

/-- Settling a session keeps what its burn and its payout keep. -/
theorem keeps_settleRetrievalSession (hr : ServesSessions r) (session : RetrievalSession) :
    Keeps r (settleRetrievalSession env ctx session) := by
  intro s
  refine keepsAt_ite (fun _ => ?_) fun _ => keeps_pure hr.refl _ s
  refine keepsAt_bind hr.trans (keeps_gets hr.refl _ s) fun params s _ => ?_
  refine keepsAt_bind hr.trans (keeps_failIf hr.refl _ _ s) fun _ s _ => ?_
  refine keepsAt_bind hr.trans ?_ fun _ s _ => ?_
  · exact keepsAt_ite (fun _ => keepsAt_bankCall hr) fun _ => keeps_pure hr.refl _ s
  refine keepsAt_bind hr.trans ?_ fun _ s _ => keeps_pure hr.refl _ s
  refine keepsAt_ite (fun _ => ?_) fun _ => keeps_pure hr.refl _ s
  exact keepsAt_bind hr.trans (keeps_ofExcept hr.refl _ s) fun _ s _ => keepsAt_bankCall hr

/-- A session is written within the frame. -/
theorem keeps_setSession (hr : ServesSessions r) (session : RetrievalSession) (sessionId : Bytes) :
    Keeps r (update (setSession session sessionId) : Handler β Unit) :=
  fun s => keepsAt_update (hr.sessions s _ _ _ _)

/-- Finishing a session keeps what settling it and storing it keep. -/
theorem keeps_finishSession (hr : ServesSessions r) (sessionId : Bytes)
    (session : RetrievalSession) : Keeps r (finishSession env ctx sessionId session) := by
  intro s
  refine keepsAt_ite (fun _ => ?_) fun _ => keeps_setSession hr _ _ s
  refine keepsAt_bind hr.trans (keeps_settleRetrievalSession hr _ s) fun settled s _ => ?_
  exact keepsAt_bind hr.trans (keeps_setSession hr _ _ s) fun _ s _ =>
    keepsAt_update (hr.heat s _)

/-- Confirming a session keeps what storing and finishing it keep. -/
theorem keeps_confirmRetrievalSession (hr : ServesSessions r) (msg : MsgConfirmRetrievalSession) :
    Keeps r (confirmRetrievalSession env ctx msg) := by
  intro s
  refine keepsAt_bind hr.trans (keeps_reads hr.refl _ s) fun session s _ => ?_
  refine keepsAt_bind hr.trans ?_ fun _ s _ => ?_
  · refine keepsAt_ite (fun _ => ?_) fun _ => keeps_pure hr.refl _ s
    exact keepsAt_bind hr.trans (keeps_setSession hr _ _ s) fun _ s _ =>
      keeps_throw hr.refl _ s
  · exact keepsAt_ite (fun _ => keeps_pure hr.refl _ s) fun _ => keeps_finishSession hr _ _ s

end Keeps

/-! ### The calls that serve deals -/

/-- The creation of a deal charges its fee: it comes to the payment, and the payment goes
through. -/
def TakesCreationFee (env : Env β) (ctx : Ctx) (msg : MsgCreateDeal) (s : KeeperState β)
    (b : β) : Prop :=
  ∃ payer, env.codec.accAddressFromBech32 msg.creator = some payer ∧
    ¬(0 < s.getParams.minDurationBlocks ∧ msg.durationBlocks < s.getParams.minDurationBlocks) ∧
    s.getParams.chargesCreationFee ∧
    env.bank.sendCoinsFromAccountToModule ctx s.bank payer feeCollectorName
      s.getParams.dealCreationFee = some b

/-- Only the counter of deals has grown. -/
def CountOnly (s s' : KeeperState β) : Prop :=
  s' = { s with dealCount := s'.dealCount } ∧ s.dealCount ≤ s'.dealCount

/-- A step that changes nothing only counts. -/
theorem CountOnly.refl (s : KeeperState β) : CountOnly s s := ⟨rfl, le_rfl⟩

/-- Steps that only count compose. -/
theorem CountOnly.trans (a b c : KeeperState β) (hab : CountOnly a b) (hbc : CountOnly b c) :
    CountOnly a c := by
  obtain ⟨hb, hle⟩ := hab
  obtain ⟨hc, hle'⟩ := hbc
  rw [hb] at hc
  exact ⟨hc, hle.trans hle'⟩

/-- A creation that fails after it took its id has used up the id and nothing else. -/
theorem failsWithin_nextDealId {α : Type} {f : Nat → Handler β α} {s : KeeperState β}
    (hf : ∀ id s₁, Tx.FailsWithin CountOnly (f id) s₁) :
    Tx.FailsWithin CountOnly (nextDealId >>= f) s := by
  intro e s' h
  rw [nextDealId_bind] at h
  exact .trans _ _ _ ⟨rfl, Nat.le_succ _⟩ (hf _ _ e s' h)

/-- A creation that fails has written no deal. Its fee is gone when it was charged, and a deal id
may be. The handler takes the fee first and draws the number next, and the bridge does not roll
either back. -/
theorem createDeal_fails {env : Env β} {ctx : Ctx} {msg : MsgCreateDeal} {s s' : KeeperState β}
    {e : Fault} (h : (createDeal env ctx msg).exec s = (.error e, s')) :
    ∃ b, CountOnly { s with bank := b } s' ∧
      (TakesCreationFee env ctx msg s b ∨ b = s.bank ∧
        ∀ b', ¬TakesCreationFee env ctx msg s b') := by
  -- before the fee: the address and the duration
  simp only [createDeal, Tx.exec_ofExcept_bind_error, Tx.exec_gets_bind,
    Tx.exec_failIf_bind_error] at h
  rcases h with ⟨haddr, rfl⟩ | ⟨payer, haddr, ⟨hshort, -, rfl⟩ | ⟨hlong, h⟩⟩
  · refine ⟨s.bank, .refl s, Or.inr ⟨rfl, fun b' => ?_⟩⟩
    rintro ⟨payer, hpayer, -⟩
    rw [hpayer] at haddr
    cases haddr
  · exact ⟨s.bank, .refl s, Or.inr ⟨rfl, fun b' htakes => htakes.choose_spec.2.1 hshort⟩⟩
  -- the fee, and the rest
  · rw [orFail_eq_ok] at haddr
    rcases Tx.exec_bind_error.mp h with hfee | ⟨_, s₁, hfee, h⟩
    · -- The payment fails.
      rw [payDealCreationFee, Tx.exec_ite] at hfee
      split at hfee
      · obtain ⟨hsend, -, rfl⟩ := bankCall_error.mp hfee
        refine ⟨s.bank, .refl s, Or.inr ⟨rfl, fun b' => ?_⟩⟩
        rintro ⟨payer', hpayer', -, -, hsend'⟩
        rw [haddr] at hpayer'
        cases hpayer'
        rw [hsend] at hsend'
        cases hsend'
      · cases hfee
    · -- After the payment, only the counter is written before the last step.
      -- each step of the rest, in its order
      have htail : CountOnly s₁ s' := by
        refine Tx.FailsWithin.of_exec ?_ h
        refine failsWithin_nextDealId fun dealId s₂ => ?_
        refine Tx.failsWithin_bind .trans (Tx.keeps_ofExcept .refl _ _) fun hint s₂ _ => ?_
        refine Tx.failsWithin_bind .trans (Tx.keeps_ofExcept .refl _ _) fun owner s₂ _ => ?_
        refine Tx.failsWithin_bind .trans (Tx.keeps_ofExcept .refl _ _) fun stripe s₂ _ => ?_
        refine Tx.failsWithin_bind .trans (Tx.keeps_reads .refl _ _) fun assigned s₂ _ => ?_
        refine Tx.failsWithin_bind .trans (Tx.keeps_failIf .refl _ _ _) fun _ s₂ _ => ?_
        refine Tx.failsWithin_bind .trans (Tx.keeps_failIf .refl _ _ _) fun _ s₂ _ => ?_
        refine Tx.failsWithin_bind .trans (Tx.keeps_ofExcept .refl _ _) fun escrow s₂ _ => ?_
        refine Tx.failsWithin_bind .trans (Tx.keeps_ofExcept .refl _ _) fun spend s₂ _ => ?_
        refine Tx.failsWithin_bind_total ?_ fun _ => Tx.total_update_bind (Tx.total_pure _)
        intro e s₃ h₃
        obtain ⟨-, -, rfl⟩ := bankCall_error.mp h₃
        exact .refl s₂
      rw [payDealCreationFee, Tx.exec_ite] at hfee
      split at hfee
      · rename_i hcharges
        obtain ⟨b, hsend, rfl⟩ := bankCall_ok.mp hfee
        exact ⟨b, htail, Or.inl ⟨payer, haddr, hlong, hcharges, hsend⟩⟩
      · rename_i hfree
        cases hfee
        exact ⟨s.bank, htail, Or.inr ⟨rfl, fun b' htakes => hfree htakes.choose_spec.2.2.1⟩⟩

namespace Precompile

open Tx

/-- What a relation has to allow so that every call that opens or confirms sessions is within it:
each opening and each confirmation, failed or not. -/
structure ServesCalls (env : Env β) (ctx : Ctx) (r : KeeperState β → KeeperState β → Prop) :
    Prop where
  refl : ∀ s, r s s
  trans : ∀ a b c, r a b → r b c → r a c
  opens : ∀ msg, Keeps r (openRetrievalSession env ctx msg)
  confirms : ∀ msg, Keeps r (confirmRetrievalSession env ctx msg)

section Keeps

variable {env : Env β} {ctx : Ctx} {r : KeeperState β → KeeperState β → Prop}

/-- What the session messages keep, the precompile's calls keep. -/
theorem ServesCalls.of_serves (hr : ServesSessions r) : ServesCalls env ctx r where
  refl := hr.refl
  trans := hr.trans
  opens := keeps_openRetrievalSession hr
  confirms := keeps_confirmRetrievalSession hr

/-- One opening of a call keeps what the session messages keep. -/
theorem keeps_openSession (hr : ServesCalls env ctx r) (creator : Str) (method : String)
    (input : OpenSessionInput) : Keeps r (openSession env ctx creator method input) := by
  intro s
  refine keepsAt_bind hr.trans (keeps_ofExcept hr.refl _ s) fun _ s _ => ?_
  refine keepsAt_bind hr.trans (hr.opens _ s) fun sessionId s _ => ?_
  exact keepsAt_bind hr.trans (keeps_failIf hr.refl _ _ s) fun _ s _ => keeps_pure hr.refl _ s

/-- So do all openings of a call, one after the other. -/
theorem keeps_openSessions (hr : ServesCalls env ctx r) (creator : Str)
    (inputs : List OpenSessionInput) : Keeps r (openSessions env ctx creator inputs) := by
  induction inputs with
  | nil => exact keeps_pure hr.refl _
  | cons input rest ih =>
      intro s
      refine keepsAt_bind hr.trans (keeps_openSession hr _ _ _ s) fun sessionId s _ => ?_
      exact keepsAt_bind hr.trans (ih s) fun _ s _ => keeps_pure hr.refl _ s

/-- So do all confirmations of a call. -/
theorem keeps_confirmSessions (hr : ServesCalls env ctx r) (creator : Str)
    (sessionIds : List Bytes) : Keeps r (confirmSessions env ctx creator sessionIds) := by
  induction sessionIds with
  | nil => exact keeps_pure hr.refl _
  | cons sessionId rest ih =>
      intro s
      exact keepsAt_bind hr.trans (hr.confirms _ s) fun _ s _ => ih s

/-- The calls that open or confirm sessions. -/
def Call.servesSessions : Call → Prop
  | .openRetrievalSession _ => True
  | .openRetrievalSessions _ => True
  | .confirmRetrievalSession _ => True
  | .confirmRetrievalSessions _ => True
  | _ => False

/-- So does every call about sessions. -/
theorem keeps_serve (hr : ServesCalls env ctx r) {caller : Bytes} {call : Call}
    (hcall : call.servesSessions) : Keeps r (serve env ctx caller call) := by
  intro s
  cases call with
  | openRetrievalSession session =>
      exact keepsAt_bind hr.trans (keeps_openSession hr _ _ _ s) fun _ s _ =>
        keeps_pure hr.refl _ s
  | openRetrievalSessions sessions =>
      refine keepsAt_bind hr.trans (keeps_failIf hr.refl _ _ s) fun _ s _ => ?_
      exact keepsAt_bind hr.trans (keeps_openSessions hr _ _ s) fun _ s _ =>
        keeps_pure hr.refl _ s
  | confirmRetrievalSession sessionId =>
      exact keepsAt_bind hr.trans (hr.confirms _ s) fun _ s _ => keeps_pure hr.refl _ s
  | confirmRetrievalSessions sessionIds =>
      refine keepsAt_bind hr.trans (keeps_failIf hr.refl _ _ s) fun _ s _ => ?_
      exact keepsAt_bind hr.trans (keeps_confirmSessions hr _ _ s) fun _ s _ =>
        keeps_pure hr.refl _ s
  | _ => exact hcall.elim

/-- Whatever becomes of such a call, it is within the frame. -/
theorem serve_within (hr : ServesCalls env ctx r) {caller : Bytes} {call : Call}
    {s s' : KeeperState β} {res : Except Fault Output}
    (h : (serve env ctx caller call).exec s = (res, s')) (hcall : call.servesSessions) : r s s' :=
  (keeps_serve hr hcall s).of_exec h

/-- Proving chunks changes nothing but the heat. -/
theorem keeps_proveChunks (deal : Deal) (bytesServed : UInt64) (chunks : List Chunk) :
    Keeps HeatOnly (proveChunks env ctx deal bytesServed chunks) := by
  induction chunks generalizing bytesServed with
  | nil => exact keeps_pure .refl _
  | cons chunk rest ih =>
      intro s
      refine keepsAt_bind .trans (keeps_ofExcept .refl _ s) fun _ s _ => ?_
      exact keepsAt_bind .trans (keepsAt_update rfl) fun _ s _ => ih _ s

end Keeps

section Calls

variable {env : Env β} {ctx : Ctx} {caller : Bytes} {s s' : KeeperState β}

/-- The text of a root that a call passes on decodes to the root. -/
theorem decodeManifestRoot_hexEncode {root : Bytes} (h : root.length = 48) :
    decodeManifestRoot ("0x".toList ++ hexEncode root) = some root := by
  have htrim : trimPrefix ("0x".toList ++ hexEncode root) "0x".toList = hexEncode root := rfl
  rw [decodeManifestRoot, htrim, hexDecode_hexEncode, Option.filter_some]
  simp [h]

/-- A content update that fails has written nothing. The text it passes on is hex of 48 bytes and
its size is positive, so after the payment no check can fail. -/
theorem runUpdateDealContent_fails {dealId : UInt64} {root : Bytes} {size : UInt64} {e : Fault}
    (h : (runUpdateDealContent env ctx caller dealId root size).exec s = (.error e, s')) :
    s' = s := by
  simp only [runUpdateDealContent, exec_failIf_bind_error, not_not] at h
  rcases h with ⟨-, -, rfl⟩ | ⟨hlength, ⟨-, -, rfl⟩ | ⟨hsize, h⟩⟩
  · rfl
  · rfl
  · -- The content itself was checked, so only the payment can fail, and it writes nothing then.
    have hcid : trimSpace ("0x".toList ++ hexEncode root) ≠ [] := fun hnil =>
      absurd (trimSpace_eq_nil_iff.mp hnil '0' List.mem_cons_self) (by decide)
    simp only [updateDealContent, bind_assoc, exec_ofExcept_bind_error, exec_reads_bind_error,
      exec_failIf_bind_error, exec_gets_bind] at h
    rcases h with ⟨-, rfl⟩ | ⟨payer, -, ⟨-, rfl⟩ | ⟨deal, -, ⟨-, -, rfl⟩ | ⟨-, h⟩⟩⟩
    · rfl
    · rfl
    · rfl
    -- the payment, and what follows it
    · rcases exec_bind_error.mp h with hpay | ⟨_, s₁, -, h⟩
      · rw [payTermDeposit, exec_ite] at hpay
        split at hpay
        · obtain ⟨-, -, rfl⟩ := bankCall_error.mp hpay
          rfl
        · cases hpay
      · simp only [exec_failIf_bind_error, exec_ofExcept_bind_error, exec_update_bind, exec_pure,
          decodeManifestRoot_hexEncode hlength, orFail, hcid, hsize, false_and, false_or,
          not_false_eq_true, true_and, reduceCtorEq, Except.ok.injEq, exists_eq_left',
          Prod.mk.injEq] at h

/-- What a batch of proofs did when it succeeded: the escrow of the deal has paid the provider,
whose proof status is the height of the block. Heat and rewards are written too. -/
theorem runProveRetrievalBatch_ok {dealId : UInt64} {provider filePath : Str} {nonce : UInt64}
    {chunks : List Chunk} {r : Output}
    (h : (runProveRetrievalBatch env ctx caller dealId provider filePath nonce chunks).exec s =
      (.ok r, s')) :
    ∃ deal amount, s.deals.get dealId.toNat = some deal ∧ provider ∈ deal.providers ∧
      s' = { s with
        dealHeatStates := s'.dealHeatStates
        deals := s.deals.set dealId.toNat { deal with escrowBalance := amount }
        providerRewards := s'.providerRewards
        receiptNoncesByDealFile := s'.receiptNoncesByDealFile
        dealProviderStatus :=
          s.dealProviderStatus.set (join dealId.toNat provider) ctx.height64 } := by
  simp only [runProveRetrievalBatch, exec_reads_bind_ok] at h
  obtain ⟨deal, hcheck, h⟩ := h
  -- the checks of the batch
  simp only [checkBatch, except_bind_ok, rejectIf_eq_ok, orFail_eq_ok, not_not] at hcheck
  obtain ⟨_, -, _, -, _, -, found, hget, _, -, _, hmem, _, -, _, -, _, -, hfound⟩ := hcheck
  cases hfound
  rw [exec_bind_ok] at h
  obtain ⟨bytes, s₁, hchunks, h⟩ := h
  have hheat : HeatOnly s s₁ := (keeps_proveChunks _ _ _ _).of_exec hchunks
  simp only [exec_failIf_bind_ok, exec_update_bind, exec_pure, Prod.mk.injEq] at h
  obtain ⟨-, -, rfl⟩ := h
  refine ⟨deal, deal.escrowBalance - bandwidthPayment bytes, hget, hmem, ?_⟩
  rw [hheat]

/-- A batch of proofs that fails has written heat only. -/
theorem runProveRetrievalBatch_fails {dealId : UInt64} {provider filePath : Str} {nonce : UInt64}
    {chunks : List Chunk} {e : Fault}
    (h : (runProveRetrievalBatch env ctx caller dealId provider filePath nonce chunks).exec s =
      (.error e, s')) : HeatOnly s s' := by
  refine FailsWithin.of_exec ?_ h
  refine failsWithin_bind .trans (keeps_reads .refl _ _) fun deal s _ => ?_
  refine failsWithin_bind .trans (keeps_proveChunks _ _ _ _) fun bytes s _ => ?_
  refine failsWithin_bind_total (keeps_failIf .refl _ _ _).failsWithin fun _ => ?_
  exact total_update_bind (total_pure _)

/-- A creation through the precompile is a quiet step, returned or failed. -/
theorem runCreateDeal_moved {input : Input} {duration : UInt64} {hint : Str}
    {escrow spend : Nat} {res : Except Fault Output} (hs : WellFormed env s)
    (h : (runCreateDeal env ctx caller duration hint escrow spend).exec s = (res, s')) :
    QuietlyMoved env (.call ctx input) s s' := by
  cases res with
  | ok r =>
      rw [runCreateDeal, exec_failIf_bind_ok, exec_bind_ok] at h
      obtain ⟨-, res, s₁, hcreate, hlast⟩ := h
      cases hlast
      obtain ⟨payer, deal, -, -, hcreated, hframe⟩ := createDeal_ok hcreate
      exact .of_deals (.of_created hs hcreated) (by rw [hframe]) (by rw [hframe])
  | error e =>
      rw [runCreateDeal, exec_failIf_bind_error, exec_bind_error] at h
      rcases h with ⟨-, -, rfl⟩ | ⟨-, h | ⟨res, s₁, -, hlast⟩⟩
      · exact .of_eq rfl le_rfl rfl rfl
      · obtain ⟨b, ⟨hframe, hcount⟩, -⟩ := createDeal_fails h
        rw [hframe]
        exact .of_eq rfl hcount rfl rfl
      · cases hlast

/-- A content update through the precompile is a quiet step, returned or failed. -/
theorem runUpdateDealContent_moved {input : Input} {dealId : UInt64} {root : Bytes} {size : UInt64}
    {res : Except Fault Output}
    (h : (runUpdateDealContent env ctx caller dealId root size).exec s = (res, s')) :
    QuietlyMoved env (.call ctx input) s s' := by
  cases res with
  | ok r =>
      rw [runUpdateDealContent, exec_failIf_bind_ok, exec_failIf_bind_ok, exec_bind_ok] at h
      obtain ⟨-, -, _, s₁, hupdate, hlast⟩ := h
      cases hlast
      obtain ⟨payer, deal, root, -, hcontent, hframe⟩ := updateDealContent_ok hupdate
      exact .of_deals (.of_content hcontent (by rw [hframe])) (by rw [hframe]) (by rw [hframe])
  | error e =>
      rw [runUpdateDealContent_fails h]
      exact .of_eq rfl le_rfl rfl rfl

/-- The calls that create a deal or commit its content. -/
def Call.servesDeals : Call → Prop
  | .createDeal _ _ _ _ => True
  | .updateDealContent _ _ _ => True
  | _ => False

/-- Whatever becomes of such a call, it writes deals and pays for them, and nothing else. -/
theorem serve_deals_frame {call : Call} {res : Except Fault Output}
    (h : (serve env ctx caller call).exec s = (res, s')) (hcall : call.servesDeals) :
    s' = { s with bank := s'.bank, dealCount := s'.dealCount, deals := s'.deals } := by
  -- a creation and a content update, each with success and failure
  cases call with
  | createDeal duration hint escrow spend =>
      have h : (runCreateDeal env ctx caller duration hint escrow spend).exec s = (res, s') := h
      cases res with
      | ok r =>
          rw [runCreateDeal, exec_failIf_bind_ok, exec_bind_ok] at h
          obtain ⟨-, res, s₁, hcreate, hlast⟩ := h
          cases hlast
          obtain ⟨payer, deal, -, -, -, hframe⟩ := createDeal_ok hcreate
          exact hframe
      | error e =>
          rw [runCreateDeal, exec_failIf_bind_error, exec_bind_error] at h
          rcases h with ⟨-, -, rfl⟩ | ⟨-, h | ⟨res, s₁, -, hlast⟩⟩
          · rfl
          · obtain ⟨b, ⟨hframe, -⟩, -⟩ := createDeal_fails h
            rw [hframe]
          · cases hlast
  | updateDealContent dealId root size =>
      have h : (runUpdateDealContent env ctx caller dealId root size).exec s = (res, s') := h
      cases res with
      | ok r =>
          rw [runUpdateDealContent, exec_failIf_bind_ok, exec_failIf_bind_ok, exec_bind_ok] at h
          obtain ⟨-, -, _, s₁, hupdate, hlast⟩ := h
          cases hlast
          obtain ⟨payer, deal, root, -, -, hframe⟩ := updateDealContent_ok hupdate
          rw [hframe]
      | error e =>
          rw [runUpdateDealContent_fails h]
  | _ => exact hcall.elim

/-- Of the other calls, a batch of proofs that succeeds pays the provider, and the rest writes heat
at most. -/
theorem serve_other {call : Call} {res : Except Fault Output}
    (h : (serve env ctx caller call).exec s = (res, s')) (hsessions : ¬call.servesSessions)
    (hdeals : ¬call.servesDeals) :
    HeatOnly s s' ∨ ∃ (d : Nat) (deal : Deal) (amount : Int) (provider : Str),
      s.deals.get d = some deal ∧ s' = { s with
        dealHeatStates := s'.dealHeatStates
        deals := s.deals.set d { deal with escrowBalance := amount }
        providerRewards := s'.providerRewards
        receiptNoncesByDealFile := s'.receiptNoncesByDealFile
        dealProviderStatus := s.dealProviderStatus.set (join d provider) ctx.height64 } := by
  -- two views and a batch; the others are excluded
  cases call with
  | computeRetrievalSessions sessions =>
      cases (Prod.mk.inj h).2
      exact Or.inl (.refl s)
  | computeRetrievalSessionIds sessions =>
      cases (Prod.mk.inj h).2
      exact Or.inl (.refl s)
  | proveRetrievalBatch dealId provider filePath nonce chunks =>
      cases res with
      | ok r =>
          obtain ⟨deal, amount, hget, -, hframe⟩ := runProveRetrievalBatch_ok h
          exact Or.inr ⟨dealId.toNat, deal, amount, provider, hget, hframe⟩
      | error e => exact Or.inl (runProveRetrievalBatch_fails h)
  | createDeal duration hint escrow spend => exact absurd trivial hdeals
  | updateDealContent dealId root size => exact absurd trivial hdeals
  | openRetrievalSession session => exact absurd trivial hsessions
  | openRetrievalSessions sessions => exact absurd trivial hsessions
  | confirmRetrievalSession sessionId => exact absurd trivial hsessions
  | confirmRetrievalSessions sessionIds => exact absurd trivial hsessions

/-- A call that is no successful batch of proofs moves the state quietly: it sets no proof
status. -/
theorem serve_quiet {input : Input} {call : Call} {res : Except Fault Output}
    (hs : WellFormed env s) (h : (serve env ctx caller call).exec s = (res, s'))
    (hquiet : ∀ dealId provider filePath nonce chunks r,
      call = .proveRetrievalBatch dealId provider filePath nonce chunks → res ≠ .ok r) :
    QuietlyMoved env (.call ctx input) s s' := by
  -- by the method of the precompile
  cases call with
  | createDeal duration hint escrow spend => exact runCreateDeal_moved hs h
  | updateDealContent dealId root size => exact runUpdateDealContent_moved h
  | proveRetrievalBatch dealId provider filePath nonce chunks =>
      cases res with
      | ok r => exact absurd rfl (hquiet _ _ _ _ _ r rfl)
      | error e =>
          have hheat := runProveRetrievalBatch_fails h
          rw [HeatOnly] at hheat
          rw [hheat]
          exact .of_eq rfl le_rfl rfl rfl
  | computeRetrievalSessions sessions =>
      cases (Prod.mk.inj h).2
      exact .of_eq rfl le_rfl rfl rfl
  | computeRetrievalSessionIds sessions =>
      cases (Prod.mk.inj h).2
      exact .of_eq rfl le_rfl rfl rfl
  | openRetrievalSession session =>
      exact (serve_within (.of_serves EscrowOnly.serves) h trivial).toQuiet
  | openRetrievalSessions sessions =>
      exact (serve_within (.of_serves EscrowOnly.serves) h trivial).toQuiet
  | confirmRetrievalSession sessionId =>
      exact (serve_within (.of_serves EscrowOnly.serves) h trivial).toQuiet
  | confirmRetrievalSessions sessionIds =>
      exact (serve_within (.of_serves EscrowOnly.serves) h trivial).toQuiet

/-- The call is a batch of proofs for the deal and the provider, and it succeeds. -/
def BatchProved (env : Env β) (ctx : Ctx) (input : Input) (s : KeeperState β) (d : Nat) (p : Str) :
    Prop :=
  ∃ dealId filePath nonce chunks r s',
    input.call = .ok (.proveRetrievalBatch dealId p filePath nonce chunks) ∧ dealId.toNat = d ∧
      (run env ctx input).exec s = (.ok r, s')

/-- A call is read-only or does not decode, and nothing happens, or it is served. -/
theorem run_cases {input : Input} {res : Except Fault Output}
    (h : (run env ctx input).exec s = (res, s')) :
    ((input.readonly = true ∨ ∃ text, input.call = .error text) ∧ (∃ e, res = .error e) ∧ s' = s) ∨
      input.readonly = false ∧ ∃ call, input.call = .ok call ∧
        (serve env ctx input.caller call).exec s = (res, s') := by
  simp only [run, exec_bind, exec_failIf, exec_ofExcept] at h
  by_cases hread : input.readonly
  · rw [if_pos hread] at h
    cases h
    exact Or.inl ⟨Or.inl hread, ⟨_, rfl⟩, rfl⟩
  · rw [if_neg hread] at h
    cases hcall : input.call with
    | error text =>
        rw [hcall] at h
        cases h
        exact Or.inl ⟨Or.inr ⟨text, rfl⟩, ⟨_, rfl⟩, rfl⟩
    | ok call =>
        rw [hcall] at h
        exact Or.inr ⟨Bool.eq_false_iff.mpr hread, call, rfl, h⟩

/-- What a call of the precompile does, whether it fails or not: it is quiet, or a batch that
succeeded, and then it sets the proof status of one provider of one deal. -/
theorem run_moved {input : Input} {res : Except Fault Output} (hs : WellFormed env s)
    (h : (run env ctx input).exec s = (res, s')) :
    (∀ d p, ¬BatchProved env ctx input s d p) ∧ QuietlyMoved env (.call ctx input) s s' ∨
      ∃ d p deal, (∀ d' p', BatchProved env ctx input s d' p' ↔ d' = d ∧ p' = p) ∧
        s.deals.get d = some deal ∧ p ∈ deal.providers ∧ Moved env (.call ctx input) s s' ∧
        s'.dealProviderStatus = s.dealProviderStatus.set (join d p) ctx.height64 := by
  rcases run_cases h with ⟨-, ⟨e, rfl⟩, rfl⟩ | ⟨-, call, hcall, hserve⟩
  -- a call that is not served has failed
  · refine Or.inl ⟨fun d p hbatch => ?_, .of_eq rfl le_rfl rfl rfl⟩
    obtain ⟨dealId, filePath, nonce, chunks, r, s', -, -, hr⟩ := hbatch
    rw [h] at hr
    cases hr
  · by_cases hquiet : ∀ dealId provider filePath nonce chunks r,
        call = .proveRetrievalBatch dealId provider filePath nonce chunks → res ≠ .ok r
    · refine Or.inl ⟨fun d p hbatch => ?_, serve_quiet hs hserve hquiet⟩
      obtain ⟨dealId, filePath, nonce, chunks, r, s₁, hc, -, hr⟩ := hbatch
      rw [h] at hr
      rw [hcall] at hc
      exact hquiet _ _ _ _ _ r (Except.ok.inj hc) (Prod.mk.inj hr).1
    · push Not at hquiet
      obtain ⟨dealId, provider, filePath, nonce, chunks, r, rfl, rfl⟩ := hquiet
      obtain ⟨deal, amount, hget, hmem, hframe⟩ := runProveRetrievalBatch_ok hserve
      refine Or.inr ⟨dealId.toNat, provider, deal, fun d p => ⟨?_, ?_⟩, hget, hmem, ?_, ?_⟩
      -- the status that it sets is that of the batch
      · rintro ⟨dealId', filePath', nonce', chunks', r', s₁, hc, hd, -⟩
        rw [hcall] at hc
        cases hc
        exact ⟨hd.symm, rfl⟩
      · rintro ⟨rfl, rfl⟩
        exact ⟨dealId, filePath, nonce, chunks, r, s', hcall, rfl, h⟩
      · rw [hframe]
        exact ⟨.of_set hget (.escrow amount) rfl rfl, .of_eq rfl⟩
      · rw [hframe]

end Calls

end Precompile

/-! ### Every event -/

/-- What an event does to deals and providers. -/
theorem apply_moved {env : Env β} {s : KeeperState β} (hs : WellFormed env s) (e : Event) :
    Moved env e s (apply env s e) := by
  cases e with
  | deliver ctx msg =>
      rcases deliver_cases env ctx msg s with heq | hok
      · rw [heq]
        exact (QuietlyMoved.of_eq rfl le_rfl rfl rfl).moved
      · exact handle_moved hs hok
  | endBlock ctx =>
      have hframe := (checkMissedProofs_spec env ctx s).frame
      rw [apply, hframe]
      exact ⟨.of_eq rfl le_rfl, .of_eq rfl⟩
  | call ctx input =>
      cases h : (Precompile.run env ctx input).exec s with
      | mk res s' =>
          rw [apply, h]
          rcases Precompile.run_moved hs h with ⟨-, hquiet⟩ | ⟨d, p, deal, -, -, -, hmoved, -⟩
          · exact hquiet.moved
          · exact hmoved

/-- The step lemma of well-formedness. -/
theorem apply_wellFormed {env : Env β} {s : KeeperState β} (hs : WellFormed env s) (e : Event) :
    WellFormed env (apply env s e) := (apply_moved hs e).wellFormed hs

/-- The state at genesis is well formed. -/
theorem genesis_wellFormed (env : Env β) (params : Params) (b : β) :
    WellFormed env (genesis params b) := by
  constructor <;> intros <;> simp_all [genesis, KeeperState.empty, KeeperState.registered]

/-- The invariant holds after every run from genesis. -/
theorem run_wellFormed (env : Env β) (params : Params) (b : β) (es : List Event) :
    WellFormed env (run (apply env) (genesis params b) es) :=
  run_invariant (fun _ => True) (WellFormed env) (genesis_wellFormed env params b)
    (fun _ e hs _ => apply_wellFormed hs e) fun _ _ => trivial

/-- A relation between the past and each stored deal that holds of new deals and survives each step
of a deal holds after every run from genesis. It is the induction rule for deals. -/
theorem run_deals (env : Env β) (params : Params) (b : β) (ok : List Event → Event → Prop)
    (P : List Event → Nat → Deal → Prop)
    (hnew : ∀ past e d deal, ok past e →
      (run (apply env) (genesis params b) past).deals.get d = none →
      NewDeal env e.ctx (run (apply env) (genesis params b) past).providers deal →
      P (past ++ [e]) d deal)
    (hstep : ∀ past e d deal deal', ok past e →
      (run (apply env) (genesis params b) past).deals.get d = some deal →
      DealStep env e (run (apply env) (genesis params b) past) deal deal' →
      P past d deal → P (past ++ [e]) d deal')
    {es : List Event} (hes : Along ok es) :
    ∀ d deal, (run (apply env) (genesis params b) es).deals.get d = some deal → P es d deal := by
  refine run_history ok
    (fun past (s : KeeperState β) => ∀ d deal, s.deals.get d = some deal → P past d deal) ?_
    (fun past e ih hok d deal' hget' => ?_) hes
  · intro d deal hget
    cases hget
  · have hmoved := apply_moved (run_wellFormed env params b past) e
    -- a deal after the event is new, or has taken a step
    cases hget : (run (apply env) (genesis params b) past).deals.get d with
    | none => exact hnew past e d deal' hok hget (hmoved.deals.created hget hget').2.2.2
    | some deal =>
        obtain ⟨deal₁, hget₁, hdeal⟩ := hmoved.deals.kept hget
        rw [hget'] at hget₁
        cases hget₁
        exact hstep past e d deal deal' hok hget hdeal (ih d deal hget)

end NilStore.Chain
