import NilStore.Proofs.SessionFailures
import NilStore.Proofs.SessionSteps

/-!
# `NilStore.Proofs.OpeningFailures`: openings that fail in the middle

A call of the precompile keeps what it wrote before it failed. `Unchanged` compares what the rest of
the chain can read: deals, sessions, nonces, rewards, proof statuses, heat and balances.
`FailsClean` says that a handler that returns an error leaves all of this as it was.

`OpenRetrievalSession` charges its fees before it looks at the nonce and computes the session id
(`openSession_cases`). So a failing opening leaves a trace when a fee was charged, and a failing
list of openings when its first one has gone through as well: a nonce of a session never goes back
(`openSessions_clean_iff`).
-/

set_option autoImplicit false

namespace NilStore.Chain

open NilStore.Lib

variable {β : Type}

/-! ### What a failure may leave -/

/-- Everything that is read through the context is as it was. -/
structure Unchanged (env : Env β) (s s' : KeeperState β) : Prop where
  deals : s'.deals = s.deals
  sessions : SessionsKept s s'
  receiptNonces : s'.receiptNoncesByDealFile = s.receiptNoncesByDealFile
  evmNonces : s'.evmNonces = s.evmNonces
  providerRewards : s'.providerRewards = s.providerRewards
  dealProviderStatus : s'.dealProviderStatus = s.dealProviderStatus
  dealHeatStates : s'.dealHeatStates = s.dealHeatStates
  balances : ∀ a d, env.bank.balance s'.bank a d = env.bank.balance s.bank a d

/-- A state is unchanged against itself. -/
theorem Unchanged.refl (env : Env β) (s : KeeperState β) : Unchanged env s s :=
  ⟨rfl, .refl s, rfl, rfl, rfl, rfl, rfl, fun _ _ => rfl⟩

/-- When the handler returns an error, nothing has changed. -/
def FailsClean {α : Type} (env : Env β) (x : Handler β α) (s : KeeperState β) : Prop :=
  ∀ code text s', x.exec s = (.error (.err code text), s') → Unchanged env s s'

section FailsClean

variable {env : Env β} {s s' : KeeperState β} {α γ : Type}

/-- A handler that returned has not failed. -/
theorem failsClean_of_ok {x : Handler β α} {a : α} (h : x.exec s = (.ok a, s')) :
    FailsClean env x s := by
  intro code text s₁ herror
  rw [h] at herror
  cases herror

/-- For a handler that failed, failing cleanly is that an ordinary error left the state
unchanged. -/
theorem failsClean_of_error {x : Handler β α} {e : Fault} (h : x.exec s = (.error e, s')) :
    FailsClean env x s ↔ ((∃ code text, e = .err code text) → Unchanged env s s') := by
  constructor
  · rintro hclean ⟨code, text, rfl⟩
    exact hclean code text s' h
  · intro hsame code text s₁ herror
    rw [h] at herror
    cases herror
    exact hsame ⟨code, text, rfl⟩

/-- What comes after the last effect does not matter. -/
theorem failsClean_bind_pure {x : Handler β α} {f : α → γ} :
    FailsClean env (x >>= fun a => pure (f a)) s ↔ FailsClean env x s := by
  constructor
  · intro hclean code text s' h
    exact hclean code text s' (Tx.exec_bind_error.mpr (.inl h))
  · intro hclean code text s' h
    rcases Tx.exec_bind_error.mp h with h | ⟨a, s₁, -, h⟩
    · exact hclean code text s' h
    · cases h

/-- A check in front. -/
theorem failsClean_failIf_bind {c : Prop} [Decidable c] {e : Fault} {g : Unit → Handler β α} :
    FailsClean env (Tx.failIf c e >>= g) s ↔ (¬c → FailsClean env (g ()) s) := by
  constructor
  · intro hclean hc code text s' h
    exact hclean code text s' (Tx.exec_failIf_bind_error.mpr (.inr ⟨hc, h⟩))
  · intro hclean code text s' h
    rcases Tx.exec_failIf_bind_error.mp h with ⟨-, -, rfl⟩ | ⟨hc, h⟩
    · exact .refl env s
    · exact hclean hc code text s' h

/-- A read that succeeds. -/
theorem exec_reads_bind_of_ok {f : KeeperState β → Except Fault γ} {g : γ → Handler β α} {a : γ}
    (h : f s = .ok a) : (Tx.reads f >>= g).exec s = (g a).exec s := by
  rw [Tx.exec_bind, Tx.exec_reads, h]

/-- A read in front. -/
theorem failsClean_reads_bind {f : KeeperState β → Except Fault γ} {g : γ → Handler β α} :
    FailsClean env (Tx.reads f >>= g) s ↔ ∀ a, f s = .ok a → FailsClean env (g a) s := by
  constructor
  · intro hclean a ha code text s' h
    exact hclean code text s' (Tx.exec_reads_bind_error.mpr (.inr ⟨a, ha, h⟩))
  · intro hclean code text s' h
    rcases Tx.exec_reads_bind_error.mp h with ⟨-, rfl⟩ | ⟨a, ha, h⟩
    · exact .refl env s
    · exact hclean a ha code text s' h

end FailsClean

/-! ### Errors -/

/-- The handler does not panic: a failure of the check is a returned error. -/
def OnlyErrs {α : Type} (x : Except Fault α) : Prop :=
  ∀ e, x = .error e → ∃ code text, e = .err code text

section OnlyErrs

variable {α γ : Type}

/-- A guard with an ordinary error only fails with it. -/
theorem onlyErrs_rejectIf {c : Prop} [Decidable c] {code : SdkError} {text : String} :
    OnlyErrs (rejectIf c (.err code text)) := by
  intro e h
  rw [rejectIf] at h
  split at h
  · cases h
    exact ⟨_, _, rfl⟩
  · cases h

/-- A lookup with an ordinary error only fails with it. -/
theorem onlyErrs_orFail {x : Option α} {code : SdkError} {text : String} :
    OnlyErrs (orFail x (.err code text)) := by
  intro e h
  cases x with
  | none =>
      cases h
      exact ⟨_, _, rfl⟩
  | some a => cases h

/-- A check whose errors are wrapped as ordinary ones only fails with these. -/
theorem onlyErrs_mapError {ε : Type} {x : Except ε α} {code : SdkError} {text : ε → String} :
    OnlyErrs (x.mapError fun t => Fault.err code (text t)) := by
  intro e h
  cases x with
  | error t =>
      cases h
      exact ⟨_, _, rfl⟩
  | ok a => cases h

/-- A success is no failure. -/
theorem onlyErrs_ok (a : α) : OnlyErrs (.ok a : Except Fault α) := nofun

/-- The rule of sequence for checks with ordinary errors. -/
theorem OnlyErrs.bind {x : Except Fault α} {f : α → Except Fault γ} (hx : OnlyErrs x)
    (hf : ∀ a, OnlyErrs (f a)) : OnlyErrs (x >>= f) := by
  intro e h
  cases x with
  | error e' =>
      cases h
      exact hx _ rfl
  | ok a => exact hf a e h

/-- The rule of choice for checks with ordinary errors. -/
theorem OnlyErrs.ite {c : Prop} [Decidable c] {x y : Except Fault α} (hx : OnlyErrs x)
    (hy : OnlyErrs y) :
    OnlyErrs (if c then x else y) := by
  split
  · exact hx
  · exact hy

end OnlyErrs

/-- The check of a range in slots only fails with ordinary errors. -/
theorem onlyErrs_checkSlotRange (deal : Deal) (stripe : StripeParams)
    (msg : MsgOpenRetrievalSession) :
    OnlyErrs (checkSlotRange deal stripe msg) := by
  refine onlyErrs_rejectIf.bind fun _ => ?_
  refine onlyErrs_mapError.bind fun _ => ?_
  refine onlyErrs_mapError.bind fun _ => ?_
  exact onlyErrs_rejectIf.bind fun _ => onlyErrs_rejectIf

/-- The check of a range in blobs only fails with ordinary errors. -/
theorem onlyErrs_checkBlobRange (deal : Deal) (stripe : StripeParams)
    (msg : MsgOpenRetrievalSession) :
    OnlyErrs (checkBlobRange deal stripe msg) := by
  refine onlyErrs_rejectIf.bind fun _ => ?_
  refine onlyErrs_rejectIf.bind fun _ => ?_
  refine OnlyErrs.ite ?_ ?_
  · refine (onlyErrs_checkSlotRange deal stripe msg).bind fun _ => OnlyErrs.ite ?_ (onlyErrs_ok _)
    exact onlyErrs_rejectIf.bind fun _ => onlyErrs_rejectIf
  · refine OnlyErrs.ite ?_ (onlyErrs_ok _)
    exact onlyErrs_rejectIf.bind fun _ => onlyErrs_rejectIf

/-- The checks of an opening only fail with ordinary errors. -/
theorem onlyErrs_checkOpen (codec : AddressCodec) (msg : MsgOpenRetrievalSession)
    (deals : KVStore Nat Deal) :
    OnlyErrs (checkOpen codec msg deals) := by
  refine onlyErrs_rejectIf.bind fun _ => ?_
  refine onlyErrs_rejectIf.bind fun _ => ?_
  refine onlyErrs_orFail.bind fun deal => ?_
  refine onlyErrs_rejectIf.bind fun _ => ?_
  refine onlyErrs_rejectIf.bind fun _ => ?_
  refine onlyErrs_rejectIf.bind fun _ => ?_
  refine onlyErrs_mapError.bind fun stripe => ?_
  refine (onlyErrs_checkBlobRange deal stripe msg).bind fun _ => ?_
  refine onlyErrs_rejectIf.bind fun _ => ?_
  refine onlyErrs_orFail.bind fun _ => ?_
  exact onlyErrs_orFail.bind fun _ => onlyErrs_ok _

/-! ### One opening -/

/-- The fees of a session can be charged: the escrow covers them, and the base fee can be burned. -/
def FeesPayable (env : Env β) (ctx : Ctx) (params : Params)
    (msg : MsgOpenRetrievalSession) (deal : Deal) (s : KeeperState β) : Prop :=
  0 < totalFee params msg.blobCount →
    totalFee params msg.blobCount ≤ deal.escrowBalance ∧
      (0 < params.baseRetrievalFee.amount →
        (env.bank.burnCoins ctx s.bank moduleName params.baseRetrievalFee).isSome)

/-- What comes after the fees goes through: the nonce is new, and the session id is computed. -/
def Recordable (env : Env β) (msg : MsgOpenRetrievalSession) (s : KeeperState β) (plan : OpenPlan) :
    Prop :=
  lastNonce s.retrievalSessionNonces (sessionNonceKey msg) < msg.nonce ∧
    ∃ sessionId, sessionIdOf env msg plan = .ok sessionId

section Opening

variable {env : Env β} {ctx : Ctx} {s s' : KeeperState β}

/-- The fees are charged, or they are refused and nothing is written. The escrow is checked first,
and then the base fee is burned; a refused burn is an error before anything is written. -/
theorem chargeFees_cases (env : Env β) (ctx : Ctx) (params : Params) (msg : MsgOpenRetrievalSession)
    (deal : Deal) (s : KeeperState β) :
    (FeesPayable env ctx params msg deal s ∧ ∃ s₁, (chargeFees env ctx params msg deal).exec s =
      (.ok (), s₁)) ∨
      ¬FeesPayable env ctx params msg deal s ∧
        ∃ code text, (chargeFees env ctx params msg deal).exec s =
          (.error (.err code text), s) := by
  rw [chargeFees, Tx.exec_ite]
  -- without a fee nothing is charged
  by_cases htotal : 0 < totalFee params msg.blobCount
  · rw [if_pos htotal]
    -- the escrow does not hold the fees
    by_cases hescrow : deal.escrowBalance - totalFee params msg.blobCount < 0
    · refine .inr ⟨fun hpayable => ?_, _, _,
        Tx.exec_failIf_bind_error.mpr (.inl ⟨hescrow, rfl, rfl⟩)⟩
      have hle := (hpayable htotal).1
      omega
    · rw [Tx.exec_bind, Tx.exec_failIf, if_neg hescrow]
      simp only [burnBaseFee]
      by_cases hbase : 0 < params.baseRetrievalFee.amount
      · rw [if_pos hbase]
        cases hburn : env.bank.burnCoins ctx s.bank moduleName params.baseRetrievalFee with
        | none =>
            refine .inr ⟨fun hpayable => ?_, _, _,
              Tx.exec_bind_error.mpr (.inl (bankCall_error.mpr ⟨hburn, rfl, rfl⟩))⟩
            have hsome := (hpayable htotal).2 hbase
            rw [hburn] at hsome
            cases hsome
        | some b =>
            exact .inl ⟨fun _ => ⟨by omega, fun _ => by rw [hburn]; rfl⟩, _,
              bankCall_bind_ok.mpr ⟨b, hburn, rfl⟩⟩
      · rw [if_neg hbase, Tx.exec_pure_bind]
        exact .inl ⟨fun _ => ⟨by omega, fun hpos => absurd hpos hbase⟩, _, rfl⟩
  · rw [if_neg htotal]
    exact .inl ⟨fun hpos => absurd hpos htotal, s, rfl⟩

/-- An opening that was not refused: the fees are charged, and the session is recorded or refused. A
refusal after the fees leaves them charged. -/
theorem openRetrievalSession_charged {msg : MsgOpenRetrievalSession} {plan : OpenPlan}
    {s₁ : KeeperState β} (hplan : checkOpen env.codec msg s.deals = .ok plan)
    (hcharge : (chargeFees env ctx s.getParams msg plan.deal).exec s = (.ok (), s₁)) :
    (Recordable env msg s plan ∧ ∃ sessionId s',
        (openRetrievalSession env ctx msg).exec s = (.ok sessionId, s') ∧
          SessionOpened env ctx msg s s' plan sessionId) ∨
      ¬Recordable env msg s plan ∧
        ∃ code text, (openRetrievalSession env ctx msg).exec s = (.error (.err code text), s₁) := by
  have hcharged := chargeFees_ok hcharge
  have hnonces : s₁.retrievalSessionNonces = s.retrievalSessionNonces := by rw [hcharged.frame]
  have hrun : (openRetrievalSession env ctx msg).exec s =
      (Tx.failIf (msg.nonce ≤ lastNonce s₁.retrievalSessionNonces (sessionNonceKey msg))
        (errInvalidRequest "nonce replay rejected") >>= fun _ =>
          Tx.ofExcept ((sessionIdOf env msg plan).mapError fun text =>
            errInvalidRequest ("failed to compute session_id: " ++ text)) >>= fun sessionId =>
          Tx.update (storeSession ctx msg
            (newSession ctx msg sessionId plan.totalBytes
              (variableFee s.getParams msg.blobCount))) >>=
            fun _ => pure sessionId).exec s₁ := by
    rw [openRetrievalSession, Tx.exec_bind, Tx.exec_reads, hplan]
    show (Tx.gets KeeperState.getParams >>= _).exec s = _
    rw [Tx.exec_gets_bind, Tx.exec_bind, hcharge]
    show (Tx.gets _ >>= _).exec s₁ = _
    rw [Tx.exec_gets_bind]
  rw [hrun, hnonces]
  -- the nonce may have been used
  by_cases hnonce : msg.nonce ≤ lastNonce s.retrievalSessionNonces (sessionNonceKey msg)
  · refine .inr ⟨fun hrecord => ?_, _, _, Tx.exec_failIf_bind_error.mpr (.inl ⟨hnonce, rfl, rfl⟩)⟩
    exact absurd hnonce (UInt64.not_le.mpr hrecord.1)
  · rw [Tx.exec_bind, Tx.exec_failIf, if_neg hnonce]
    simp only
    -- the identity of the session cannot be made
    cases hid : sessionIdOf env msg plan with
    | error text =>
        refine .inr ⟨fun hrecord => ?_, _, _, Tx.exec_ofExcept_bind_error.mpr (.inl ⟨rfl, rfl⟩)⟩
        obtain ⟨sessionId, hok⟩ := hrecord.2
        rw [hid] at hok
        cases hok
    | ok sessionId =>
        refine .inl ⟨⟨UInt64.not_le.mp hnonce, sessionId, hid⟩, sessionId, _, rfl, ?_⟩
        exact ⟨hplan, UInt64.not_le.mp hnonce, hid, s₁, hcharged, rfl⟩

/-- What a charged fee leaves in the escrow. -/
theorem FeesCharged.deals_ne {params : Params} {msg : MsgOpenRetrievalSession} {deal : Deal}
    (h : FeesCharged env ctx params msg deal s s') (hget : s.deals.get msg.dealId.toNat = some deal)
    (htotal : 0 < totalFee params msg.blobCount) : s'.deals ≠ s.deals := by
  intro hsame
  have hdeals := h.deals
  rw [if_pos htotal, hsame] at hdeals
  have hset := congrArg (fun deals => deals.get msg.dealId.toNat) hdeals
  simp only [KVStore.get_set_self] at hset
  rw [hget] at hset
  have hescrow := congrArg Deal.escrowBalance (Option.some.inj hset)
  simp only [chargedDeal] at hescrow
  omega

/-- Without a fee nothing is charged. -/
theorem FeesCharged.eq_of_free {params : Params} {msg : MsgOpenRetrievalSession} {deal : Deal}
    (h : FeesCharged env ctx params msg deal s s') (htotal : ¬0 < totalFee params msg.blobCount) :
      s' = s := by
  have hbank := h.bank
  rw [if_neg fun hc => htotal hc.1] at hbank
  have hdeals := h.deals
  rw [if_neg htotal] at hdeals
  rw [h.frame, hbank, hdeals]

/-- The opening writes something: it is not refused, and it charges a fee or goes through. -/
def OpenWrites (env : Env β) (ctx : Ctx) (msg : MsgOpenRetrievalSession) (s : KeeperState β) :
    Prop :=
  ∃ plan, checkOpen env.codec msg s.deals = .ok plan ∧
    FeesPayable env ctx s.getParams msg plan.deal s ∧
    (0 < totalFee s.getParams msg.blobCount ∨ Recordable env msg s plan)

/-- An opening is refused and writes nothing, or fails after the fee, or goes through. Whether it
writes is decided by the state before it. -/
theorem openRetrievalSession_cases (env : Env β) (ctx : Ctx) (msg : MsgOpenRetrievalSession)
    (s : KeeperState β) :
    (¬OpenWrites env ctx msg s ∧
        ∃ code text, (openRetrievalSession env ctx msg).exec s = (.error (.err code text), s)) ∨
      (OpenWrites env ctx msg s ∧
        (∀ s' plan sessionId, ¬SessionOpened env ctx msg s s' plan sessionId) ∧
        ∃ code text s', (openRetrievalSession env ctx msg).exec s = (.error (.err code text), s') ∧
          s'.deals ≠ s.deals ∧ s'.retrievalSessionNonces = s.retrievalSessionNonces) ∨
      OpenWrites env ctx msg s ∧ ∃ plan sessionId s',
        (openRetrievalSession env ctx msg).exec s = (.ok sessionId, s') ∧
          SessionOpened env ctx msg s s' plan sessionId := by
  cases hplan : checkOpen env.codec msg s.deals with
  | error e =>
      obtain ⟨code, text, rfl⟩ := onlyErrs_checkOpen _ _ _ e hplan
      refine .inl ⟨?_, code, text, Tx.exec_reads_bind_error.mpr (.inl ⟨hplan, rfl⟩)⟩
      rintro ⟨plan, hok, -⟩
      rw [hplan] at hok
      cases hok
  | ok plan =>
      have hunique : ∀ plan', checkOpen env.codec msg s.deals = .ok plan' → plan' = plan := by
        intro plan' hplan'
        rw [hplan] at hplan'
        exact (Except.ok.inj hplan').symm
      -- the fees are charged, or refused
      rcases chargeFees_cases env ctx s.getParams msg plan.deal s with
        ⟨hpayable, s₁, hcharge⟩ | ⟨hrefused, code, text, hcharge⟩
      · rcases openRetrievalSession_charged hplan hcharge with
          ⟨hrecord, sessionId, s', hopen, hopened⟩ | ⟨hlost, code, text, hopen⟩
        · exact .inr
            (.inr ⟨⟨plan, hplan, hpayable, .inr hrecord⟩, plan, sessionId, s', hopen, hopened⟩)
        -- a refusal after a fee leaves the deal with less escrow
        · have hcharged := chargeFees_ok hcharge
          by_cases htotal : 0 < totalFee s.getParams msg.blobCount
          · refine .inr (.inl ⟨⟨plan, hplan, hpayable, .inl htotal⟩,
              fun s' plan' sessionId hopened => ?_, code, text, s₁, hopen,
              hcharged.deals_ne (checkOpen_ok hplan).1 htotal, by rw [hcharged.frame]⟩)
            cases hunique plan' hopened.plan_eq
            exact hlost ⟨hopened.nonce_lt, sessionId, hopened.sessionId_eq⟩
          -- and one after no fee leaves everything as it was
          · rw [hcharged.eq_of_free htotal] at hopen
            refine .inl ⟨?_, code, text, hopen⟩
            rintro ⟨plan', hplan', -, hfee | hrecord⟩
            · exact htotal hfee
            · cases hunique plan' hplan'
              exact hlost hrecord
      · refine .inl ⟨?_, code, text, ?_⟩
        · rintro ⟨plan', hplan', hpayable, -⟩
          cases hunique plan' hplan'
          exact hrefused hpayable
        · refine Tx.exec_reads_bind_error.mpr (.inr ⟨plan, hplan, ?_⟩)
          rw [Tx.exec_gets_bind]
          exact Tx.exec_bind_error.mpr (.inl hcharge)

namespace Precompile

/-- The opening goes through, and leaves the second state. -/
def OpensInput (env : Env β) (ctx : Ctx) (creator : Str) (method : String)
    (input : OpenSessionInput) (s s' : KeeperState β) : Prop :=
  input.check method = .ok () ∧
    ∃ plan sessionId, SessionOpened env ctx (input.toMsg creator) s s' plan sessionId

/-- The opening of a call passes its checks and writes something. -/
def InputWrites (env : Env β) (ctx : Ctx) (creator : Str) (method : String) (s : KeeperState β)
    (input : OpenSessionInput) : Prop :=
  input.check method = .ok () ∧ OpenWrites env ctx (input.toMsg creator) s

/-- The checks of the precompile's input only fail with ordinary errors. -/
theorem onlyErrs_check (input : OpenSessionInput) (method : String) :
    OnlyErrs (input.check method) := by
  refine onlyErrs_rejectIf.bind fun _ => ?_
  exact onlyErrs_rejectIf.bind fun _ => onlyErrs_rejectIf

/-- The same of an opening of a call, which checks its input first, and the length of the session's
identity last. -/
theorem openSession_cases (env : Env β) (ctx : Ctx) (creator : Str) (method : String)
    (input : OpenSessionInput) (s : KeeperState β) :
    (¬InputWrites env ctx creator method s input ∧
        ∃ code text, (openSession env ctx creator method input).exec s =
          (.error (.err code text), s)) ∨
      (InputWrites env ctx creator method s input ∧
        (∀ s', ¬OpensInput env ctx creator method input s s') ∧
        ∃ code text s', (openSession env ctx creator method input).exec s =
          (.error (.err code text), s') ∧
          s'.deals ≠ s.deals ∧ s'.retrievalSessionNonces = s.retrievalSessionNonces) ∨
      InputWrites env ctx creator method s input ∧ ∃ sessionId s',
        (openSession env ctx creator method input).exec s = (.ok sessionId, s') ∧
          OpensInput env ctx creator method input s s' := by
  cases hcheck : input.check method with
  | error e =>
      obtain ⟨code, text, rfl⟩ := onlyErrs_check input method e hcheck
      refine .inl ⟨fun hwrites => ?_, code, text,
        Tx.exec_ofExcept_bind_error.mpr (.inl ⟨hcheck, rfl⟩)⟩
      have hok := hwrites.1
      rw [hcheck] at hok
      cases hok
  | ok u =>
      -- the input has passed, so the message is opened
      have hrun : (openSession env ctx creator method input).exec s =
          (openRetrievalSession env ctx (input.toMsg creator) >>= fun sessionId =>
            Tx.failIf (sessionId.length ≠ 32) (errorf (method ++ ": invalid session id")) >>=
                fun _ =>
              pure sessionId).exec s := by
        rw [openSession, Tx.exec_bind, Tx.exec_ofExcept, hcheck]
      rw [hrun]
      rcases openRetrievalSession_cases env ctx (input.toMsg creator) s with
        ⟨hnone, code, text, hopen⟩ | ⟨hwrites, hlost, code, text, s', hopen, hdeals⟩ |
          ⟨hwrites, plan, sessionId, s', hopen, hopened⟩
      · exact .inl ⟨fun hwrites => hnone hwrites.2, code, text, Tx.exec_bind_error.mpr (.inl hopen)⟩
      · refine .inr (.inl ⟨⟨hcheck, hwrites⟩, ?_, code, text, s',
          Tx.exec_bind_error.mpr (.inl hopen), hdeals⟩)
        rintro s₁ ⟨-, plan, sessionId, hopened⟩
        exact hlost s₁ plan sessionId hopened
      · refine .inr (.inr ⟨⟨hcheck, hwrites⟩, sessionId, s', ?_, hcheck, plan, sessionId, hopened⟩)
        -- the identity is a hash, so its length is right
        obtain ⟨-, -, -, hid⟩ := sessionIdOf_ok hopened.sessionId_eq
        have hlength : ¬sessionId.length ≠ 32 := by
          rw [hid, env.length_keccak256]
          exact not_not.mpr rfl
        rw [Tx.exec_bind, hopen]
        exact Tx.exec_failIf_bind_ok.mpr ⟨hlength, rfl⟩

/-! ### Lists of openings -/

/-- The openings go through, one after the other. -/
def OpensInputs (env : Env β) (ctx : Ctx) (creator : Str) (method : String) :
    List OpenSessionInput → KeeperState β → Prop
  | [], _ => True
  | input :: rest, s => ∃ s', OpensInput env ctx creator method input s s' ∧
    OpensInputs env ctx creator method rest s'

/-- No nonce of a session goes back. -/
def NoncesGrow (s s' : KeeperState β) : Prop :=
  ∀ k, lastNonce s.retrievalSessionNonces k ≤ lastNonce s'.retrievalSessionNonces k

/-- Steps under which no nonce falls compose. -/
theorem NoncesGrow.trans (a b c : KeeperState β) (hab : NoncesGrow a b) (hbc : NoncesGrow b c) :
    NoncesGrow a c := fun k => UInt64.le_trans (hab k) (hbc k)

/-- Nonces that did not change have not fallen. -/
theorem noncesGrow_of_eq (h : s'.retrievalSessionNonces = s.retrievalSessionNonces) :
    NoncesGrow s s' := by
  intro k
  rw [h]
  exact UInt64.le_refl _

/-- An opening raises its nonce, and touches no other. -/
theorem OpensInput.nonce_lt {creator : Str} {method : String} {input : OpenSessionInput}
    (h : OpensInput env ctx creator method input s s') :
    NoncesGrow s s' ∧ ∃ k, lastNonce s.retrievalSessionNonces k <
      lastNonce s'.retrievalSessionNonces k := by
  obtain ⟨-, plan, sessionId, hopened⟩ := h
  obtain ⟨s₁, hcharged, rfl⟩ := hopened.charged
  have hlt := hopened.nonce_lt
  have hnonces : s₁.retrievalSessionNonces = s.retrievalSessionNonces := by rw [hcharged.frame]
  have hself : lastNonce (s.retrievalSessionNonces.set (sessionNonceKey (input.toMsg creator))
      (input.toMsg creator).nonce) (sessionNonceKey (input.toMsg creator)) =
        (input.toMsg creator).nonce := by
    rw [lastNonce, KVStore.get_set_self]
    rfl
  refine ⟨fun k => ?_, sessionNonceKey (input.toMsg creator), ?_⟩
  · show _ ≤ lastNonce (s₁.retrievalSessionNonces.set _ _) k
    rw [hnonces]
    by_cases hk : k = sessionNonceKey (input.toMsg creator)
    · rw [hk, hself]
      exact UInt64.le_of_lt hlt
    · rw [lastNonce, lastNonce, KVStore.get_set_ne _ hk]
      exact UInt64.le_refl _
  · show _ < lastNonce (s₁.retrievalSessionNonces.set _ _) _
    rw [hnonces, hself]
    exact hlt

/-- An input that opened a session is one that writes. -/
theorem OpensInput.writes {creator : Str} {method : String} {input : OpenSessionInput}
    (h : OpensInput env ctx creator method input s s') :
      InputWrites env ctx creator method s input := by
  obtain ⟨hcheck, plan, sessionId, hopened⟩ := h
  refine ⟨hcheck, plan, hopened.plan_eq, fun htotal => ?_,
    .inr ⟨hopened.nonce_lt, sessionId, hopened.sessionId_eq⟩⟩
  obtain ⟨s₁, hcharged, -⟩ := hopened.charged
  refine ⟨hcharged.affordable htotal, fun hbase => ?_⟩
  have hbank := hcharged.bank
  rw [if_pos ⟨htotal, hbase⟩] at hbank
  rw [hbank]
  rfl

/-- An opening that goes through leaves one state: plan, identity and charges are determined by the
state before. -/
theorem OpensInput.unique {creator : Str} {method : String} {input : OpenSessionInput}
    {s'' : KeeperState β}
    (h : OpensInput env ctx creator method input s s')
    (h' : OpensInput env ctx creator method input s s'') : s' = s'' := by
  obtain ⟨-, plan, sessionId, hopened⟩ := h
  obtain ⟨-, plan', sessionId', hopened'⟩ := h'
  have hplan := hopened.plan_eq
  rw [hopened'.plan_eq] at hplan
  cases hplan
  have hid := hopened.sessionId_eq
  rw [hopened'.sessionId_eq] at hid
  cases hid
  obtain ⟨s₁, hcharged, rfl⟩ := hopened.charged
  obtain ⟨s₂, hcharged', rfl⟩ := hopened'.charged
  -- the bank is called with the same arguments
  have hbank : s₁.bank = s₂.bank := by
    have h₁ := hcharged.bank
    have h₂ := hcharged'.bank
    split at h₁
    · rename_i hpays
      rw [if_pos hpays, h₁] at h₂
      exact Option.some.inj h₂
    · rename_i hfree
      rw [if_neg hfree] at h₂
      rw [h₁, h₂]
  have hsame : s₁ =
    s₂ := by rw [hcharged.frame, hcharged'.frame, hbank, hcharged.deals, hcharged'.deals]
  rw [hsame]

/-- The openings of a list all go through, or the list fails; no nonce goes back. So what a failed
list has opened keeps its nonces. -/
theorem openSessions_run (env : Env β) (ctx : Ctx) (creator : Str) (inputs : List OpenSessionInput)
    (s : KeeperState β) :
    ∃ res s', (openSessions env ctx creator inputs).exec s = (res, s') ∧ NoncesGrow s s' ∧
      ((OpensInputs env ctx creator "openRetrievalSessions" inputs s ∧ ∃ ids, res = .ok ids) ∨
        ¬OpensInputs env ctx creator "openRetrievalSessions" inputs s ∧
          ∃ code text, res = .error (.err code text)) := by
  -- by the list; a failure of the first is one of the list
  induction inputs generalizing s with
  | nil => exact ⟨_, s, rfl, noncesGrow_of_eq rfl, .inl ⟨trivial, [], rfl⟩⟩
  | cons input rest ih =>
      rcases openSession_cases env ctx creator "openRetrievalSessions" input s with
        ⟨hnone, code, text, hopen⟩ | ⟨-, hlost, code, text, s', hopen, -, hnonces⟩ |
          ⟨-, sessionId, s', hopen, hopens⟩
      · refine ⟨_, s, Tx.exec_bind_error.mpr (.inl hopen), noncesGrow_of_eq rfl,
          .inr ⟨?_, code, text, rfl⟩⟩
        rintro ⟨s₁, hopens, -⟩
        exact hnone hopens.writes
      · refine ⟨_, s', Tx.exec_bind_error.mpr (.inl hopen), noncesGrow_of_eq hnonces,
          .inr ⟨?_, code, text, rfl⟩⟩
        rintro ⟨s₁, hopens, -⟩
        exact hlost s₁ hopens
      -- the first one goes through, and the rest decides
      · obtain ⟨res, s₂, hrest, hgrow, ⟨hgoes, ids, rfl⟩ | ⟨hstops, code, text, rfl⟩⟩ := ih s'
        · refine ⟨.ok (sessionId :: ids), s₂, ?_, hopens.nonce_lt.1.trans _ _ _ hgrow,
            .inl ⟨⟨s', hopens, hgoes⟩, _, rfl⟩⟩
          exact Tx.exec_bind_ok.mpr ⟨sessionId, s', hopen,
            Tx.exec_bind_ok.mpr ⟨ids, s₂, hrest, rfl⟩⟩
        · refine ⟨_, s₂, ?_, hopens.nonce_lt.1.trans _ _ _ hgrow, .inr ⟨?_, code, text, rfl⟩⟩
          · exact Tx.exec_bind_error.mpr
              (.inr ⟨sessionId, s', hopen, Tx.exec_bind_error.mpr (.inl hrest)⟩)
          · rintro ⟨s₁, hopens₁, hrest₁⟩
            rw [← hopens.unique hopens₁] at hrest₁
            exact hstops hrest₁

/-- One opening leaves no trace when it fails, if and only if it writes nothing or goes through. -/
theorem openSession_clean_iff {creator : Str} {method : String} {input : OpenSessionInput} :
    FailsClean env (openSession env ctx creator method input) s ↔
      (InputWrites env ctx creator method s input →
        OpensInputs env ctx creator method [input] s) := by
  rcases openSession_cases env ctx creator method input s with
    ⟨hnone, code, text, hopen⟩ | ⟨hwrites, hlost, code, text, s', hopen, hdeals, -⟩ |
      ⟨-, sessionId, s', hopen, hopens⟩
  · rw [failsClean_of_error hopen]
    exact ⟨fun _ hwrites => absurd hwrites hnone, fun _ _ => .refl env s⟩
  · rw [failsClean_of_error hopen]
    refine ⟨fun hclean => absurd (hclean ⟨code, text, rfl⟩).deals hdeals, fun hall => ?_⟩
    obtain ⟨s₁, hopens, -⟩ := hall hwrites
    exact absurd hopens (hlost s₁)
  · exact ⟨fun _ _ => ⟨s', hopens, trivial⟩, fun _ => failsClean_of_ok hopen⟩

/-- A list of openings leaves no trace when it fails, if and only if the first one writes nothing or
all of them go through. -/
theorem openSessions_clean_iff {creator : Str} {input : OpenSessionInput}
    {rest : List OpenSessionInput} :
    FailsClean env (openSessions env ctx creator (input :: rest)) s ↔
      (InputWrites env ctx creator "openRetrievalSessions" s input →
        OpensInputs env ctx creator "openRetrievalSessions" (input :: rest) s) := by
  obtain ⟨res, s₂, hrun, -, ⟨hall, ids, rfl⟩ | ⟨hall, -⟩⟩ :=
    openSessions_run env ctx creator (input :: rest) s
  -- a list that goes through does not fail
  · exact ⟨fun _ _ => hall, fun _ => failsClean_of_ok hrun⟩
  · rcases openSession_cases env ctx creator "openRetrievalSessions" input s with
      ⟨hnone, code, text, hopen⟩ | ⟨hwrites, hlost, code, text, s', hopen, hdeals, -⟩ |
        ⟨hwrites, sessionId, s', hopen, hopens⟩
    · have hfirst : (openSessions env ctx creator (input :: rest)).exec s =
          (.error (.err code text), s) :=
        Tx.exec_bind_error.mpr (.inl hopen)
      rw [failsClean_of_error hfirst]
      exact ⟨fun _ hwrites => absurd hwrites hnone, fun _ _ => .refl env s⟩
    · have hfirst : (openSessions env ctx creator (input :: rest)).exec s =
          (.error (.err code text), s') :=
        Tx.exec_bind_error.mpr (.inl hopen)
      rw [failsClean_of_error hfirst]
      exact ⟨fun hclean => absurd (hclean ⟨code, text, rfl⟩).deals hdeals, fun h =>
        absurd (h hwrites) hall⟩
    · -- The first one goes through, and a later one does not.
      refine ⟨fun hclean => ?_, fun h => absurd (h hwrites) hall⟩
      obtain ⟨res', s₃, hrest, hgrow, ⟨hgoes, -⟩ | ⟨-, code, text, rfl⟩⟩ :=
        openSessions_run env ctx creator rest s'
      · exact absurd ⟨s', hopens, hgoes⟩ hall
      -- the nonce that was raised is the trace
      have hsame := hclean code text s₃ (Tx.exec_bind_error.mpr
        (.inr ⟨sessionId, s', hopen, Tx.exec_bind_error.mpr (.inl hrest)⟩))
      obtain ⟨k, hlt⟩ := hopens.nonce_lt.2
      have hle := hgrow k
      rw [hsame.sessions.nonces] at hle
      exact absurd hle (UInt64.not_le.mpr hlt)

end Precompile

end Opening

end NilStore.Chain
