import NilStore.Proofs.OpeningFailures

/-!
# `NilStore.Proofs.ConfirmFailures`: confirmations that fail in the middle

A confirmation fails with something written in two cases (`ConfirmStuck`). An expired session is
marked before the error is returned, and a settlement burns its part before it pays the provider.

In a list of confirmations, those that come first may have nothing to do, such as a session that is
complete. Any other one that succeeds moves its session on, and nothing moves it back
(`SessionsForward`), so then the rest of the list has to succeed too (`confirmSessions_clean_iff`).
-/

set_option autoImplicit false

namespace NilStore.Chain

open NilStore.Lib

variable {β : Type}

/-! ### Sessions move forward -/

/-- How far a session is. -/
def RetrievalSessionStatus.rank : RetrievalSessionStatus → Nat
  | .unspecified => 0
  | .open => 1
  | .userConfirmed => 2
  | .proofSubmitted => 2
  | .completed => 3
  | .canceled => 3
  | .expired => 4

/-- The session is further on: its status is, or it was touched in this block for the first time. -/
def Later (ctx : Ctx) (x y : RetrievalSession) : Prop :=
  x.status.rank < y.status.rank ∨
    x.status = y.status ∧ x.updatedHeight ≠ ctx.blockHeight ∧ y.updatedHeight = ctx.blockHeight

/-- Being further on is transitive. A touch in this block counts once: the second one would need an
older height. -/
theorem Later.trans {ctx : Ctx} {x y z : RetrievalSession} (hxy : Later ctx x y)
    (hyz : Later ctx y z) :
    Later ctx x z := by
  rcases hxy with hxy | ⟨hxy, hx, hy⟩
  · rcases hyz with hyz | ⟨hyz, -, -⟩
    · exact .inl (hxy.trans hyz)
    · exact .inl (by rwa [← hyz])
  · rcases hyz with hyz | ⟨-, hy', -⟩
    · exact .inl (by rwa [hxy])
    · exact absurd hy hy'

/-- No session is further on than itself. -/
theorem Later.irrefl {ctx : Ctx} {x : RetrievalSession} : ¬Later ctx x x := by
  rintro (h | ⟨-, hne, heq⟩)
  · exact lt_irrefl _ h
  · exact hne heq

/-- Every session is as it was or further on. -/
def SessionsForward (ctx : Ctx) (s s' : KeeperState β) : Prop :=
  ∀ id, s'.retrievalSessions.get id = s.retrievalSessions.get id ∨
    ∃ x y, s.retrievalSessions.get id = some x ∧
      s'.retrievalSessions.get id = some y ∧ Later ctx x y

section Forward

variable {ctx : Ctx} {s s' s'' : KeeperState β}

/-- Sessions that did not change have not moved back. -/
theorem sessionsForward_of_eq (h : s'.retrievalSessions = s.retrievalSessions) :
    SessionsForward ctx s s' :=
  fun id => .inl (by rw [h])

/-- Steps that move sessions forward compose. -/
theorem SessionsForward.trans (h : SessionsForward ctx s s') (h' : SessionsForward ctx s' s'') :
    SessionsForward ctx s s'' := by
  intro id
  rcases h id with hsame | ⟨x, y, hx, hy, hxy⟩
  · rcases h' id with hsame' | ⟨y, z, hy, hz, hyz⟩
    · exact .inl (hsame'.trans hsame)
    · exact .inr ⟨y, z, hsame ▸ hy, hz, hyz⟩
  · rcases h' id with hsame' | ⟨y', z, hy', hz, hyz⟩
    · exact .inr ⟨x, y, hx, hsame' ▸ hy, hxy⟩
    · rw [hy] at hy'
      cases hy'
      exact .inr ⟨x, z, hx, hz, hxy.trans hyz⟩

/-- One session that has moved stays moved. -/
theorem SessionsForward.ne {id : Bytes} {x y : RetrievalSession}
    (hx : s.retrievalSessions.get id = some x)
    (hy : s'.retrievalSessions.get id = some y) (hxy : Later ctx x y)
    (h : SessionsForward ctx s' s'') :
    s''.retrievalSessions ≠ s.retrievalSessions := by
  intro hsame
  rcases h id with hkept | ⟨y', z, hy', hz, hyz⟩
  · rw [hsame, hx, hy] at hkept
    cases hkept
    exact Later.irrefl hxy
  · rw [hy] at hy'
    cases hy'
    rw [hsame, hx] at hz
    cases hz
    exact Later.irrefl (hxy.trans hyz)

/-- A session that is written further on. -/
theorem sessionsForward_setSession {id : Bytes} {x y : RetrievalSession}
    (hx : s.retrievalSessions.get id = some x) (hxy : Later ctx x y)
    (hs' : s'.retrievalSessions = s.retrievalSessions.set id y) : SessionsForward ctx s s' := by
  intro id'
  by_cases hid : id' = id
  · rw [hid]
    exact .inr ⟨x, y, hx, by rw [hs', KVStore.get_set_self], hxy⟩
  · exact .inl (by rw [hs', KVStore.get_set_ne _ hid])

end Forward

/-! ### Settling -/

/-- The provider of a session can be paid. -/
def ProviderPayable (env : Env β) (ctx : Ctx) (provider : Str) (cut : Int) (b : β) : Prop :=
  0 < cut → ∃ addr, env.codec.accAddressFromBech32 provider = some addr ∧
    (env.bank.sendCoinsFromModuleToAccount ctx b moduleName addr (bondCoin cut)).isSome

/-- The settlement burns its part of the fee, and then it cannot pay the provider. -/
def SettleStuck (env : Env β) (ctx : Ctx) (session : RetrievalSession) (s : KeeperState β) : Prop :=
  0 < session.lockedFee ∧ 0 < settleBurn s.getParams session.lockedFee ∧
    ∃ b, env.bank.burnCoins ctx s.bank moduleName
      (bondCoin (settleBurn s.getParams session.lockedFee)) = some b ∧
      ¬ProviderPayable env ctx session.provider
        (session.lockedFee - settleBurn s.getParams session.lockedFee) b

section Settle

variable {env : Env β} {ctx : Ctx} {s : KeeperState β}

/-- Paying the provider either succeeds or fails cleanly, and the state before it tells which.
Nothing is paid when nothing is left after the burn, and then the address is not read. -/
theorem payProvider_cases (env : Env β) (ctx : Ctx) (provider : Str) (cut : Int)
    (s : KeeperState β) :
    (ProviderPayable env ctx provider cut s.bank ∧ ∃ s', (payProvider env ctx provider cut).exec s =
      (.ok (), s')) ∨
      ¬ProviderPayable env ctx provider cut s.bank ∧
        ∃ code text, (payProvider env ctx provider cut).exec s = (.error (.err code text), s) := by
  rw [payProvider, Tx.exec_ite]
  -- only a positive amount is sent
  by_cases hcut : 0 < cut
  · rw [if_pos hcut]
    cases haddr : env.codec.accAddressFromBech32 provider with
    | none =>
        refine .inr ⟨fun hpayable => ?_, _, _, Tx.exec_ofExcept_bind_error.mpr (.inl ⟨rfl, rfl⟩)⟩
        obtain ⟨addr, haddr', -⟩ := hpayable hcut
        rw [haddr] at haddr'
        cases haddr'
    | some addr =>
        rw [Tx.exec_bind, Tx.exec_ofExcept]
        simp only [orFail]
        -- the bank may refuse, which writes nothing
        cases hsend : env.bank.sendCoinsFromModuleToAccount ctx s.bank moduleName addr
          (bondCoin cut) with
        | none =>
            refine .inr ⟨fun hpayable => ?_, _, _, bankCall_error.mpr ⟨hsend, rfl, rfl⟩⟩
            obtain ⟨addr', haddr', hsome⟩ := hpayable hcut
            rw [haddr] at haddr'
            cases haddr'
            rw [hsend] at hsome
            cases hsome
        | some b =>
            refine .inl ⟨fun _ => ⟨addr, haddr, by rw [hsend]; rfl⟩, _,
              bankCall_ok.mpr ⟨b, hsend, rfl⟩⟩
  · rw [if_neg hcut]
    exact .inl ⟨fun hpos => absurd hpos hcut, s, rfl⟩

/-- A settlement succeeds, or fails with nothing written, or is stuck after the burn. The burn comes
before the payment, so a payment that fails leaves the module with less money. -/
theorem settleRetrievalSession_cases (env : Env β) (ctx : Ctx) (session : RetrievalSession)
    (s : KeeperState β) :
    (¬SettleStuck env ctx session s ∧
      ∃ settled s', (settleRetrievalSession env ctx session).exec s = (.ok settled, s')) ∨
      (¬SettleStuck env ctx session s ∧
        ∃ code text, (settleRetrievalSession env ctx session).exec s =
          (.error (.err code text), s)) ∨
      SettleStuck env ctx session s ∧ ∃ code text b,
        (settleRetrievalSession env ctx session).exec s =
          (.error (.err code text), { s with bank := b }) ∧
          env.bank.balance b env.moduleAddr bondDenom ≠
            env.bank.balance s.bank env.moduleAddr bondDenom := by
  rw [settleRetrievalSession, Tx.exec_ite]
  by_cases hfee : 0 < session.lockedFee
  · have hunderflow : ¬session.lockedFee - settleBurn s.getParams session.lockedFee < 0 := by
      have hle := @settleBurn_le s.getParams _ hfee
      omega
    rw [if_pos hfee, Tx.exec_gets_bind]
    simp only [burnFee]
    rw [Tx.exec_bind, Tx.exec_failIf, if_neg hunderflow]
    simp only
    -- with a burn there are three ways to go on
    by_cases hburn : 0 < settleBurn s.getParams session.lockedFee
    · rw [if_pos hburn]
      cases hcall : env.bank.burnCoins ctx s.bank moduleName
          (bondCoin (settleBurn s.getParams session.lockedFee)) with
      | none =>
          refine .inr (.inl ⟨?_, _, _, bankCall_bind_error.mpr (.inl ⟨hcall, rfl, rfl⟩)⟩)
          rintro ⟨-, -, b, hb, -⟩
          rw [hcall] at hb
          cases hb
      | some b =>
          rcases payProvider_cases env ctx session.provider
              (session.lockedFee - settleBurn s.getParams session.lockedFee) { s with bank := b }
                with
            ⟨hpayable, s', hpay⟩ | ⟨hstuck, code, text, hpay⟩
          · refine .inl ⟨?_, _, s',
              bankCall_bind_ok.mpr ⟨b, hcall, Tx.exec_bind_ok.mpr ⟨(), s', hpay, rfl⟩⟩⟩
            rintro ⟨-, -, b', hb', hstuck⟩
            rw [hcall] at hb'
            cases hb'
            exact hstuck hpayable
          · refine .inr (.inr ⟨⟨hfee, hburn, b, hcall, hstuck⟩, code, text, b,
              bankCall_bind_error.mpr (.inr ⟨b, hcall, Tx.exec_bind_error.mpr (.inl hpay)⟩),
              fun hsame => ?_⟩)
            -- The module has burned a positive amount.
            have hbalance := env.bank.balance_burn hcall env.moduleAddr bondDenom
            rw [hsame, debit, if_pos ⟨rfl, rfl⟩, bondCoin] at hbalance
            simp only at hbalance
            omega
    -- without a burn the payment is the first thing written
    · rw [if_neg hburn, Tx.exec_pure_bind]
      have hnot : ¬SettleStuck env ctx session s := fun h => hburn h.2.1
      rcases payProvider_cases env ctx session.provider
          (session.lockedFee - settleBurn s.getParams session.lockedFee) s with
        ⟨-, s', hpay⟩ | ⟨-, code, text, hpay⟩
      · exact .inl ⟨hnot, _, s', Tx.exec_bind_ok.mpr ⟨(), s', hpay, rfl⟩⟩
      · exact .inr (.inl ⟨hnot, code, text, Tx.exec_bind_error.mpr (.inl hpay)⟩)
  · rw [if_neg hfee]
    exact .inl ⟨fun h => hfee h.1, session, s, rfl⟩

/-- The payment succeeds where the bank takes the cut, and leaves that bank. -/
theorem payProvider_exec {provider : Str} {cut : Int} {b : β}
    (h : if 0 < cut then ∃ addr, env.codec.accAddressFromBech32 provider = some addr ∧
        env.bank.sendCoinsFromModuleToAccount ctx s.bank moduleName addr (bondCoin cut) = some b
      else b = s.bank) :
    (payProvider env ctx provider cut).exec s = (.ok (), { s with bank := b }) := by
  rw [payProvider, Tx.exec_ite]
  split at h
  · rename_i hcut
    obtain ⟨addr, haddr, hsend⟩ := h
    rw [if_pos hcut]
    exact Tx.exec_ofExcept_bind_ok.mpr ⟨addr, orFail_eq_ok.mpr haddr,
      bankCall_ok.mpr ⟨b, hsend, rfl⟩⟩
  · rename_i hcut
    rw [if_neg hcut, h]
    rfl

/-- A settlement that can be made is made. -/
theorem settleRetrievalSession_exec {session : RetrievalSession} {b : β}
    (hfee : 0 < session.lockedFee)
    (hpaid : FeeSettled env ctx (settleBurn s.getParams session.lockedFee)
      (session.lockedFee - settleBurn s.getParams session.lockedFee) session.provider s.bank b) :
    (settleRetrievalSession env ctx session).exec s =
      (.ok { session with lockedFee := 0 }, { s with bank := b }) := by
  have hle := @settleBurn_le s.getParams _ hfee
  obtain ⟨b₁, hburn, hpay⟩ := hpaid.paid
  rw [settleRetrievalSession, Tx.exec_ite, if_pos hfee, Tx.exec_gets_bind]
  refine Tx.exec_failIf_bind_ok.mpr ⟨by omega, burnFee_bind_ok.mpr ⟨b₁, hburn, ?_⟩⟩
  exact Tx.exec_bind_ok.mpr ⟨(), _, @payProvider_exec β env ctx { s with bank := b₁ } _ _ b hpay,
    rfl⟩

/-- Finishing a session succeeds wherever its effect is possible. -/
theorem Finished.exec {sessionId : Bytes} {session : RetrievalSession} {s' : KeeperState β}
    (h : Finished env ctx sessionId session s s') :
    (finishSession env ctx sessionId session).exec s = (.ok (), s') := by
  cases h with
  | settled hstatus hfee hpaid =>
      rw [finishSession, if_pos hstatus, Tx.exec_bind, settleRetrievalSession_exec hfee hpaid]
      rfl
  | free hstatus hfee =>
      rw [finishSession, if_pos hstatus, Tx.exec_bind, settleRetrievalSession,
        if_neg (not_lt.mpr hfee)]
      rfl
  | pending hstatus =>
      rw [finishSession, if_neg hstatus]
      rfl

end Settle

/-! ### One confirmation -/

/-- The session that the creator may confirm. -/
def confirmable (creator : Str) (sessionId : Bytes) (s : KeeperState β) :
    Except Fault RetrievalSession :=
  partySession sessionId (·.owner) creator
    "only session owner may confirm completion" s.retrievalSessions

/-- There is nothing to confirm: the session is complete, or it has been confirmed in this block. -/
def ConfirmIdle (ctx : Ctx) (creator : Str) (s : KeeperState β) (sessionId : Bytes) : Prop :=
  ∃ session, confirmable creator sessionId s = .ok session ∧ isSessionExpired ctx session = false ∧
    (session.status = .completed ∨
      confirmStatus session.status = session.status ∧ session.updatedHeight = ctx.blockHeight)

/-- The confirmation fails, and has written something: an expired session was not marked yet, or the
settlement of a complete one is stuck. -/
def ConfirmStuck (env : Env β) (ctx : Ctx) (creator : Str) (s : KeeperState β) (sessionId : Bytes) :
    Prop :=
  ∃ session, confirmable creator sessionId s = .ok session ∧
    if isSessionExpired ctx session then expireSession ctx session ≠ session
    else session.status = .proofSubmitted ∧ SettleStuck env ctx session s

/-- The confirmation goes through, and leaves the second state. -/
def Confirmed (env : Env β) (ctx : Ctx) (creator : Str) (sessionId : Bytes) (s s' : KeeperState β) :
    Prop :=
  ∃ session, confirmable creator sessionId s = .ok session ∧ isSessionExpired ctx session = false ∧
    Advanced env ctx sessionId confirmStatus session s s'

section Confirm

variable {env : Env β} {ctx : Ctx} {s s' : KeeperState β} {creator : Str} {sessionId : Bytes}

/-- The check of the party only fails with ordinary errors. -/
theorem onlyErrs_partySession {party : RetrievalSession → Str} {text : String}
    {sessions : KVStore Bytes RetrievalSession} :
    OnlyErrs (partySession sessionId party creator text sessions) := by
  refine onlyErrs_rejectIf.bind fun _ => ?_
  refine onlyErrs_orFail.bind fun _ => ?_
  exact onlyErrs_rejectIf.bind fun _ => onlyErrs_ok _

/-- Confirming moves the status on, or keeps it. -/
theorem rank_confirmStatus (status : RetrievalSessionStatus) :
    status.rank < (confirmStatus status).rank ∨ confirmStatus status = status := by
  cases status <;> first | exact .inl (by decide) | exact .inr rfl

/-- Only a session with a proof becomes complete. -/
theorem confirmStatus_ne_completed {status : RetrievalSessionStatus} (h : status ≠ .completed)
    (h' : status ≠ .proofSubmitted) : confirmStatus status ≠ .completed := by
  cases status <;> simp_all [confirmStatus]

/-- An expired session has the last status. -/
theorem later_expireSession {session : RetrievalSession} (h : expireSession ctx session ≠ session) :
    Later ctx session (expireSession ctx session) := by
  by_cases hstatus : session.status = .expired
  · refine .inr ⟨hstatus, fun hheight => h ?_, rfl⟩
    rw [expireSession, ← hstatus, ← hheight]
  · refine .inl ?_
    show session.status.rank < 4
    cases hs : session.status <;> first | exact absurd hs hstatus | decide

/-- The run of a confirmation of a session that is not expired and not complete. -/
theorem confirmRetrievalSession_exec {session : RetrievalSession}
    (hsession : confirmable creator sessionId s = .ok session)
    (hexp : isSessionExpired ctx session = false) (hstatus : session.status ≠ .completed) :
    (confirmRetrievalSession env ctx ⟨creator, sessionId⟩).exec s =
      (finishSession env ctx sessionId
        { session with
          status := confirmStatus session.status, updatedHeight := ctx.blockHeight }).exec s := by
  have hnot : ¬isSessionExpired ctx session = true := by rw [hexp]; exact Bool.false_ne_true
  refine (exec_reads_bind_of_ok hsession).trans ?_
  rw [rejectExpired, if_neg hnot, Tx.exec_pure_bind, if_neg hstatus]

/-- A confirmation succeeds wherever its effect is possible. -/
theorem Confirmed.exec (h : Confirmed env ctx creator sessionId s s') :
    (confirmRetrievalSession env ctx ⟨creator, sessionId⟩).exec s = (.ok (), s') := by
  obtain ⟨session, hsession, hexp, hadvanced⟩ := h
  cases hadvanced with
  | unchanged hstatus =>
      refine Tx.exec_reads_bind_ok.mpr ⟨session, hsession, rejectExpired_bind_ok.mpr ⟨hexp, ?_⟩⟩
      rw [if_pos hstatus]
      rfl
  | moved hstatus hfinished =>
      rw [confirmRetrievalSession_exec hsession hexp hstatus]
      exact hfinished.exec

/-- The run of a confirmation of an expired session. -/
theorem confirmRetrievalSession_expired {session : RetrievalSession}
    (hsession : confirmable creator sessionId s = .ok session)
    (hexp : isSessionExpired ctx session = true) :
    (confirmRetrievalSession env ctx ⟨creator, sessionId⟩).exec s =
      (.error (errInvalidRequest "retrieval session expired"),
        setSession (expireSession ctx session) sessionId s) := by
  refine (exec_reads_bind_of_ok hsession).trans ?_
  rw [rejectExpired, if_pos hexp, Tx.exec_bind]
  rfl

/-- Finishing writes the session with its status and its date. -/
theorem Finished.written {session : RetrievalSession}
    (h : Finished env ctx sessionId session s s') :
    ∃ y, s'.retrievalSessions = s.retrievalSessions.set sessionId y ∧ y.status = session.status ∧
      y.updatedHeight = session.updatedHeight := by
  cases h with
  | settled hstatus hfee hpaid => exact ⟨_, rfl, rfl, rfl⟩
  | free hstatus hfee => exact ⟨_, rfl, rfl, rfl⟩
  | pending hstatus => exact ⟨_, rfl, rfl, rfl⟩

/-- A session whose confirmation is finished is further on. -/
theorem forward_of_finished {session : RetrievalSession}
    (hget : s.retrievalSessions.get sessionId = some session)
    (hnew : ¬(confirmStatus session.status = session.status ∧
      session.updatedHeight = ctx.blockHeight))
    (h : Finished env ctx sessionId
      { session with status := confirmStatus session.status, updatedHeight := ctx.blockHeight } s
        s') :
    SessionsForward ctx s s' ∧ ∃ x y, s.retrievalSessions.get sessionId = some x ∧
      s'.retrievalSessions.get sessionId = some y ∧ Later ctx x y := by
  obtain ⟨y, hset, hstatus, hheight⟩ := h.written
  simp only at hstatus hheight
  have hlater : Later ctx session y := by
    rcases rank_confirmStatus session.status with hrank | hsame
    · exact .inl (by rwa [hstatus])
    · exact .inr ⟨by rw [hstatus, hsame], fun heq => hnew ⟨hsame, heq⟩, hheight⟩
  exact ⟨sessionsForward_setSession hget hlater hset, session, y,
    hget, by rw [hset, KVStore.get_set_self], hlater⟩

/-- A confirmation has nothing to do, or moves its session on, or fails. It has written something
when it fails exactly if it is stuck: it has marked the session as expired, or it has burned and
cannot pay. -/
theorem confirmRetrievalSession_cases (env : Env β) (ctx : Ctx) (creator : Str) (sessionId : Bytes)
    (s : KeeperState β) :
    (ConfirmIdle ctx creator s sessionId ∧ Confirmed env ctx creator sessionId s s) ∨
      (¬ConfirmIdle ctx creator s sessionId ∧ ¬ConfirmStuck env ctx creator s sessionId ∧
        ∃ s', Confirmed env ctx creator sessionId s s' ∧ SessionsForward ctx s s' ∧
          ∃ x y, s.retrievalSessions.get sessionId = some x ∧
            s'.retrievalSessions.get sessionId = some y ∧
            Later ctx x y) ∨
      ¬ConfirmIdle ctx creator s sessionId ∧ ∃ code text s',
        (confirmRetrievalSession env ctx ⟨creator, sessionId⟩).exec s =
          (.error (.err code text), s') ∧
          SessionsForward ctx s s' ∧ (¬ConfirmStuck env ctx creator s sessionId ∧ s' = s ∨
            ConfirmStuck env ctx creator s sessionId ∧ ¬Unchanged env s s') := by
  -- the session may be missing, or not be the sender's
  cases hsession : confirmable creator sessionId s with
  | error e =>
      obtain ⟨code, text, rfl⟩ := onlyErrs_partySession e hsession
      refine .inr (.inr ⟨?_, code, text, s, Tx.exec_reads_bind_error.mpr (.inl ⟨hsession, rfl⟩),
        sessionsForward_of_eq rfl, .inl ⟨?_, rfl⟩⟩)
      · rintro ⟨session, hok, -⟩
        rw [hsession] at hok
        cases hok
      · rintro ⟨session, hok, -⟩
        rw [hsession] at hok
        cases hok
  | ok session =>
      have hget := (partySession_ok hsession).1
      have hunique : ∀ session', confirmable creator sessionId s = .ok session' →
          session' = session := by
        intro session' hok
        rw [hsession] at hok
        exact (Except.ok.inj hok).symm
      -- an expired session is marked, and the confirmation fails all the same
      cases hexp : isSessionExpired ctx session with
      | true =>
          have hidle : ¬ConfirmIdle ctx creator s sessionId := by
            rintro ⟨session', hok, hnot, -⟩
            cases hunique session' hok
            rw [hexp] at hnot
            cases hnot
          by_cases hmarked : expireSession ctx session = session
          · -- It was marked in this block already.
            have hrun :=
              @confirmRetrievalSession_expired β env ctx s creator sessionId session hsession hexp
            have hsame : setSession (expireSession ctx session) sessionId s = s := by
              rw [hmarked, setSession, KVStore.set_get hget]
            rw [hsame] at hrun
            refine .inr (.inr ⟨hidle, _, _, s, hrun, sessionsForward_of_eq rfl, .inl ⟨?_, rfl⟩⟩)
            rintro ⟨session', hok, hstuck⟩
            cases hunique session' hok
            rw [if_pos hexp] at hstuck
            exact hstuck hmarked
          -- otherwise the mark is new, and stays
          · have hlater := later_expireSession hmarked
            refine .inr (.inr ⟨hidle, _, _, _, confirmRetrievalSession_expired hsession hexp,
              sessionsForward_setSession hget hlater rfl,
              .inr ⟨⟨session, hsession, ?_⟩, fun hsame => ?_⟩⟩)
            · rw [if_pos hexp]
              exact hmarked
            · have hkept := congrArg (fun m => m.get sessionId) hsame.sessions.sessions
              simp only [setSession, KVStore.get_set_self] at hkept
              rw [hget] at hkept
              exact hmarked (Option.some.inj hkept)
      -- the session has not expired
      | false =>
          have hnot : ¬isSessionExpired ctx session = true := by rw [hexp]; exact Bool.false_ne_true
          by_cases hstatus : session.status = .completed
          -- a completed session is left as it is
          · exact .inl ⟨⟨session, hsession, hexp, .inl hstatus⟩, session, hsession, hexp,
              .unchanged hstatus⟩
          by_cases hdone : confirmStatus session.status = session.status ∧
            session.updatedHeight = ctx.blockHeight
          · -- The session is written as it was.
            have hsame : setSession { session with
                status := confirmStatus session.status, updatedHeight :=
                  ctx.blockHeight } sessionId s = s := by
              rw [hdone.1, ← hdone.2, setSession, KVStore.set_get hget]
            have hpending : Finished env ctx sessionId { session with
                status := confirmStatus session.status, updatedHeight := ctx.blockHeight } s
                (setSession { session with
                  status := confirmStatus session.status, updatedHeight :=
                    ctx.blockHeight } sessionId s) :=
              .pending (by rw [hdone.1]; exact hstatus)
            rw [hsame] at hpending
            exact .inl ⟨⟨session, hsession, hexp, .inr hdone⟩, session, hsession, hexp,
              .moved hstatus hpending⟩
          have hidle : ¬ConfirmIdle ctx creator s sessionId := by
            rintro ⟨session', hok, -, hdone'⟩
            cases hunique session' hok
            exact hdone'.elim hstatus hdone
          have hmoves : ∀ {s'}, Finished env ctx sessionId { session with
              status := confirmStatus session.status, updatedHeight := ctx.blockHeight } s s' →
              Confirmed env ctx creator sessionId s s' :=
            fun hfinished => ⟨session, hsession, hexp, .moved hstatus hfinished⟩
          -- with a proof there already, the confirmation completes and settles
          by_cases hproof : session.status = .proofSubmitted
          · have hcomplete : confirmStatus session.status = .completed := by rw [hproof]; rfl
            have hstuckIff : ConfirmStuck env ctx creator s sessionId ↔
                SettleStuck env ctx { session with
                status := confirmStatus session.status, updatedHeight := ctx.blockHeight } s := by
              constructor
              · rintro ⟨session', hok, hstuck⟩
                cases hunique session' hok
                rw [if_neg hnot] at hstuck
                exact hstuck.2
              · intro hstuck
                refine ⟨session, hsession, ?_⟩
                rw [if_neg hnot]
                exact ⟨hproof, hstuck⟩
            have hrun := @confirmRetrievalSession_exec β env ctx s creator sessionId session
              hsession hexp hstatus
            rw [finishSession, if_pos hcomplete] at hrun
            -- by the ways a settlement can end
            rcases settleRetrievalSession_cases env ctx { session with
                status := confirmStatus session.status, updatedHeight := ctx.blockHeight } s with
              ⟨hfree, settled, s₁, hsettle⟩ | ⟨hfree, code, text, hsettle⟩ | ⟨hstuck, code, text, b,
                hsettle, hbalance⟩
            · have hok : (finishSession env ctx sessionId { session with
                  status := confirmStatus session.status, updatedHeight :=
                    ctx.blockHeight }).exec s =
                  (.ok (), incrementHeat ctx session.dealId.toNat session.totalBytes false
                    (setSession settled sessionId s₁)) := by
                rw [finishSession, if_pos hcomplete, Tx.exec_bind, hsettle]
                rfl
              have hfinished := finishSession_ok hok
              obtain ⟨hforward, hat⟩ := forward_of_finished hget hdone hfinished
              exact .inr
                (.inl ⟨hidle, fun h => hfree (hstuckIff.mp h), _, hmoves hfinished, hforward, hat⟩)
            · rw [Tx.exec_bind, hsettle] at hrun
              exact .inr (.inr ⟨hidle, code, text, s, hrun, sessionsForward_of_eq rfl,
                .inl ⟨fun h => hfree (hstuckIff.mp h), rfl⟩⟩)
            · rw [Tx.exec_bind, hsettle] at hrun
              exact .inr (.inr ⟨hidle, code, text, _, hrun, sessionsForward_of_eq rfl,
                .inr ⟨hstuckIff.mpr hstuck, fun hsame => hbalance (hsame.balances _ _)⟩⟩)
          -- without a proof only the status moves
          · have hpending : Finished env ctx sessionId { session with
                status := confirmStatus session.status, updatedHeight := ctx.blockHeight } s
                (setSession { session with
                  status := confirmStatus session.status, updatedHeight :=
                    ctx.blockHeight } sessionId s) :=
              .pending (confirmStatus_ne_completed hstatus hproof)
            obtain ⟨hforward, hat⟩ := forward_of_finished hget hdone hpending
            refine .inr (.inl ⟨hidle, ?_, _, hmoves hpending, hforward, hat⟩)
            rintro ⟨session', hok, hstuck⟩
            cases hunique session' hok
            rw [if_neg hnot] at hstuck
            exact hproof hstuck.1

end Confirm

/-! ### Lists of confirmations -/

namespace Precompile

/-- The confirmations go through, one after the other. -/
def ConfirmsAll (env : Env β) (ctx : Ctx) (creator : Str) : List Bytes → KeeperState β → Prop
  | [], _ => True
  | sessionId :: rest, s => ∃ s', Confirmed env ctx creator sessionId s s' ∧
    ConfirmsAll env ctx creator rest s'

/-- The first confirmation that has something to do fails and writes nothing, or it goes through
with all that come after it. -/
def ConfirmsWhole (env : Env β) (ctx : Ctx) (creator : Str) (s : KeeperState β) : List Bytes → Prop
  | [] => True
  | sessionId :: rest =>
      (ConfirmIdle ctx creator s sessionId → ConfirmsWhole env ctx creator s rest) ∧
        (¬ConfirmIdle ctx creator s sessionId → ¬ConfirmStuck env ctx creator s sessionId ∧
          ∀ s', Confirmed env ctx creator sessionId s s' → ConfirmsAll env ctx creator rest s')

section Confirms

variable {env : Env β} {ctx : Ctx} {s s' : KeeperState β} {creator : Str} {sessionId : Bytes}

/-- A confirmation leaves one state. -/
theorem confirmed_unique {s'' : KeeperState β} (h : Confirmed env ctx creator sessionId s s')
    (h' : Confirmed env ctx creator sessionId s s'') : s' = s'' := by
  have hexec := h.exec
  rw [h'.exec] at hexec
  cases hexec
  rfl

/-- The confirmations of a list all go through, or the list fails; no session goes back. So what a
failed list has confirmed stays confirmed. -/
theorem confirmSessions_run (env : Env β) (ctx : Ctx) (creator : Str) (sessionIds : List Bytes)
    (s : KeeperState β) :
    ∃ res s', (confirmSessions env ctx creator sessionIds).exec s = (res, s') ∧
      SessionsForward ctx s s' ∧
      ((ConfirmsAll env ctx creator sessionIds s ∧ res = .ok ()) ∨
        ¬ConfirmsAll env ctx creator sessionIds s ∧
          ∃ code text, res = .error (.err code text)) := by
  -- by the list; a failure of the first is one of the list
  induction sessionIds generalizing s with
  | nil => exact ⟨_, s, rfl, sessionsForward_of_eq rfl, .inl ⟨trivial, rfl⟩⟩
  | cons sessionId rest ih =>
      have hgoes : ∀ s', Confirmed env ctx creator sessionId s s' → SessionsForward ctx s s' →
          ∃ res s₂, (confirmSessions env ctx creator (sessionId :: rest)).exec s = (res, s₂) ∧
            SessionsForward ctx s s₂ ∧
            ((ConfirmsAll env ctx creator (sessionId :: rest) s ∧ res = .ok ()) ∨
              ¬ConfirmsAll env ctx creator (sessionId :: rest) s ∧
                ∃ code text, res = .error (.err code text)) := by
        intro s' hconfirmed hforward
        obtain ⟨res, s₂, hrest, hforward', hres⟩ := ih s'
        refine ⟨res, s₂, ?_, hforward.trans hforward', ?_⟩
        · rw [confirmSessions, Tx.exec_bind, hconfirmed.exec]
          exact hrest
        · rcases hres with ⟨hall, hok⟩ | ⟨hstops, herror⟩
          · exact .inl ⟨⟨s', hconfirmed, hall⟩, hok⟩
          · refine .inr ⟨?_, herror⟩
            rintro ⟨s₁, hconfirmed₁, hall₁⟩
            rw [← confirmed_unique hconfirmed hconfirmed₁] at hall₁
            exact hstops hall₁
      -- whether the first had something to do or not, it is confirmed; or it fails
      rcases confirmRetrievalSession_cases env ctx creator sessionId s with
        ⟨-, hconfirmed⟩ | ⟨-, -, s', hconfirmed, hforward, -⟩ | ⟨-, code, text, s',
          hexec, hforward, -⟩
      · exact hgoes s hconfirmed (sessionsForward_of_eq rfl)
      · exact hgoes s' hconfirmed hforward
      · refine ⟨_, s', Tx.exec_bind_error.mpr (.inl hexec), hforward, .inr ⟨?_, code, text, rfl⟩⟩
        rintro ⟨s₁, hconfirmed, -⟩
        have hok := hconfirmed.exec
        rw [hexec] at hok
        cases hok

/-- A list of confirmations leaves no trace when it fails, if and only if it is whole: after the
first session that is moved, no other one may fail. -/
theorem confirmSessions_clean_iff {sessionIds : List Bytes} :
    FailsClean env (confirmSessions env ctx creator sessionIds) s ↔
      ConfirmsWhole env ctx creator s sessionIds := by
  -- by the list, with the three ways a confirmation can end
  induction sessionIds with
  | nil => exact ⟨fun _ => trivial, fun _ => failsClean_of_ok rfl⟩
  | cons sessionId rest ih =>
      rcases confirmRetrievalSession_cases env ctx creator sessionId s with
        ⟨hidle, hconfirmed⟩ | ⟨hidle, hfree, s', hconfirmed, -, x, y, hx, hy, hxy⟩ |
          ⟨hidle, code, text, s', hexec, -, hcase⟩
      · -- The state is the same, and the rest of the list decides.
        have hrun : (confirmSessions env ctx creator (sessionId :: rest)).exec s =
            (confirmSessions env ctx creator rest).exec s := by
          rw [confirmSessions, Tx.exec_bind, hconfirmed.exec]
        have hsame : FailsClean env (confirmSessions env ctx creator (sessionId :: rest)) s ↔
            FailsClean env (confirmSessions env ctx creator rest) s := by
          rw [FailsClean, FailsClean, hrun]
        rw [hsame, ih]
        exact ⟨fun h => ⟨fun _ => h, fun hnot => absurd hidle hnot⟩, fun h => h.1 hidle⟩
      -- the first session has moved, so a failure of the rest leaves a trace
      · obtain ⟨res, s₂, hrest, hforward, hres⟩ := confirmSessions_run env ctx creator rest s'
        have hrun : (confirmSessions env ctx creator (sessionId :: rest)).exec s = (res, s₂) := by
          rw [confirmSessions, Tx.exec_bind, hconfirmed.exec]
          exact hrest
        rcases hres with ⟨hall, rfl⟩ | ⟨hstops, code, text, rfl⟩
        · refine ⟨fun _ => ⟨fun h => absurd h hidle, fun _ => ⟨hfree, fun s₁ hconfirmed₁ => ?_⟩⟩,
            fun _ => failsClean_of_ok hrun⟩
          rwa [← confirmed_unique hconfirmed hconfirmed₁]
        · refine ⟨fun hclean => ?_, fun h => absurd ((h.2 hidle).2 s' hconfirmed) hstops⟩
          exact absurd (hclean code text s₂ hrun).sessions.sessions (hforward.ne hx hy hxy)
      · have hrun : (confirmSessions env ctx creator (sessionId :: rest)).exec s =
            (.error (.err code text), s') :=
          Tx.exec_bind_error.mpr (.inl hexec)
        rw [failsClean_of_error hrun]
        have hnone : ∀ s₁, ¬Confirmed env ctx creator sessionId s s₁ := by
          intro s₁ hconfirmed
          have hok := hconfirmed.exec
          rw [hexec] at hok
          cases hok
        rcases hcase with ⟨hfree, rfl⟩ | ⟨hstuck, hchanged⟩
        · exact ⟨fun _ =>
            ⟨fun h => absurd h hidle, fun _ => ⟨hfree, fun s₁ h => absurd h (hnone s₁)⟩⟩,
            fun _ _ => .refl env s'⟩
        · exact ⟨fun hclean => absurd (hclean ⟨code, text, rfl⟩) hchanged, fun h =>
            absurd hstuck (h.2 hidle).1⟩

end Confirms

end Precompile

end NilStore.Chain
