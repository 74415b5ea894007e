import NilStore.Proofs.Solvency

/-!
# `NilStore.Proofs.SessionLifecycle`: what becomes of a locked fee

The fee of a session leaves it in one of two ways. A `Settlement` burns the share that the params
set and pays the rest to the provider; a `Refund` puts the fee back into the escrow of the deal. A
step that changes the fee of a stored session is one of the two (`SessionStep.fee`), and since both
leave no fee, there is at most one of them in the life of a session.

The status tells what happened before (`StatusHistory`): the owner has confirmed a session that
is `userConfirmed` or `completed`, and the provider has submitted proofs for one that is
`proofSubmitted` or `completed`. Settling completes the session, so both came first.
-/

set_option autoImplicit false

namespace NilStore.Chain

open NilStore.Lib

variable {β : Type}

/-! ### Expiry -/

section Expiry

variable {ctx : Ctx} {session : RetrievalSession}

/-- A session has expired when it has an expiry and the height is above it. -/
theorem isSessionExpired_eq_true :
    isSessionExpired ctx session = true ↔
      session.expiresAt ≠ 0 ∧ session.expiresAt < ctx.height64 := by
  simp [isSessionExpired]

/-- A session without expiry never expires. -/
theorem isSessionExpired_eq_false :
    isSessionExpired ctx session = false ↔
      session.expiresAt = 0 ∨ ctx.height64 ≤ session.expiresAt := by
  rw [← Bool.not_eq_true, isSessionExpired_eq_true, not_and_or, not_not, UInt64.not_lt]

end Expiry

/-! ### The two discharges -/

/-- The fee is settled: its share in basis points, rounded up, is burned, the rest is paid to the
provider, and the session is complete. -/
structure Settlement (env : Env β) (e : Event) (s s' : KeeperState β) (id : Bytes)
    (session : RetrievalSession) : Prop where
  fee_pos : 0 < session.lockedFee
  paid : FeeSettled env e.ctx
    ⌈(session.lockedFee * s.getParams.retrievalBurnBps.toNat : ℚ) / 10000⌉
    (session.lockedFee - ⌈(session.lockedFee * s.getParams.retrievalBurnBps.toNat : ℚ) / 10000⌉)
    session.provider s.bank s'.bank
  deals : s'.deals = s.deals
  stored : ∃ session', s'.retrievalSessions.get id = some session' ∧ session'.lockedFee = 0 ∧
    session'.status = .completed

/-- The fee is refunded: the session has expired, the fee is back in the escrow of its deal, and the
session is canceled. -/
structure Refund (e : Event) (s s' : KeeperState β) (id : Bytes) (session : RetrievalSession) :
    Prop where
  fee_pos : 0 < session.lockedFee
  expired : session.expiresAt ≠ 0 ∧ session.expiresAt < e.ctx.height64
  bank : s'.bank = s.bank
  deals : ∃ deal, s.deals.get session.dealId.toNat = some deal ∧
    s'.deals = s.deals.set session.dealId.toNat
      { deal with escrowBalance := deal.escrowBalance + session.lockedFee }
  stored : ∃ session', s'.retrievalSessions.get id = some session' ∧ session'.lockedFee = 0 ∧
    session'.status = .canceled

/-- The event discharges the fee of the session. -/
def Discharges (env : Env β) (e : Event) (s : KeeperState β) (id : Bytes)
    (session : RetrievalSession) : Prop :=
  Settlement env e s (apply env s e) id session ∨ Refund e s (apply env s e) id session

/-- No coin has moved and no deal has changed. -/
def NoMoney (s s' : KeeperState β) : Prop := s'.bank = s.bank ∧ s'.deals = s.deals

section Step

variable {env : Env β} {ctx : Ctx} {s s' : KeeperState β} {id : Bytes}
  {session : RetrievalSession}

/-- Finishing a session settles its fee, or moves no money and keeps the fee. -/
theorem Finished.fee {e : Event} (he : e.ctx = ctx) (hp : s.getParams.Valid)
    (h : Finished env ctx id session s s') :
    Settlement env e s s' id session ∨
      NoMoney s s' ∧ ∃ session', s'.retrievalSessions.get id = some session' ∧
        session'.lockedFee = session.lockedFee := by
  subst he
  cases h with
  | @settled b hstatus hfee hpaid =>
      rw [settleBurn_eq_ceil hp hfee.le] at hpaid
      exact Or.inl ⟨hfee, hpaid, rfl, _, KVStore.get_set_self _ _ _, rfl, hstatus⟩
  | free hstatus hfee => exact Or.inr ⟨⟨rfl, rfl⟩, session, KVStore.get_set_self _ _ _, rfl⟩
  | pending hstatus => exact Or.inr ⟨⟨rfl, rfl⟩, session, KVStore.get_set_self _ _ _, rfl⟩

/-- A settlement of the session after its status has changed is one of the session itself. -/
theorem Settlement.of_status {e : Event} {status : RetrievalSessionStatus} {height : Nat}
    (h : Settlement env e s s' id { session with status := status, updatedHeight := height }) :
    Settlement env e s s' id session :=
  ⟨h.fee_pos, h.paid, h.deals, h.stored⟩

/-- An advance either settles the locked fee or leaves it locked. -/
theorem Advanced.fee {e : Event} {next : RetrievalSessionStatus → RetrievalSessionStatus}
    (he : e.ctx = ctx) (hp : s.getParams.Valid) (hget : s.retrievalSessions.get id = some session)
    (h : Advanced env ctx id next session s s') :
    Settlement env e s s' id session ∨
      NoMoney s s' ∧ ∃ session', s'.retrievalSessions.get id = some session' ∧
        session'.lockedFee = session.lockedFee := by
  cases h with
  | unchanged hstatus => exact Or.inr ⟨⟨rfl, rfl⟩, session, hget, rfl⟩
  | moved hstatus hfinished =>
      rcases hfinished.fee he hp with hsettled | hkept
      · exact Or.inl hsettled.of_status
      · exact Or.inr hkept

/-- Cancelling a session refunds its fee, or moves no money and keeps the fee. It is refunded once,
for the cancelled session has no fee left. -/
theorem Canceled.fee {e : Event} (he : e.ctx = ctx)
    (hget : s.retrievalSessions.get id = some session) (h : Canceled ctx id session s s') :
    Refund e s s' id session ∨
      NoMoney s s' ∧ ∃ session', s'.retrievalSessions.get id = some session' ∧
        session'.lockedFee = session.lockedFee := by
  subst he
  -- over already, with a fee to refund, or without one
  cases h with
  | unchanged hstatus => exact Or.inr ⟨⟨rfl, rfl⟩, session, hget, rfl⟩
  | refunded hstatus hexp hfee hdeal hevidence =>
      rw [EvidenceOnly] at hevidence
      refine Or.inl ⟨hfee, isSessionExpired_eq_true.mp hexp, ?_, ⟨_, hdeal, rfl⟩,
        _, KVStore.get_set_self _ _ _, ?_, rfl⟩
      · rw [hevidence]
        rfl
      · show (if 0 < session.lockedFee then 0 else session.lockedFee) = 0
        rw [if_pos hfee]
  | free hstatus hexp hfee hevidence =>
      rw [EvidenceOnly] at hevidence
      refine Or.inr ⟨⟨?_, ?_⟩, canceledSession e.ctx session, KVStore.get_set_self _ _ _, ?_⟩
      · rw [hevidence]
        rfl
      · rw [hevidence]
        rfl
      · show (if 0 < session.lockedFee then 0 else session.lockedFee) = session.lockedFee
        rw [if_neg (by omega)]

/-- A step keeps the fee, settles it or refunds it. A session that was over keeps status and fee. -/
theorem SessionStep.fee {e : Event} (hp : s.getParams.Valid)
    (hget : s.retrievalSessions.get id = some session) (h : SessionStep env e s s' id session) :
    (Settlement env e s s' id session ∨ Refund e s s' id session) ∨
      ∃ session', s'.retrievalSessions.get id = some session' ∧
        session'.lockedFee = session.lockedFee := by
  -- the fee goes with a confirmation, a submission or a cancellation only
  cases h with
  | kept hget' => exact Or.inr ⟨session, hget', rfl⟩
  | @confirmed ctx msg he hid hok howner hexp hmoved =>
      have hctx : e.ctx = ctx := by rw [he]; rfl
      rcases hmoved.fee hctx hp hget with hsettled | ⟨-, hkept⟩
      · exact Or.inl (Or.inl hsettled)
      · exact Or.inr hkept
  | @submitted ctx msg he hid hok hprovider hexp hmoved =>
      have hctx : e.ctx = ctx := by rw [he]; rfl
      rcases hmoved.fee hctx hp hget with hsettled | ⟨-, hkept⟩
      · exact Or.inl (Or.inl hsettled)
      · exact Or.inr hkept
  | @canceled ctx msg he hid howner hmoved =>
      have hctx : e.ctx = ctx := by rw [he]; rfl
      rcases hmoved.fee hctx hget with hrefunded | ⟨-, hkept⟩
      · exact Or.inl (Or.inr hrefunded)
      · exact Or.inr hkept

/-- The status of an advanced session: the next one, unless it was complete. -/
theorem Advanced.status {next : RetrievalSessionStatus → RetrievalSessionStatus}
    (hget : s.retrievalSessions.get id = some session) (h : Advanced env ctx id next session s s') :
    ∃ session', s'.retrievalSessions.get id = some session' ∧
      (session.status = .completed ∧ session' = session ∨
        session.status ≠ .completed ∧ session'.status = next session.status) := by
  cases h with
  | unchanged hstatus => exact ⟨session, hget, Or.inl ⟨hstatus, rfl⟩⟩
  | moved hstatus hfinished =>
      obtain ⟨session', hsame, hkept⟩ := hfinished.sessions
      refine ⟨session', by rw [hkept.sessions, KVStore.get_set_self], Or.inr ⟨hstatus, ?_⟩⟩
      rw [hsame]

/-- A session that is over is not moved on: a canceled one is written with a new date. -/
theorem Advanced.over {next : RetrievalSessionStatus → RetrievalSessionStatus}
    (hnext : next .canceled = .canceled) (hget : s.retrievalSessions.get id = some session)
    (hover : session.status = .completed ∨ session.status = .canceled)
    (h : Advanced env ctx id next session s s') :
    ∃ session', s'.retrievalSessions.get id = some session' ∧
      session'.status = session.status ∧ session'.lockedFee = session.lockedFee := by
  cases h with
  | unchanged hstatus => exact ⟨session, hget, rfl, rfl⟩
  | moved hstatus hfinished =>
      have hcanceled : session.status = .canceled := hover.resolve_left hstatus
      have hsame : next session.status = session.status := by rw [hcanceled, hnext]
      have hopen : next session.status ≠ .completed := by rwa [hsame]
      cases hfinished with
      | settled hcompleted => exact absurd hcompleted hopen
      | free hcompleted => exact absurd hcompleted hopen
      | pending => exact ⟨_, KVStore.get_set_self _ _ _, hsame, rfl⟩

/-- A session that is over keeps its status and its fee. -/
theorem SessionStep.over {e : Event} (hget : s.retrievalSessions.get id = some session)
    (hover : session.status = .completed ∨ session.status = .canceled)
    (h : SessionStep env e s s' id session) :
    ∃ session', s'.retrievalSessions.get id = some session' ∧
      session'.status = session.status ∧ session'.lockedFee = session.lockedFee := by
  cases h with
  | kept hget' => exact ⟨session, hget', rfl, rfl⟩
  | confirmed he hid hok howner hexp hmoved => exact hmoved.over rfl hget hover
  | submitted he hid hok hprovider hexp hmoved => exact hmoved.over rfl hget hover
  | canceled he hid howner hmoved =>
      cases hmoved with
      | unchanged hstatus => exact ⟨session, hget, rfl, rfl⟩
      | refunded hstatus hexp hfee hdeal hevidence => exact absurd hover (not_or.mpr hstatus)
      | free hstatus hexp hfee hevidence => exact absurd hover (not_or.mpr hstatus)

end Step

/-! ### What the status tells -/

section History

variable (env : Env β) (s₀ : KeeperState β) (id : Bytes) (session : RetrievalSession)

/-- In the run, the owner has confirmed the session before its expiry. -/
def ConfirmedBefore : List Event → Prop :=
  Occurs fun past e => ∃ ctx msg s', e = .deliver ctx (.confirmRetrievalSession msg) ∧
    msg.sessionId = id ∧ msg.creator = session.owner ∧
    (session.expiresAt = 0 ∨ ctx.height64 ≤ session.expiresAt) ∧
    (confirmRetrievalSession env ctx msg).exec (run (apply env) s₀ past) = (.ok (), s')

/-- In the run, the provider has submitted proofs for the session before its expiry. -/
def SubmittedBefore : List Event → Prop :=
  Occurs fun past e => ∃ ctx msg s', e = .deliver ctx (.submitRetrievalSessionProof msg) ∧
    msg.sessionId = id ∧ msg.creator = session.provider ∧
    (session.expiresAt = 0 ∨ ctx.height64 ≤ session.expiresAt) ∧
    (submitRetrievalSessionProof env ctx msg).exec (run (apply env) s₀ past) = (.ok (), s')

/-- The status of a session tells which of its parties have acted. -/
structure StatusHistory (past : List Event) : Prop where
  confirmed : session.status = .userConfirmed ∨ session.status = .completed →
    ConfirmedBefore env s₀ id session past
  submitted : session.status = .proofSubmitted ∨ session.status = .completed →
    SubmittedBefore env s₀ id session past

end History

section Run

variable {env : Env β} {params : Params} {b : β} {es : List Event} {id : Bytes}
  {session : RetrievalSession}

/-- A step carries the history on. A status is reached by a message of the party it names, and that
message is in the past from then on. -/
theorem StatusHistory.step {s₀ : KeeperState β} {past : List Event} {e : Event}
    {session' : RetrievalSession} (h : StatusHistory env s₀ id session past)
    (hget : (run (apply env) s₀ past).retrievalSessions.get id = some session)
    (hget' : (apply env (run (apply env) s₀ past) e).retrievalSessions.get id = some session')
    (hstep : SessionStep env e (run (apply env) s₀ past) (apply env (run (apply env) s₀ past) e) id
      session) : StatusHistory env s₀ id session' (past ++ [e]) := by
  obtain ⟨session₁, hget₁, hsame⟩ := hstep.progress hget
  rw [hget'] at hget₁
  cases hget₁
  -- Owner, provider and expiry are those of before.
  have hconfirmed : ConfirmedBefore env s₀ id session past →
      ConfirmedBefore env s₀ id session' (past ++ [e]) := by
    intro hc
    rw [hsame]
    exact hc.append [e]
  have hsubmitted : SubmittedBefore env s₀ id session past →
      SubmittedBefore env s₀ id session' (past ++ [e]) := by
    intro hc
    rw [hsame]
    exact hc.append [e]
  cases hstep with
  | kept hkept =>
      rw [hget'] at hkept
      cases hkept
      exact ⟨fun hc => hconfirmed (h.confirmed hc), fun hc => hsubmitted (h.submitted hc)⟩
  -- the owner has confirmed it in this step
  | @confirmed ctx msg he hid hok howner hexp hmoved =>
      have hnow : ConfirmedBefore env s₀ id session' (past ++ [e]) := by
        rw [hsame]
        exact occurs_snoc.mpr
          (Or.inr ⟨ctx, msg, _, he, hid, howner, isSessionExpired_eq_false.mp hexp, hok⟩)
      refine ⟨fun _ => hnow, fun hc => hsubmitted (h.submitted ?_)⟩
      obtain ⟨session₂, hget₂, hcase⟩ := hmoved.status hget
      rw [hget'] at hget₂
      cases hget₂
      rcases hcase with ⟨hover, rfl⟩ | ⟨hne, hstatus⟩
      · exact Or.inr hover
      · -- Confirming completes what the provider has submitted.
        rw [hstatus] at hc
        cases hold : session.status <;> simp_all [confirmStatus]
  -- the provider has proved it in this step
  | @submitted ctx msg he hid hok hprovider hexp hmoved =>
      have hnow : SubmittedBefore env s₀ id session' (past ++ [e]) := by
        rw [hsame]
        exact occurs_snoc.mpr
          (Or.inr ⟨ctx, msg, _, he, hid, hprovider, isSessionExpired_eq_false.mp hexp, hok⟩)
      refine ⟨fun hc => hconfirmed (h.confirmed ?_), fun _ => hnow⟩
      obtain ⟨session₂, hget₂, hcase⟩ := hmoved.status hget
      rw [hget'] at hget₂
      cases hget₂
      -- a proof does not confirm a session that was not confirmed
      rcases hcase with ⟨hover, rfl⟩ | ⟨hne, hstatus⟩
      · exact Or.inr hover
      · rw [hstatus] at hc
        cases hold : session.status <;> simp_all [submitStatus]
  | canceled he hid howner hmoved =>
      generalize happly : apply env (run (apply env) s₀ past) e = s' at hmoved hget'
      cases hmoved with
      | unchanged hstatus =>
          rw [hget] at hget'
          cases hget'
          exact ⟨fun hc => hconfirmed (h.confirmed hc), fun hc => hsubmitted (h.submitted hc)⟩
      | refunded hstatus hexp hfee hdeal hevidence =>
          cases (KVStore.get_set_self _ _ _).symm.trans hget'
          exact ⟨nofun, nofun⟩
      | free hstatus hexp hfee hevidence =>
          cases (KVStore.get_set_self _ _ _).symm.trans hget'
          exact ⟨nofun, nofun⟩

/-- The history holds of every session after every run of messages and ends of blocks. -/
theorem run_statusHistory (hes : Along (MessagesOnly env) es)
    (hget : (run (apply env) (genesis params b) es).retrievalSessions.get id = some session) :
    StatusHistory env (genesis params b) id session es := by
  induction es using List.reverseRecOn generalizing session with
  | nil => cases hget
  | append_singleton past e ih =>
      have hmoved := run_sessionsMoved env params b hes
      rw [run_snoc] at hget
      cases hold : (run (apply env) (genesis params b) past).retrievalSessions.get id with
      | none =>
          -- A new session is open.
          obtain ⟨ctx, msg, plan, -, -, rfl⟩ := hmoved.opened hold hget
          exact ⟨nofun, nofun⟩
      | some session₀ => exact (ih hes.left hold).step hold hget (hmoved.kept hold)

end Run

/-! ### Messages that name a session -/

/-- The message confirms, cancels or proves the session. -/
def Msg.names (id : Bytes) : Msg → Prop
  | .confirmRetrievalSession msg => msg.sessionId = id
  | .cancelRetrievalSession msg => msg.sessionId = id
  | .submitRetrievalSessionProof msg => msg.sessionId = id
  | _ => False

section Named

variable {env : Env β} {ctx : Ctx} {s s' : KeeperState β} {id : Bytes}
  {session : RetrievalSession}

/-- A message that names a session moves money by a settlement or a refund, or not at all. The three
messages that name one are looked at in turn. -/
theorem handle_names {msg : Msg} {u : Unit} (hp : s.getParams.Valid) (hnames : msg.names id)
    (hget : s.retrievalSessions.get id = some session)
    (h : (handle env ctx msg).exec s = (.ok u, s')) :
    NoMoney s s' ∨ Settlement env (.deliver ctx msg) s s' id session ∨
      Refund (.deliver ctx msg) s s' id session := by
  -- by the message that names it
  cases msg with
  | confirmRetrievalSession msg =>
      obtain ⟨session₁, hget₁, -, -, hmoved⟩ := confirmRetrievalSession_ok h
      have hid : msg.sessionId = id := hnames
      rw [hid] at hget₁ hmoved
      rw [hget] at hget₁
      cases hget₁
      rcases hmoved.fee (e := .deliver ctx (.confirmRetrievalSession msg)) rfl hp hget with
        hsettled | ⟨hnone, -⟩
      · exact Or.inr (Or.inl hsettled)
      · exact Or.inl hnone
  | submitRetrievalSessionProof msg =>
      obtain ⟨session₁, hget₁, -, -, -, hmoved⟩ := submitRetrievalSessionProof_ok h
      have hid : msg.sessionId = id := hnames
      rw [hid] at hget₁ hmoved
      rw [hget] at hget₁
      cases hget₁
      rcases hmoved.fee (e := .deliver ctx (.submitRetrievalSessionProof msg)) rfl hp hget with
        hsettled | ⟨hnone, -⟩
      · exact Or.inr (Or.inl hsettled)
      · exact Or.inl hnone
  | cancelRetrievalSession msg =>
      obtain ⟨session₁, hget₁, -, hmoved⟩ := cancelRetrievalSession_ok h
      have hid : msg.sessionId = id := hnames
      rw [hid] at hget₁ hmoved
      rw [hget] at hget₁
      cases hget₁
      rcases hmoved.fee (e := .deliver ctx (.cancelRetrievalSession msg)) rfl hget with
        hrefunded | ⟨hnone, -⟩
      · exact Or.inr (Or.inr hrefunded)
      · exact Or.inl hnone
  | _ => exact hnames.elim

/-- A message that names a session discharges its fee or moves no money. -/
theorem deliver_names {msg : Msg} (hp : s.getParams.Valid) (hnames : msg.names id)
    (hget : s.retrievalSessions.get id = some session) :
    NoMoney s (apply env s (.deliver ctx msg)) ∨
      Discharges env (.deliver ctx msg) s id session := by
  rcases deliver_cases env ctx msg s with heq | hok
  · exact Or.inl ⟨by rw [heq], by rw [heq]⟩
  · exact handle_names hp hnames hget hok

end Named

/-! ### The life of a session -/

section Life

variable {env : Env β} {params : Params} {b : β} {es fs : List Event} {id : Bytes}
  {session session' : RetrievalSession}

/-- A fee that is gone stays gone: as long as the run goes on, the session has none. -/
theorem run_fee_gone (hparams : params.validate = .ok ()) (hmessages : ∀ e ∈ es ++ fs, e.isMessage)
    (hes : Along (MessagesOnly env) (es ++ fs))
    (hget : (run (apply env) (genesis params b) es).retrievalSessions.get id = some session)
    (hgone : session.lockedFee = 0) :
    ∃ session', (run (apply env) (genesis params b) (es ++ fs)).retrievalSessions.get id =
      some session' ∧ session'.lockedFee = 0 := by
  induction fs using List.reverseRecOn with
  | nil => exact ⟨session, by rwa [List.append_nil], hgone⟩
  | append_singleton fs e ih =>
      rw [← List.append_assoc] at hmessages hes ⊢
      have hpast : ∀ e ∈ es ++ fs, e.isMessage :=
        fun e he => hmessages e (List.mem_append_left _ he)
      obtain ⟨session₁, hget₁, hgone₁⟩ := ih hpast hes.left
      have hp := Params.validate_ok (run_params env hparams b hpast)
      have hstep := (run_sessionsMoved env params b hes).kept hget₁
      rw [run_snoc]
      rcases hstep.fee hp hget₁ with (hsettled | hrefunded) | ⟨session₂, hget₂, hsame⟩
      · exact absurd hsettled.fee_pos (by omega)
      · exact absurd hrefunded.fee_pos (by omega)
      · exact ⟨session₂, hget₂, by omega⟩

/-- A discharge leaves no fee. -/
theorem Discharges.gone {e : Event} {s : KeeperState β} (h : Discharges env e s id session) :
    ∃ session', (apply env s e).retrievalSessions.get id = some session' ∧
      session'.lockedFee = 0 := by
  rcases h with hsettled | hrefunded
  · obtain ⟨session', hget, hzero, -⟩ := hsettled.stored
    exact ⟨session', hget, hzero⟩
  · obtain ⟨session', hget, hzero, -⟩ := hrefunded.stored
    exact ⟨session', hget, hzero⟩

end Life

/-- The lifecycle of retrieval sessions. Take a run of messages and ends of blocks from a genesis
with valid params, and a session stored before one of its events. After the event it is stored with
its identity. Its fee is as it was, or was settled, or was refunded, and a fee that was discharged
once is never discharged again. It is settled only after its owner has confirmed it and its
provider has proved it, both before its expiry, and refunded only after its expiry. Status and fee
of a session that is completed or canceled do not change. A message that names the session moves no
other money. -/
theorem session_lifecycle (env : Env β) (params : Params) (b : β) (es : List Event)
    (hparams : params.validate = .ok ()) (hmessages : ∀ e ∈ es, e.isMessage)
    (hcollision : NoSessionCollision env es) :
    ∀ id past e rest session, es = past ++ e :: rest →
      (run (apply env) (genesis params b) past).retrievalSessions.get id = some session →
      let s := run (apply env) (genesis params b) past
      let s' := apply env s e
      (∃ session', s'.retrievalSessions.get id = some session' ∧ ProgressOnly session session' ∧
        (session'.lockedFee = session.lockedFee ∨ Settlement env e s s' id session ∨
          Refund e s s' id session) ∧
        (session.status = .completed ∨ session.status = .canceled →
          session'.status = session.status ∧ session'.lockedFee = session.lockedFee)) ∧
      ¬(Settlement env e s s' id session ∧ Refund e s s' id session) ∧
      (Discharges env e s id session → ∀ mid e' rest' session', rest = mid ++ e' :: rest' →
        (run (apply env) (genesis params b) (past ++ e :: mid)).retrievalSessions.get id =
          some session' →
        ¬Discharges env e' (run (apply env) (genesis params b) (past ++ e :: mid)) id session') ∧
      (Settlement env e s s' id session →
        ConfirmedBefore env (genesis params b) id session (past ++ [e]) ∧
        SubmittedBefore env (genesis params b) id session (past ++ [e])) ∧
      (Refund e s s' id session → session.expiresAt ≠ 0 ∧ session.expiresAt < e.ctx.height64) ∧
      (∀ ctx msg, e = .deliver ctx msg → msg.names id →
        NoMoney s s' ∨ Settlement env e s s' id session ∨ Refund e s s' id session) := by
  rintro id past e rest session rfl hget s s'
  have hes := messagesOnly_along hmessages hcollision
  have hsnoc : past ++ e :: rest = past ++ [e] ++ rest := by simp
  have hes' : Along (MessagesOnly env) (past ++ [e]) := by
    rw [hsnoc] at hes
    exact hes.left
  have hpast : ∀ f ∈ past, f.isMessage := fun f hf => hmessages f (List.mem_append_left _ hf)
  have hp : s.getParams.Valid := Params.validate_ok (run_params env hparams b hpast)
  have hstep : SessionStep env e s s' id session := (run_sessionsMoved env params b hes').kept hget
  -- the session after the event
  obtain ⟨session', hget', hsame⟩ := hstep.progress hget
  have hfee : session'.lockedFee = session.lockedFee ∨ Settlement env e s s' id session ∨
      Refund e s s' id session := by
    rcases hstep.fee hp hget with hgone | ⟨session₁, hget₁, hkept⟩
    · exact Or.inr hgone
    · rw [hget'] at hget₁
      cases hget₁
      exact Or.inl hkept
  refine ⟨⟨session', hget', hsame, hfee, fun hover => ?_⟩, ?_, fun hgone => ?_, fun hsettled => ?_,
    fun hrefunded => hrefunded.expired, ?_⟩
  -- a session that is over stays as it is
  · obtain ⟨session₁, hget₁, hstill⟩ := hstep.over hget hover
    rw [hget'] at hget₁
    cases hget₁
    exact hstill
  · rintro ⟨hsettled, hrefunded⟩
    obtain ⟨session₁, hget₁, -, hcompleted⟩ := hsettled.stored
    obtain ⟨session₂, hget₂, -, hcanceled⟩ := hrefunded.stored
    rw [hget₁] at hget₂
    cases hget₂
    rw [hcompleted] at hcanceled
    cases hcanceled
  -- what is discharged has no fee left, and a discharge needs one
  · rintro mid e' rest' session₁ rfl hget₁ hagain
    obtain ⟨session₂, hget₂, hzero⟩ := hgone.gone
    have hsplit : past ++ e :: mid = past ++ [e] ++ mid := by simp
    have hrest : past ++ e :: (mid ++ e' :: rest') = past ++ [e] ++ mid ++ e' :: rest' := by simp
    rw [hrest] at hmessages hes
    rw [hsplit] at hget₁
    have hafter : apply env s e = run (apply env) (genesis params b) (past ++ [e]) :=
      (run_snoc _ _ _ _).symm
    rw [hafter] at hget₂
    obtain ⟨session₃, hget₃, hstill⟩ := run_fee_gone hparams
      (fun f hf => hmessages f (List.mem_append_left _ hf)) hes.left hget₂ hzero
    rw [hget₁] at hget₃
    cases hget₃
    rcases hagain with hsettled | hrefunded
    · exact absurd hsettled.fee_pos (by omega)
    · exact absurd hrefunded.fee_pos (by omega)
  -- the history says who has confirmed and who has proved
  · obtain ⟨session₁, hget₁, -, hcompleted⟩ := hsettled.stored
    rw [hget'] at hget₁
    cases hget₁
    have hlater : (run (apply env) (genesis params b) (past ++ [e])).retrievalSessions.get id =
        some session' := by rwa [run_snoc]
    have hhistory := run_statusHistory hes' hlater
    rw [hsame] at hhistory
    exact ⟨hhistory.confirmed (Or.inr hcompleted), hhistory.submitted (Or.inr hcompleted)⟩
  · rintro ctx msg rfl hnames
    exact deliver_names hp hnames hget

/-! ### On a small chain -/

/-- The session of the small chain expires, and its owner cancels it. -/
def cancelEvent : Event := .deliver (ctxAt 101) (.cancelRetrievalSession ⟨ownerText, openId⟩)

/-- The sample run has no two openings with one id. -/
theorem cancelRun_collision (env : Env β) : NoSessionCollision env (openRun ++ [cancelEvent]) := by
  refine (openRun_collision env).mono ?_
  rintro b ⟨ctx, msg, hmem, hb⟩
  rcases List.mem_append.mp hmem with hold | hlast
  · exact ⟨ctx, msg, hold, hb⟩
  · cases List.mem_singleton.mp hlast

/-- Cancelling refunds the two coins that the session had locked. The session is open when its
expiry passes. -/
theorem session_lifecycle_cancelEvent :
    ∃ session, (run (apply (sampleEnv openKeccak [])) (genesis defaultParams sampleBank)
        openRun).retrievalSessions.get openId = some session ∧ session.lockedFee = 2 ∧
      Refund cancelEvent
        (run (apply (sampleEnv openKeccak [])) (genesis defaultParams sampleBank) openRun)
        (apply (sampleEnv openKeccak [])
          (run (apply (sampleEnv openKeccak [])) (genesis defaultParams sampleBank) openRun)
          cancelEvent) openId session := by
  have hmessages : ∀ e ∈ openRun ++ [cancelEvent], e.isMessage := by
    intro e he
    rcases List.mem_append.mp he with hold | hlast
    · exact openRun_messages e hold
    · cases List.mem_singleton.mp hlast
      trivial
  -- What is stored before the event and after it.
  have hbefore : ((run (apply (sampleEnv openKeccak [])) (genesis defaultParams sampleBank)
      openRun).retrievalSessions.get openId).map (·.lockedFee) = some 2 := by decide +kernel
  have hafter : ((apply (sampleEnv openKeccak []) (run (apply (sampleEnv openKeccak []))
      (genesis defaultParams sampleBank) openRun) cancelEvent).retrievalSessions.get openId).map
        (fun session => (session.lockedFee, session.status)) = some (0, .canceled) := by
    decide +kernel
  obtain ⟨session, hget, htwo⟩ := Option.map_eq_some_iff.mp hbefore
  obtain ⟨session₁, hget₁, hzero⟩ := Option.map_eq_some_iff.mp hafter
  obtain ⟨hfee, hstatus⟩ := Prod.mk.inj hzero
  obtain ⟨⟨session', hget', -, hcase, -⟩, -⟩ :=
    session_lifecycle (sampleEnv openKeccak []) defaultParams sampleBank (openRun ++ [cancelEvent])
      (by decide +kernel) hmessages
        (cancelRun_collision _) openId openRun cancelEvent [] session rfl
      hget
  rw [hget₁] at hget'
  cases hget'
  refine ⟨session, hget, htwo, ?_⟩
  -- the fee has changed, and the session is not completed
  rcases hcase with hkept | hsettled | hrefunded
  · omega
  · obtain ⟨session₂, hget₂, -, hcompleted⟩ := hsettled.stored
    rw [hget₁] at hget₂
    cases hget₂
    rw [hstatus] at hcompleted
    cases hcompleted
  · exact hrefunded

end NilStore.Chain
