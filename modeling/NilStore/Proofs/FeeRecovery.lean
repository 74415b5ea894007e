import NilStore.Chain.Ledger
import NilStore.Proofs.SessionIndex
import NilStore.Proofs.SessionLifecycle

/-!
# `NilStore.Proofs.FeeRecovery`: who can get a locked fee back

A fee is stuck unless the owner can cancel, and a cancellation asks for an expired session whose
deal is stored. `SessionHeld` is what every stored session keeps in every run, calls of the
precompile included, and `cancel_recovers_iff` says that then the expiry alone decides.

`fee_recoverable_iff` is the statement about reachable states: the fee can be recovered from some
height on exactly when the session has an expiry that a block height can pass.
-/

set_option autoImplicit false

namespace NilStore.Chain

open NilStore.Lib

variable {β : Type}

/-! ### What stored sessions keep -/

/-- A stored session: its id is a hash, its deal is stored, and there is no fee in a canceled
one. -/
structure SessionHeld (s : KeeperState β) (id : Bytes) (session : RetrievalSession) : Prop where
  length : id.length = 32
  deal : ∃ deal, s.deals.get session.dealId.toNat = some deal
  canceled : session.status = .canceled → session.lockedFee ≤ 0

/-- Every stored session is held. -/
def SessionsHeld (s : KeeperState β) : Prop :=
  ∀ id session, s.retrievalSessions.get id = some session → SessionHeld s id session

/-- Deals are not dropped. -/
def DealsKept (s s' : KeeperState β) : Prop :=
  ∀ d deal, s.deals.get d = some deal → ∃ deal', s'.deals.get d = some deal'

section Held

variable {env : Env β} {ctx : Ctx} {s s' : KeeperState β} {id : Bytes}
  {session session' : RetrievalSession}

/-- A change of escrows drops no deal. -/
theorem EscrowOnly.dealsKept (h : EscrowOnly s s') : DealsKept s s' := by
  intro d deal hget
  have hd := h.deals d
  rw [hget, Option.map_some, Option.map_eq_some_iff] at hd
  obtain ⟨deal', hget', -⟩ := hd
  exact ⟨deal', hget'⟩

/-- An admissible step drops no deal. -/
theorem Moved.dealsKept {e : Event} (h : Moved env e s s') : DealsKept s s' := by
  intro d deal hget
  obtain ⟨deal', hget', -⟩ := h.deals.kept hget
  exact ⟨deal', hget'⟩

/-- A step that writes no session. -/
theorem SessionsHeld.kept (h : SessionsHeld s) (hdeals : DealsKept s s')
    (hsessions : s'.retrievalSessions = s.retrievalSessions) : SessionsHeld s' := by
  intro id session hget
  rw [hsessions] at hget
  obtain ⟨hlength, ⟨deal, hdeal⟩, hcanceled⟩ := h id session hget
  exact ⟨hlength, hdeals _ deal hdeal, hcanceled⟩

/-- A step that writes one session, new or old. -/
theorem SessionsHeld.set (h : SessionsHeld s) (hdeals : DealsKept s s')
    (hsessions : s'.retrievalSessions = s.retrievalSessions.set id session')
    (hheld : SessionHeld s id session') : SessionsHeld s' := by
  have hkept : ∀ {id₀ : Bytes} {session₀ : RetrievalSession}, SessionHeld s id₀ session₀ →
      SessionHeld s' id₀ session₀ := by
    rintro id₀ session₀ ⟨hlength, ⟨deal, hdeal⟩, hcanceled⟩
    exact ⟨hlength, hdeals _ deal hdeal, hcanceled⟩
  intro id₀ session₀ hget
  rw [hsessions] at hget
  rcases KVStore.get_set_some hget with ⟨rfl, rfl⟩ | ⟨-, hold⟩
  · exact hkept hheld
  · exact hkept (h id₀ session₀ hold)

/-- An advanced session: it was canceled before when it is now. -/
theorem Advanced.held {next : RetrievalSessionStatus → RetrievalSessionStatus}
    (hnext : ∀ status, next status = .canceled → status = .canceled)
    (hget : s.retrievalSessions.get id = some session) (hheld : SessionHeld s id session)
    (h : Advanced env ctx id next session s s') :
    ∃ session', s'.retrievalSessions = s.retrievalSessions.set id session' ∧
      SessionHeld s id session' := by
  cases h with
  | unchanged hstatus => exact ⟨session, (KVStore.set_get hget).symm, hheld⟩
  | moved hstatus hfinished =>
      cases hfinished with
      | settled hcompleted hfee hpaid =>
          refine ⟨_, rfl, hheld.length, hheld.deal, ?_⟩
          intro hcanceled
          exact le_rfl
      | free hcompleted hfee => exact ⟨_, rfl, hheld.length, hheld.deal, fun _ => hfee⟩
      | pending hpending =>
          refine ⟨_, rfl, hheld.length, hheld.deal, ?_⟩
          intro hcanceled
          exact hheld.canceled (hnext _ hcanceled)

/-- A cancellation stores a session that is held. -/
theorem Canceled.held (hget : s.retrievalSessions.get id = some session)
    (hheld : SessionHeld s id session) (h : Canceled ctx id session s s') :
    ∃ session', s'.retrievalSessions = s.retrievalSessions.set id session' ∧
      SessionHeld s id session' := by
  have hfee : (canceledSession ctx session).lockedFee ≤ 0 := by
    show (if 0 < session.lockedFee then 0 else session.lockedFee) ≤ 0
    split <;> omega
  cases h with
  | unchanged hstatus => exact ⟨session, (KVStore.set_get hget).symm, hheld⟩
  | refunded hstatus hexp hpos hdeal hevidence =>
      rw [EvidenceOnly] at hevidence
      rw [hevidence]
      exact ⟨canceledSession ctx session, rfl, hheld.length, hheld.deal, fun _ => hfee⟩
  | free hstatus hexp hpos hevidence =>
      rw [EvidenceOnly] at hevidence
      rw [hevidence]
      exact ⟨canceledSession ctx session, rfl, hheld.length, hheld.deal, fun _ => hfee⟩

/-- A confirmation cancels nothing. -/
theorem confirmStatus_canceled (status : RetrievalSessionStatus)
    (h : confirmStatus status = .canceled) : status = .canceled := by
  cases status <;> first | rfl | cases h

/-- A submission cancels nothing. -/
theorem submitStatus_canceled (status : RetrievalSessionStatus)
    (h : submitStatus status = .canceled) : status = .canceled := by
  cases status <;> first | rfl | cases h

/-- An opening, whether it fails or not. -/
theorem openRetrievalSession_held {msg : MsgOpenRetrievalSession} {res : Except Fault Bytes}
    (h : SessionsHeld s) (hexec : (openRetrievalSession env ctx msg).exec s = (res, s')) :
    SessionsHeld s' := by
  have hdeals : DealsKept s s' :=
    ((keeps_openRetrievalSession EscrowOnly.serves msg s).of_exec hexec).dealsKept
  cases res with
  | ok sessionId =>
      obtain ⟨plan, hplan, -, hsid, s₁, hfees, rfl⟩ := openRetrievalSession_ok hexec
      obtain ⟨-, -, -, rfl⟩ := sessionIdOf_ok hsid
      have hsessions : s₁.retrievalSessions = s.retrievalSessions := by rw [hfees.frame]
      refine h.set hdeals (congrArg (KVStore.set · _ _) hsessions)
        ⟨env.length_keccak256 _, ⟨plan.deal, (checkOpen_ok hplan).1⟩, nofun⟩
  | error e =>
      refine h.kept hdeals ?_
      rw [openRetrievalSession_fails hexec]

/-- A confirmation, whether it fails or not. -/
theorem confirmRetrievalSession_held {msg : MsgConfirmRetrievalSession} {res : Except Fault Unit}
    (h : SessionsHeld s) (hexec : (confirmRetrievalSession env ctx msg).exec s = (res, s')) :
    SessionsHeld s' := by
  have hdeals : DealsKept s s' :=
    ((keeps_confirmRetrievalSession EscrowOnly.serves msg s).of_exec hexec).dealsKept
  cases res with
  | ok u =>
      obtain ⟨session, hget, -, -, hadvanced⟩ := confirmRetrievalSession_ok hexec
      obtain ⟨session', hsessions, hheld⟩ :=
        hadvanced.held confirmStatus_canceled hget (h _ _ hget)
      exact h.set hdeals hsessions hheld
  | error e =>
      cases confirmRetrievalSession_error hexec with
      | unknown => exact h
      | @expired session hget hexp =>
          have hheld := h _ _ hget
          exact h.set hdeals rfl ⟨hheld.length, hheld.deal, nofun⟩
      | unpaid => exact h.kept hdeals rfl

/-- The precompile's calls keep the sessions held. -/
theorem SessionsHeld.serves :
    Precompile.ServesCalls env ctx fun s s' : KeeperState β => SessionsHeld s →
      SessionsHeld s' where
  refl _ h := h
  trans _ _ _ hab hbc h := hbc (hab h)
  opens _ _ h := openRetrievalSession_held h rfl
  confirms _ _ h := confirmRetrievalSession_held h rfl

/-- A message that succeeds. -/
theorem handle_held {msg : Msg} {u : Unit} (hs : WellFormed env s) (h : SessionsHeld s)
    (hexec : (handle env ctx msg).exec s = (.ok u, s')) : SessionsHeld s' := by
  have hdeals := (handle_moved hs hexec).dealsKept
  by_cases hmsg : msg.isSession
  · cases msg with
    | openRetrievalSession msg =>
        obtain ⟨id, hopen⟩ := discard_ok.mp hexec
        exact openRetrievalSession_held h hopen
    | confirmRetrievalSession msg => exact confirmRetrievalSession_held h hexec
    | cancelRetrievalSession msg =>
        obtain ⟨session, hget, -, hcanceled⟩ := cancelRetrievalSession_ok hexec
        obtain ⟨session', hsessions, hheld⟩ := hcanceled.held hget (h _ _ hget)
        exact h.set hdeals hsessions hheld
    | submitRetrievalSessionProof msg =>
        obtain ⟨session, hget, -, -, -, hadvanced⟩ := submitRetrievalSessionProof_ok hexec
        obtain ⟨session', hsessions, hheld⟩ :=
          hadvanced.held submitStatus_canceled hget (h _ _ hget)
        exact h.set hdeals hsessions hheld
    | _ => exact hmsg.elim
  · exact h.kept hdeals ((handle_frame hexec).sessions hmsg).sessions

/-- Every event keeps the sessions with their deals. A message or a call that fails at the top
changes nothing, or only what the precompile keeps. -/
theorem apply_held (hs : WellFormed env s) (h : SessionsHeld s) (e : Event) :
    SessionsHeld (apply env s e) := by
  have hdeals := (apply_moved hs e).dealsKept
  cases e with
  | deliver ctx msg =>
      rcases deliver_cases env ctx msg s with heq | hok
      · rw [heq]
        exact h
      · exact handle_held hs h hok
  -- the end of a block touches no session
  | endBlock ctx =>
      refine h.kept hdeals ?_
      rw [apply, (checkMissedProofs_spec env ctx s).frame]
  | call ctx input =>
      cases hexec : (Precompile.run env ctx input).exec s with
      | mk res s' =>
          rw [apply, hexec] at hdeals ⊢
          rcases Precompile.run_cases hexec with ⟨-, -, rfl⟩ | ⟨-, call, -, hserve⟩
          · exact h
          -- a call on sessions, on deals, or on neither
          by_cases hsessions : call.servesSessions
          · exact Precompile.serve_within SessionsHeld.serves hserve hsessions h
          by_cases hdeal : call.servesDeals
          · refine h.kept hdeals ?_
            rw [Precompile.serve_deals_frame hserve hdeal]
          refine h.kept hdeals ?_
          rcases Precompile.serve_other hserve hsessions hdeal
            with hheat | ⟨d, deal, a, p, -, hframe⟩
          · rw [HeatOnly] at hheat
            rw [hheat]
          · rw [hframe]

end Held

/-- In every reachable state, all stored sessions are held. -/
theorem run_held (env : Env β) (params : Params) (b : β) (es : List Event) :
    SessionsHeld (run (apply env) (genesis params b) es) := by
  have hrun := run_invariant (fun _ => True)
    (fun s : KeeperState β => WellFormed env s ∧ SessionsHeld s)
    ⟨genesis_wellFormed env params b, nofun⟩
    (fun s e hs _ => ⟨apply_wellFormed hs.1 e, apply_held hs.1 hs.2 e⟩)
      (fun e (_ : e ∈ es) => trivial)
  exact hrun.2

/-! ### Cancelling -/

/-- The owner cancels, and exactly the locked fee is added to the escrow of the deal. -/
def RecoversFee (ctx : Ctx) (id : Bytes) (session : RetrievalSession) (s : KeeperState β) : Prop :=
  ∃ s' deal, (cancelRetrievalSession ctx ⟨session.owner, id⟩).exec s = (.ok (), s') ∧
    s.deals.get session.dealId.toNat = some deal ∧
    s'.deals = s.deals.set session.dealId.toNat
      { deal with escrowBalance := deal.escrowBalance + session.lockedFee }

section Cancel

variable {ctx : Ctx} {s : KeeperState β} {sid : Bytes} {session : RetrievalSession}

/-- The owner can cancel an expired session: the session is there under its identity, its deal
exists, and nothing else can refuse the message. -/
theorem cancelRetrievalSession_succeeds (hheld : SessionHeld s sid session)
    (hget : s.retrievalSessions.get sid = some session)
    (hexp : isSessionExpired ctx session = true) :
    ∃ s', (cancelRetrievalSession ctx ⟨session.owner, sid⟩).exec s = (.ok (), s') := by
  obtain ⟨deal, hdeal⟩ := hheld.deal
  have hparty : partySession sid (·.owner) session.owner "only session owner may cancel"
      s.retrievalSessions = .ok session := by
    simp only [partySession, except_bind_ok, rejectIf_eq_ok, orFail_eq_ok, not_not]
    exact ⟨(), hheld.length, session, hget, (), rfl, rfl⟩
  simp only [cancelRetrievalSession, Tx.exec_reads_bind_ok, hparty, Except.ok.injEq,
    exists_eq_left', Tx.exec_ite]
  split
  · exact ⟨s, rfl⟩
  · have hdeals : ((if session.status = .open then recordNonResponse ctx session.owner session
        else id) s).deals = s.deals := by
      split <;> rfl
    simp only [Tx.exec_failIf_bind_ok, Tx.exec_update_bind, hexp, not_true_eq_false,
      not_false_eq_true, true_and]
    generalize (if session.status = .open then recordNonResponse ctx session.owner session
      else id) s = s₁ at hdeals
    -- with a fee the deal gets it back, and the deal is there
    rw [refundFee]
    split
    · have hread : s₁.deals.get session.dealId.toNat = some deal := by rw [hdeals, hdeal]
      simp only [bind_assoc, Tx.exec_reads_bind_ok, hread]
      exact ⟨_, deal, rfl, rfl⟩
    · exact ⟨_, rfl⟩

/-- While there is a fee, the owner recovers it exactly when the session has expired. The other end
states have no fee left. -/
theorem recoversFee_iff (hheld : SessionHeld s sid session)
    (hget : s.retrievalSessions.get sid = some session) (hfee : 0 < session.lockedFee)
    (hstatus : session.status ≠ .completed) :
    RecoversFee ctx sid session s ↔ isSessionExpired ctx session = true := by
  have hover : ¬(session.status = .completed ∨ session.status = .canceled) := by
    rintro (hcompleted | hcanceled)
    · exact hstatus hcompleted
    · exact absurd hfee (not_lt.mpr (hheld.canceled hcanceled))
  -- a recovery is a cancellation, and that asks for the expiry
  constructor
  · rintro ⟨s', deal, hexec, -, -⟩
    obtain ⟨session', hget', -, hcanceled⟩ := cancelRetrievalSession_ok hexec
    rw [hget] at hget'
    cases hget'
    cases hcanceled with
    | unchanged hstatus' => exact absurd hstatus' hover
    | refunded _ hexp => exact hexp
    | free _ hexp => exact hexp
  -- an expired session is canceled, and the fee goes back
  · intro hexp
    obtain ⟨s', hexec⟩ := cancelRetrievalSession_succeeds hheld hget hexp
    refine ⟨s', ?_⟩
    obtain ⟨session', hget', -, hcanceled⟩ := cancelRetrievalSession_ok hexec
    rw [hget] at hget'
    cases hget'
    cases hcanceled with
    | unchanged hstatus' => exact absurd hstatus' hover
    | @refunded s₁ deal hstatus' hexp' hpos hdeal hevidence => exact ⟨deal, hexec, hdeal, rfl⟩
    | free hstatus' hexp' hnone => exact absurd hfee (not_lt.mpr hnone)

end Cancel

/-! ### Reachable states -/

/-- Take any reachable state and a session in it that is not complete and has a locked fee. There is
a height from which on the owner can recover the fee, whatever happens meanwhile as long as the
session is not completed or canceled, exactly when the session has an expiry that a block height can
pass. -/
theorem fee_recoverable_iff (env : Env β) (params : Params) (b : β) (es : List Event) (id : Bytes)
    (session : RetrievalSession)
    (hget : (run (apply env) (genesis params b) es).retrievalSessions.get id = some session)
    (hfee : 0 < session.lockedFee) (hstatus : session.status ≠ .completed) :
    (∃ h < 2 ^ 63, ∀ (later : List Event) (session' : RetrievalSession),
      (run (apply env) (genesis params b) (es ++ later)).retrievalSessions.get id = some session' →
      ProgressOnly session session' → 0 < session'.lockedFee → session'.status ≠ .completed →
      ∀ ctx : Ctx, h ≤ ctx.blockHeight →
        RecoversFee ctx id session' (run (apply env) (genesis params b) (es ++ later))) ↔
      session.expiresAt ≠ 0 ∧ session.expiresAt.toNat < 2 ^ 63 - 1 := by
  constructor
  -- recovery at one height already needs an expiry below that height
  · rintro ⟨h, hlt, hrecovers⟩
    have hnow := hrecovers [] session (by rw [List.append_nil]; exact hget) rfl hfee hstatus
      (ctxAt h (decide_height hlt)) le_rfl
    rw [List.append_nil] at hnow
    have hheld := run_held env params b es id session hget
    obtain ⟨hne, hpassed⟩ :=
      isSessionExpired_eq_true.mp ((recoversFee_iff hheld hget hfee hstatus).mp hnow)
    rw [UInt64.lt_iff_toNat_lt, Ctx.toNat_height64] at hpassed
    have hheight : session.expiresAt.toNat < h := hpassed
    exact ⟨hne, by omega⟩
  · rintro ⟨hne, hlt⟩
    refine ⟨session.expiresAt.toNat + 1, by omega, ?_⟩
    intro later session' hget' hsame hfee' hstatus' ctx hheight
    have hheld := run_held env params b (es ++ later) id session' hget'
    refine (recoversFee_iff hheld hget' hfee' hstatus').mpr (isSessionExpired_eq_true.mpr ?_)
    -- The expiry of a session does not change.
    have hexpires : session'.expiresAt = session.expiresAt := by rw [hsame]
    rw [hexpires, UInt64.lt_iff_toNat_lt, Ctx.toNat_height64]
    exact ⟨hne, by omega⟩

/-! ### Sessions on the small chain -/

/-- The owner recovers the fee of the session that expires at height 100. -/
theorem fee_recoverable_iff_openRun :
    ∃ session h, (run (apply (sampleEnv openKeccak [])) (genesis defaultParams sampleBank)
        openRun).retrievalSessions.get openId = some session ∧ session.lockedFee = 2 ∧
      ∀ ctx : Ctx, h ≤ ctx.blockHeight → RecoversFee ctx openId session
        (run (apply (sampleEnv openKeccak [])) (genesis defaultParams sampleBank) openRun) := by
  have hopen : ((run (apply (sampleEnv openKeccak [])) (genesis defaultParams sampleBank)
      openRun).retrievalSessions.get openId).map (fun session =>
        (session.lockedFee, session.status, session.expiresAt)) = some (2, .open, 100) := by
    decide +kernel
  obtain ⟨session, hget, hfields⟩ := Option.map_eq_some_iff.mp hopen
  simp only [Prod.mk.injEq] at hfields
  obtain ⟨hfee, hstatus, hexpires⟩ := hfields
  obtain ⟨h, -, hrecovers⟩ :=
    (fee_recoverable_iff (sampleEnv openKeccak []) defaultParams sampleBank
    openRun openId session hget (by rw [hfee]; decide) (by rw [hstatus]; decide)).mpr
      (by rw [hexpires]; decide)
  refine ⟨session, h, hget, hfee, fun ctx hheight => ?_⟩
  have hnow := hrecovers [] session (by rw [List.append_nil]; exact hget) rfl
    (by rw [hfee]; decide) (by rw [hstatus]; decide) ctx hheight
  rw [List.append_nil] at hnow
  exact hnow

/-- The Keccak-256 of the identity of a session that does not expire. -/
def lastingId : Bytes :=
  [0x45, 0xa1, 0x19, 0x10, 0xdd, 0xd7, 0xc9, 0xe9, 0xd5, 0xd9, 0xc6, 0x27, 0x3b, 0xdb, 0xa2, 0x7e,
    0xdd, 0xe9, 0xd5, 0x7a, 0x05, 0xe8, 0x57, 0x28, 0xf8, 0xbd, 0x5e, 0xa8, 0xd0, 0x74, 0x13, 0x5f]

/-- The digest of the session that does not expire. -/
def lastingKeccak : HashTable where
  entries :=
    [(sessionIdPreimage ownerAddr 0 providerAddr (List.replicate 48 0) 0 0 2 1 0, lastingId)]
  lengths := by decide

/-- The small chain with a session that does not expire. -/
def lastingRun : List Event :=
  [.deliver (ctxAt 1) (registerMsg providerText), .deliver (ctxAt 1) (createMsg 100 "General"),
    .deliver (ctxAt 1) commitMsg, .endBlock (ctxAt 1),
    .deliver (ctxAt 2) (.openRetrievalSession { openMsg with expiresAt := 0 })]

/-- The session has a locked fee and is open, and at no height can its owner cancel it: it was
opened without an expiry. -/
theorem lasting_fee_stuck :
    ∃ session, (run (apply (sampleEnv lastingKeccak [])) (genesis defaultParams sampleBank)
        lastingRun).retrievalSessions.get lastingId = some session ∧ 0 < session.lockedFee ∧
      session.status ≠ .completed ∧
      ∀ ctx : Ctx, ¬RecoversFee ctx lastingId session
        (run (apply (sampleEnv lastingKeccak []))
          (genesis defaultParams sampleBank) lastingRun) := by
  -- its fee, status and expiry, evaluated
  have hopen : ((run (apply (sampleEnv lastingKeccak [])) (genesis defaultParams sampleBank)
      lastingRun).retrievalSessions.get lastingId).map (fun session =>
        (session.lockedFee, session.status, session.expiresAt)) = some (2, .open, 0) := by
    decide +kernel
  obtain ⟨session, hget, hfields⟩ := Option.map_eq_some_iff.mp hopen
  simp only [Prod.mk.injEq] at hfields
  obtain ⟨hfee, hstatus, hexpires⟩ := hfields
  have hpos : 0 < session.lockedFee := by
    rw [hfee]
    decide
  have hopen : session.status ≠ .completed := by
    rw [hstatus]
    decide
  refine ⟨session, hget, hpos, hopen, fun ctx hrecovers => ?_⟩
  have hheld := run_held (sampleEnv lastingKeccak []) defaultParams sampleBank lastingRun _ _ hget
  have hexp := (recoversFee_iff hheld hget hpos hopen).mp hrecovers
  exact (isSessionExpired_eq_true.mp hexp).1 hexpires

end NilStore.Chain
