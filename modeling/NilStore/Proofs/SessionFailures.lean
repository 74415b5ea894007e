import NilStore.Proofs.PrecompileSteps

/-!
# `NilStore.Proofs.SessionFailures`: what a failing session handler leaves behind

The message server drops the writes of a handler that fails. The precompile does not, so it
matters what they are. An opening that fails may have charged its fees
(`openRetrievalSession_error`). A confirmation that fails may have marked an expired session, or
burned a part of a fee that it then could not pay out (`confirmRetrievalSession_error`).
-/

set_option autoImplicit false

namespace NilStore.Chain

open NilStore.Lib

variable {β : Type}

/-! ### Opening -/

/-- The fees of an opening cannot be charged: the escrow is too small, or the burn fails. -/
def FeesRefused (env : Env β) (ctx : Ctx) (params : Params) (msg : MsgOpenRetrievalSession)
    (deal : Deal) (b : β) : Prop :=
  0 < totalFee params msg.blobCount ∧
    (deal.escrowBalance - totalFee params msg.blobCount < 0 ∨
      0 < params.baseRetrievalFee.amount ∧
        env.bank.burnCoins ctx b moduleName params.baseRetrievalFee = none)

/-- An opening is turned down after its fees: its nonce is not above the last one, or its id
cannot be computed. -/
def TurnedDown (env : Env β) (msg : MsgOpenRetrievalSession) (plan : OpenPlan)
    (s : KeeperState β) : Prop :=
  msg.nonce ≤ lastNonce s.retrievalSessionNonces (sessionNonceKey msg) ∨
    ∃ text, sessionIdOf env msg plan = .error text

section Opening

variable {env : Env β} {ctx : Ctx} {msg : MsgOpenRetrievalSession} {s s' : KeeperState β}

/-- Fees that cannot be charged leave the state. -/
theorem chargeFees_error {params : Params} {deal : Deal} {e : Fault}
    (h : (chargeFees env ctx params msg deal).exec s = (.error e, s')) :
    FeesRefused env ctx params msg deal s.bank ∧ s' = s := by
  rw [chargeFees, Tx.exec_ite] at h
  by_cases htotal : 0 < totalFee params msg.blobCount
  · simp only [if_pos htotal, Tx.exec_failIf_bind_error] at h
    rcases h with ⟨hescrow, -, rfl⟩ | ⟨-, h⟩
    · exact ⟨⟨htotal, Or.inl hescrow⟩, rfl⟩
    · by_cases hbase : 0 < params.baseRetrievalFee.amount
      · simp only [burnBaseFee, if_pos hbase, Tx.exec_bind_error, bankCall_error,
          Tx.exec_update] at h
        rcases h with ⟨hburn, -, rfl⟩ | ⟨_, s₁, -, hlast⟩
        · exact ⟨⟨htotal, Or.inr ⟨hbase, hburn⟩⟩, rfl⟩
        · cases hlast
      · simp only [burnBaseFee, if_neg hbase, Tx.exec_pure_bind, Tx.exec_update] at h
        cases h
  · rw [if_neg htotal] at h
    cases h

/-- An opening that fails: its checks fail or its fees cannot be charged, and nothing is written; or
the fees are charged, and it is turned down after that. The nonce and the id come after the fees. -/
theorem openRetrievalSession_error {e : Fault}
    (h : (openRetrievalSession env ctx msg).exec s = (.error e, s')) :
    (∃ e', checkOpen env.codec msg s.deals = .error e') ∧ s' = s ∨
      ∃ plan, checkOpen env.codec msg s.deals = .ok plan ∧
        (FeesRefused env ctx s.getParams msg plan.deal s.bank ∧ s' = s ∨
          FeesCharged env ctx s.getParams msg plan.deal s s' ∧ TurnedDown env msg plan s) := by
  simp only [openRetrievalSession, Tx.exec_reads_bind_error, Tx.exec_gets_bind] at h
  rcases h with ⟨hcheck, rfl⟩ | ⟨plan, hplan, h⟩
  · exact Or.inl ⟨⟨e, hcheck⟩, rfl⟩
  · refine Or.inr ⟨plan, hplan, ?_⟩
    rcases Tx.exec_bind_error.mp h with hfees | ⟨_, s₁, hfees, h⟩
    · exact Or.inl (chargeFees_error hfees)
    · have hcharged := chargeFees_ok hfees
      have hnonces : s₁.retrievalSessionNonces = s.retrievalSessionNonces := by rw [hcharged.frame]
      simp only [Tx.exec_gets_bind, Tx.exec_failIf_bind_error, Tx.exec_ofExcept_bind_error,
        Tx.exec_update_bind, Tx.exec_pure] at h
      -- no nonce is left, or no id can be made
      rcases h with ⟨hnonce, -, rfl⟩ | ⟨-, ⟨hid, rfl⟩ | ⟨sessionId, -, hlast⟩⟩
      · rw [hnonces] at hnonce
        exact Or.inr ⟨hcharged, Or.inl hnonce⟩
      · refine Or.inr ⟨hcharged, Or.inr ?_⟩
        cases hsid : sessionIdOf env msg plan with
        | error text => exact ⟨text, rfl⟩
        | ok sessionId =>
            rw [hsid] at hid
            cases hid
      · cases hlast

/-- An opening that fails has moved coins and one escrow at most. -/
theorem openRetrievalSession_fails {e : Fault}
    (h : (openRetrievalSession env ctx msg).exec s = (.error e, s')) :
    s' = { s with bank := s'.bank, deals := s'.deals } := by
  rcases openRetrievalSession_error h with ⟨-, rfl⟩ | ⟨plan, -, ⟨-, rfl⟩ | ⟨hcharged, -⟩⟩
  · rfl
  · rfl
  · exact hcharged.frame

end Opening

/-! ### Confirming -/

/-- The fee of a session cannot be paid out, after the bank has come to the second state. -/
inductive PayoutFails (env : Env β) (ctx : Ctx) (params : Params) (session : RetrievalSession)
    (b : β) : β → Prop where
  /-- The burn fails. -/
  | burn (hpos : 0 < settleBurn params session.lockedFee)
      (hburn : env.bank.burnCoins ctx b moduleName
        (bondCoin (settleBurn params session.lockedFee)) = none) :
      PayoutFails env ctx params session b b
  /-- The payment fails, and the burn has happened. -/
  | pay {b₁ : β}
      (hburn : if 0 < settleBurn params session.lockedFee then
          env.bank.burnCoins ctx b moduleName
            (bondCoin (settleBurn params session.lockedFee)) = some b₁
        else b₁ = b)
      (hcut : 0 < session.lockedFee - settleBurn params session.lockedFee)
      (hpay : ∀ addr, env.codec.accAddressFromBech32 session.provider = some addr →
        env.bank.sendCoinsFromModuleToAccount ctx b₁ moduleName addr
          (bondCoin (session.lockedFee - settleBurn params session.lockedFee)) = none) :
      PayoutFails env ctx params session b b₁

/-- How a confirmation fails, and the state that it leaves. -/
inductive ConfirmFails (env : Env β) (ctx : Ctx) (msg : MsgConfirmRetrievalSession)
    (s : KeeperState β) : KeeperState β → Prop where
  /-- There is no such session of the sender. -/
  | unknown {e : Fault}
      (hparty : partySession msg.sessionId (·.owner) msg.creator
        "only session owner may confirm completion" s.retrievalSessions = .error e) :
      ConfirmFails env ctx msg s s
  /-- The session has expired, and is marked so. -/
  | expired {session : RetrievalSession}
      (hget : s.retrievalSessions.get msg.sessionId = some session)
      (hexp : isSessionExpired ctx session = true) :
      ConfirmFails env ctx msg s (setSession (expireSession ctx session) msg.sessionId s)
  /-- The confirmation completes the session, and its fee cannot be paid out. -/
  | unpaid {session : RetrievalSession} {b : β}
      (hget : s.retrievalSessions.get msg.sessionId = some session)
      (hexp : isSessionExpired ctx session = false) (hstatus : session.status = .proofSubmitted)
      (hfee : 0 < session.lockedFee)
      (hpayout : PayoutFails env ctx s.getParams session s.bank b) :
      ConfirmFails env ctx msg s { s with bank := b }

section Confirming

variable {env : Env β} {ctx : Ctx} {s s' : KeeperState β}

/-- The burn is at most the fee. -/
theorem settleBurn_le {params : Params} {fee : Int} (hfee : 0 < fee) :
    settleBurn params fee ≤ fee := by
  rw [settleBurn]
  split
  · exact min_le_right _ _
  · exact hfee.le

/-- A payment that fails has written nothing. -/
theorem payProvider_error {provider : Str} {cut : Int} {e : Fault}
    (h : (payProvider env ctx provider cut).exec s = (.error e, s')) :
    s' = s ∧ 0 < cut ∧ ∀ addr, env.codec.accAddressFromBech32 provider = some addr →
      env.bank.sendCoinsFromModuleToAccount ctx s.bank moduleName addr (bondCoin cut) = none := by
  rw [payProvider, Tx.exec_ite] at h
  by_cases hcut : 0 < cut
  · simp only [if_pos hcut, Tx.exec_ofExcept_bind_error, orFail_eq_ok, bankCall_error] at h
    rcases h with ⟨haddr, rfl⟩ | ⟨addr, haddr, hsend, -, rfl⟩
    · refine ⟨rfl, hcut, fun addr haddr' => ?_⟩
      rw [haddr'] at haddr
      cases haddr
    · refine ⟨rfl, hcut, fun addr' haddr' => ?_⟩
      rw [haddr] at haddr'
      cases haddr'
      exact hsend
  · rw [if_neg hcut] at h
    cases h

/-- A settlement that fails could not pay out the fee. The burn comes first, so it is done when the
payment fails. -/
theorem settleRetrievalSession_error {session : RetrievalSession} {e : Fault}
    (h : (settleRetrievalSession env ctx session).exec s = (.error e, s')) :
    0 < session.lockedFee ∧ ∃ b, PayoutFails env ctx s.getParams session s.bank b ∧
      s' = { s with bank := b } := by
  rw [settleRetrievalSession, Tx.exec_ite] at h
  by_cases hfee : 0 < session.lockedFee
  · refine ⟨hfee, ?_⟩
    have hle : settleBurn s.getParams session.lockedFee ≤ session.lockedFee := settleBurn_le hfee
    simp only [if_pos hfee, Tx.exec_gets_bind, Tx.exec_failIf_bind_error] at h
    -- the cut is never above the fee
    rcases h with ⟨hunder, -⟩ | ⟨-, h⟩
    · omega
    · rcases Tx.exec_bind_error.mp h with hburn | ⟨_, s₁, hburn, h⟩
      · rw [burnFee, Tx.exec_ite] at hburn
        split at hburn
        · rename_i hpos
          obtain ⟨hnone, -, rfl⟩ := bankCall_error.mp hburn
          exact ⟨s.bank, .burn hpos hnone, rfl⟩
        · cases hburn
      -- what the burn left of the bank
      · have hburned : ∃ b, (if 0 < settleBurn s.getParams session.lockedFee then
            env.bank.burnCoins ctx s.bank moduleName
              (bondCoin (settleBurn s.getParams session.lockedFee)) = some b
          else b = s.bank) ∧ s₁ = { s with bank := b } := by
          rw [burnFee, Tx.exec_ite] at hburn
          by_cases hpos : 0 < settleBurn s.getParams session.lockedFee
          · rw [if_pos hpos] at hburn
            obtain ⟨b, hsome, rfl⟩ := bankCall_ok.mp hburn
            exact ⟨b, by rwa [if_pos hpos], rfl⟩
          · rw [if_neg hpos] at hburn
            cases hburn
            exact ⟨s.bank, by rw [if_neg hpos], rfl⟩
        obtain ⟨b, hburned, rfl⟩ := hburned
        rcases Tx.exec_bind_error.mp h with hpay | ⟨_, s₂, -, hlast⟩
        · obtain ⟨rfl, hcut, hpay⟩ := payProvider_error hpay
          exact ⟨b, .pay hburned hcut hpay, rfl⟩
        · cases hlast
  · rw [if_neg hfee] at h
    cases h

/-- A confirmation that fails does so in one of three ways. The session is not found or not the
party's, it is expired, or its fee cannot be paid. -/
theorem confirmRetrievalSession_error {msg : MsgConfirmRetrievalSession} {e : Fault}
    (h : (confirmRetrievalSession env ctx msg).exec s = (.error e, s')) :
    ConfirmFails env ctx msg s s' := by
  simp only [confirmRetrievalSession, Tx.exec_reads_bind_error] at h
  rcases h with ⟨hparty, rfl⟩ | ⟨session, hparty, h⟩
  · exact .unknown hparty
  · have hget := (partySession_ok hparty).1
    -- an expired session is stored as such, and the call fails
    by_cases hexp : isSessionExpired ctx session
    · rw [rejectExpired, if_pos hexp, Tx.exec_bind, Tx.exec_update_bind, Tx.exec_throw] at h
      cases h
      exact .expired hget hexp
    · rw [rejectExpired, if_neg hexp, Tx.exec_pure_bind, Tx.exec_ite] at h
      have hexp := Bool.eq_false_iff.mpr hexp
      by_cases hover : session.status = .completed
      · rw [if_pos hover] at h
        cases h
      · rw [if_neg hover, finishSession, Tx.exec_ite] at h
        by_cases hdone : confirmStatus session.status = .completed
        · rw [if_pos hdone] at h
          -- Only the settlement can fail.
          rcases Tx.exec_bind_error.mp h with hsettle | ⟨settled, s₁, -, hlast⟩
          · obtain ⟨hfee, b, hpayout, rfl⟩ := settleRetrievalSession_error hsettle
            refine .unpaid hget hexp ?_ hfee ?_
            · cases hstatus : session.status <;> simp_all [confirmStatus]
            · cases hpayout with
              | burn hpos hburn => exact .burn hpos hburn
              | pay hburn hcut hpay => exact .pay hburn hcut hpay
          · cases hlast
        · rw [if_neg hdone] at h
          cases h

end Confirming

end NilStore.Chain
