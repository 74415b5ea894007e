import NilStore.Chain.Run
import NilStore.Lib.SharedLedger

/-!
# `NilStore.Proofs.SessionLedger`: confirming, submitting and cancelling as ledger entries

What the messages of a session are for, without the order in which the handlers check and write:
each one moves its own session on and posts entries to the accounts that all sessions share, the
deals with their escrows, the heat, the failure counters, the number of evidence records and the
balances. `sessionMachine` is this machine, and `sessionMachine_commutative` says that the order of
the messages of a block does not matter to it. A settlement of this machine is always paid;
`NilStore.Proofs.SessionOrder` says when the handlers do as it does.
-/

set_option autoImplicit false

namespace NilStore.Chain

open NilStore.Lib

variable {β : Type}

/-! ### The messages -/

/-- A message about an open session. -/
inductive SessionMsg where
  | confirm (msg : MsgConfirmRetrievalSession)
  | submit (msg : MsgSubmitRetrievalSessionProof)
  | cancel (msg : MsgCancelRetrievalSession)

/-- The message of the chain. -/
def SessionMsg.toMsg : SessionMsg → Msg
  | .confirm msg => .confirmRetrievalSession msg
  | .submit msg => .submitRetrievalSessionProof msg
  | .cancel msg => .cancelRetrievalSession msg

/-- The session the message is about. -/
def SessionMsg.sessionId : SessionMsg → Bytes
  | .confirm msg => msg.sessionId
  | .submit msg => msg.sessionId
  | .cancel msg => msg.sessionId

/-- Whether the message cancels its session. -/
def SessionMsg.isCancel : SessionMsg → Bool
  | .cancel _ => true
  | _ => false

/-! ### The shared accounts -/

/-- What sessions share. -/
structure Accounts where
  deals : KVStore Nat Deal
  heat : KVStore Nat DealHeatState
  failures : KVStore (Nat ×ₗ Str) UInt64
  evidence : Nat
  balance : Bytes → Str → Int

/-- What a message posts. -/
inductive AccountEntry where
  /-- A settlement: the module burns a part of the fee and pays the rest. -/
  | payout (payee : Option Bytes) (burn cut : Int)
  | served (dealId : Nat) (bytes : UInt64)
  | refund (dealId : Nat) (fee : Int)
  /-- Evidence against a provider. -/
  | nonResponse (dealId : Nat) (provider : Str)

/-- `incrementHeat` on one counter. -/
def heatAfter (ctx : Ctx) (bytesServed : UInt64) (failed : Bool) (state : Option DealHeatState) :
    Option DealHeatState :=
  let state := state.getD ⟨0, 0, 0, 0⟩
  some
    { bytesServedTotal := state.bytesServedTotal + bytesServed
      failedChallengesTotal := state.failedChallengesTotal + (if failed then 1 else 0)
      lastUpdateHeight := ctx.blockHeight
      successfulRetrievalsTotal := state.successfulRetrievalsTotal + (if failed then 0 else 1) }

/-- An amount comes into the escrow of a deal. -/
def Deal.refunded (fee : Int) (deal : Deal) : Deal :=
  { deal with escrowBalance := deal.escrowBalance + fee }

/-- The balances after a payout. -/
def paidOut (moduleAddr : Bytes) (payee : Option Bytes) (burn cut : Int)
    (balance : Bytes → Str → Int) (a : Bytes) (d : Str) : Int :=
  balance a d - debit moduleAddr (bondCoin burn) a d - debit moduleAddr (bondCoin cut) a d +
    (payee.map fun addr => debit addr (bondCoin cut) a d).getD 0

/-- The accounts after an entry. -/
def Accounts.post (moduleAddr : Bytes) (ctx : Ctx) (accounts : Accounts) : AccountEntry → Accounts
  | .payout payee burn cut =>
      { accounts with balance := paidOut moduleAddr payee burn cut accounts.balance }
  | .served dealId bytes =>
      { accounts with heat := accounts.heat.modify dealId (heatAfter ctx bytes false) }
  | .refund dealId fee =>
      { accounts with deals := accounts.deals.modify dealId (Option.map (Deal.refunded fee)) }
  | .nonResponse dealId provider =>
      { accounts with
        heat := accounts.heat.modify dealId (heatAfter ctx 0 true)
        failures := accounts.failures.modify (join dealId provider)
          fun count => some (count.getD 0 + 1)
        evidence := accounts.evidence + 1 }

/-- Two counts into the heat of a deal commute. -/
theorem heatAfter_comm (ctx : Ctx) (b b' : UInt64) (f f' : Bool) (o : Option DealHeatState) :
    heatAfter ctx b f (heatAfter ctx b' f' o) = heatAfter ctx b' f' (heatAfter ctx b f o) := by
  simp only [heatAfter, Option.getD_some, Option.some.injEq, DealHeatState.mk.injEq]
  refine ⟨?_, ?_, trivial, ?_⟩
  · rw [UInt64.add_assoc, UInt64.add_comm b', ← UInt64.add_assoc]
  · rw [UInt64.add_assoc, UInt64.add_comm (if f' then 1 else 0), ← UInt64.add_assoc]
  · rw [UInt64.add_assoc, UInt64.add_comm (if f' then 0 else 1), ← UInt64.add_assoc]

/-- Two refunds to a deal commute. -/
theorem refunded_comm (fee fee' : Int) (o : Option Deal) :
    (o.map (Deal.refunded fee')).map (Deal.refunded fee) =
      (o.map (Deal.refunded fee)).map (Deal.refunded fee') := by
  cases o with
  | none => rfl
  | some deal =>
      show some _ = some _
      rw [Deal.refunded, Deal.refunded, Deal.refunded, Deal.refunded]
      congr 2
      show deal.escrowBalance + fee' + fee = deal.escrowBalance + fee + fee'
      omega

/-- Two payouts of the module commute. -/
theorem paidOut_comm (moduleAddr : Bytes) (payee payee' : Option Bytes) (burn cut burn' cut' : Int)
    (balance : Bytes → Str → Int) :
    paidOut moduleAddr payee burn cut (paidOut moduleAddr payee' burn' cut' balance) =
      paidOut moduleAddr payee' burn' cut' (paidOut moduleAddr payee burn cut balance) := by
  funext a d
  simp only [paidOut]
  omega

/-- Entries commute. Each kind of entry changes one account, and two entries of one kind add to
it. -/
theorem Accounts.post_comm (moduleAddr : Bytes) (ctx : Ctx) (accounts : Accounts)
    (e e' : AccountEntry) :
    (accounts.post moduleAddr ctx e).post moduleAddr ctx e' =
      (accounts.post moduleAddr ctx e').post moduleAddr ctx e := by
  -- heat is changed by bytes and by failures, and both add
  have hheat := fun (k k' : Nat) b b' f f' => accounts.heat.modify_comm k k'
    (f := heatAfter ctx b f) (g := heatAfter ctx b' f') (heatAfter_comm ctx b b' f f')
  -- only entries on the same account need an argument
  cases e with
  | payout payee burn cut =>
      cases e' with
      | payout payee' burn' cut' =>
          simp only [Accounts.post]
          rw [paidOut_comm]
      | served dealId bytes => rfl
      | refund dealId fee => rfl
      | nonResponse dealId provider => rfl
  | served dealId bytes =>
      cases e' with
      | payout payee' burn' cut' => rfl
      | served dealId' bytes' =>
          simp only [Accounts.post]
          rw [hheat]
      | refund dealId fee => rfl
      | nonResponse dealId' provider =>
          simp only [Accounts.post]
          rw [hheat]
  | refund dealId fee =>
      cases e' with
      | payout payee' burn' cut' => rfl
      | served dealId' bytes' => rfl
      | refund dealId' fee' =>
          simp only [Accounts.post]
          rw [accounts.deals.modify_comm dealId dealId' (refunded_comm fee fee')]
      | nonResponse dealId' provider => rfl
  | nonResponse dealId provider =>
      cases e' with
      | payout payee' burn' cut' => rfl
      | served dealId' bytes' =>
          simp only [Accounts.post]
          rw [hheat]
      | refund dealId fee => rfl
      | nonResponse dealId' provider' =>
          simp only [Accounts.post]
          rw [hheat, accounts.failures.modify_comm _ _ (fun _ => rfl)]

/-! ### What a message does to its session -/

/-- The entries of a settlement. -/
def settlement (env : Env β) (params : Params) (session : RetrievalSession) : List AccountEntry :=
  if 0 < session.lockedFee then
    [.payout (env.codec.accAddressFromBech32 session.provider) (settleBurn params session.lockedFee)
      (session.lockedFee - settleBurn params session.lockedFee)]
  else []

/-- A party moves a session on; the second of the two parties completes it. -/
def advance (env : Env β) (ctx : Ctx) (params : Params)
    (next : RetrievalSessionStatus → RetrievalSessionStatus) (session : RetrievalSession) :
    RetrievalSession × List AccountEntry :=
  if session.status = .completed then (session, [])
  else if next session.status = .completed then
    ({ session with
        status := .completed
        updatedHeight := ctx.blockHeight
        lockedFee := if 0 < session.lockedFee then 0 else session.lockedFee },
      settlement env params session ++ [.served session.dealId.toNat session.totalBytes])
  else ({ session with status := next session.status, updatedHeight := ctx.blockHeight }, [])

/-- The entries of a cancellation. -/
def cancellation (session : RetrievalSession) : List AccountEntry :=
  (if session.status = .open then [.nonResponse session.dealId.toNat session.provider] else []) ++
    if 0 < session.lockedFee then [.refund session.dealId.toNat session.lockedFee] else []

/-- The owner gets the fee of a session back; its deal has to be there. -/
def withdrawFee (ctx : Ctx) (deals : KVStore Nat Deal) (session : RetrievalSession) :
    RetrievalSession × List AccountEntry :=
  if session.status = .completed ∨ session.status = .canceled ∨
      0 < session.lockedFee ∧ deals.get session.dealId.toNat = none then (session, [])
  else (canceledSession ctx session, cancellation session)

namespace SessionMsg

/-- The message comes from the right party, at the right time, and with the right proofs. -/
def Authorized (env : Env β) (ctx : Ctx) (deals : KVStore Nat Deal) (session : RetrievalSession) :
    SessionMsg → Prop
  | .confirm msg => msg.sessionId.length = 32 ∧ msg.creator = session.owner ∧
      isSessionExpired ctx session = false
  | .submit msg => msg.sessionId.length = 32 ∧ msg.proofs ≠ [] ∧ msg.creator = session.provider ∧
      isSessionExpired ctx session = false ∧ checkSubmission env session msg.proofs deals = .ok ()
  | .cancel msg => msg.sessionId.length = 32 ∧ msg.creator = session.owner ∧
      isSessionExpired ctx session = true

instance (env : Env β) (ctx : Ctx) (deals : KVStore Nat Deal) (session : RetrievalSession)
    (m : SessionMsg) : Decidable (m.Authorized env ctx deals session) :=
  match m with
  | .confirm msg => inferInstanceAs (Decidable (msg.sessionId.length = 32 ∧ _))
  | .submit msg => inferInstanceAs (Decidable (msg.sessionId.length = 32 ∧ _))
  | .cancel msg => inferInstanceAs (Decidable (msg.sessionId.length = 32 ∧ _))

/-- What a message does when it is authorized. -/
def move (env : Env β) (ctx : Ctx) (params : Params) (deals : KVStore Nat Deal)
    (session : RetrievalSession) : SessionMsg → RetrievalSession × List AccountEntry
  | .confirm _ => advance env ctx params confirmStatus session
  | .submit _ => advance env ctx params submitStatus session
  | .cancel _ => withdrawFee ctx deals session

/-- What a message does to its session, and what it posts to the accounts. -/
def act (env : Env β) (ctx : Ctx) (params : Params) (m : SessionMsg) (accounts : Accounts)
    (session : RetrievalSession) : RetrievalSession × List AccountEntry :=
  if m.Authorized env ctx accounts.deals session then
    m.move env ctx params accounts.deals session
  else (session, [])

end SessionMsg

/-- Sessions, and the accounts that they share. -/
def sessionMachine (env : Env β) (ctx : Ctx) (params : Params) :
    LedgerMachine Bytes RetrievalSession Accounts AccountEntry SessionMsg where
  key := SessionMsg.sessionId
  post := Accounts.post env.moduleAddr ctx
  act := SessionMsg.act env ctx params

/-! ### No entry changes what a message does -/

/-- The checks of a list of proofs are those of each proof. -/
theorem checkSessionProofs_congr {env : Env β} {deal deal' : Deal} {stripe : StripeParams}
    {session session' : RetrievalSession}
    (hone : ∀ expected p, checkSessionProof env deal' stripe session' expected p =
      checkSessionProof env deal stripe session expected p)
    (expected : UInt64) (proofs : List ChainedProof) :
    checkSessionProofs env deal' stripe session' expected proofs =
      checkSessionProofs env deal stripe session expected proofs := by
  induction proofs generalizing expected with
  | nil => rfl
  | cons p rest ih => simp only [checkSessionProofs, hone, ih]

/-- The check of a proof does not look at the escrow. -/
theorem checkSessionProof_refunded (env : Env β) (deal : Deal) (stripe : StripeParams)
    (session : RetrievalSession) (fee : Int) (expected : UInt64) (p : ChainedProof) :
    checkSessionProof env (deal.refunded fee) stripe session expected p =
      checkSessionProof env deal stripe session expected p := rfl

/-- The check of a submission does not look at the escrow. -/
theorem checkSubmission_refunded (env : Env β) (session : RetrievalSession)
    (proofs : List ChainedProof) (deals : KVStore Nat Deal) (dealId : Nat) (fee : Int) :
    checkSubmission env session proofs (deals.modify dealId (Option.map (Deal.refunded fee))) =
      checkSubmission env session proofs deals := by
  simp only [checkSubmission, KVStore.get_modify]
  split
  · rename_i hid
    rw [hid]
    cases hdeal : deals.get dealId with
    | none => rfl
    | some deal =>
        have hstripe : stripeParamsForDeal (deal.refunded fee) = stripeParamsForDeal deal := rfl
        have hproofs := fun stripe => checkSessionProofs_congr
          (checkSessionProof_refunded env deal stripe session fee)
        simp only [Option.map_some, orFail, bind, Except.bind, hstripe, hproofs]
        rfl
  · rfl

/-- An entry leaves everything of a deal but its escrow. -/
theorem Accounts.post_deals (moduleAddr : Bytes) (ctx : Ctx) (accounts : Accounts)
    (e : AccountEntry) :
    (accounts.post moduleAddr ctx e).deals = accounts.deals ∨
      ∃ dealId fee, (accounts.post moduleAddr ctx e).deals =
        accounts.deals.modify dealId (Option.map (Deal.refunded fee)) := by
  cases e with
  | payout payee burn cut => exact Or.inl rfl
  | served dealId bytes => exact Or.inl rfl
  | refund dealId fee => exact Or.inr ⟨dealId, fee, rfl⟩
  | nonResponse dealId provider => exact Or.inl rfl

/-- The fee withdrawn does not depend on the escrow. -/
theorem withdrawFee_refunded (ctx : Ctx) (deals : KVStore Nat Deal) (session : RetrievalSession)
    (dealId : Nat) (fee : Int) :
    withdrawFee ctx (deals.modify dealId (Option.map (Deal.refunded fee))) session =
      withdrawFee ctx deals session := by
  have hnone : (deals.modify dealId (Option.map (Deal.refunded fee))).get session.dealId.toNat =
      none ↔ deals.get session.dealId.toNat = none := by
    rw [KVStore.get_modify]
    split
    · rename_i hid
      rw [hid, Option.map_eq_none_iff]
    · rfl
  simp only [withdrawFee, hnone]

/-- What a message does to its session does not depend on what others posted. -/
theorem SessionMsg.act_post (env : Env β) (ctx : Ctx) (params : Params) (m : SessionMsg)
    (accounts : Accounts) (e : AccountEntry) (session : RetrievalSession) :
    m.act env ctx params (accounts.post env.moduleAddr ctx e) session =
      m.act env ctx params accounts session := by
  rcases accounts.post_deals env.moduleAddr ctx e with hdeals | ⟨dealId, fee, hdeals⟩
  · rw [act, act, hdeals]
  · rw [act, act, hdeals]
    cases m with
    | confirm msg => rfl
    | submit msg =>
        refine if_congr ?_ rfl rfl
        simp only [Authorized, checkSubmission_refunded]
    | cancel msg => exact if_congr Iff.rfl (withdrawFee_refunded ..) rfl

/-! ### Two messages about one session -/

/-- The session with another status, height and fee. What a message asks of a session is in the
rest. -/
def SameTerms (session session' : RetrievalSession) : Prop :=
  session' = { session with
    status := session'.status
    updatedHeight := session'.updatedHeight
    lockedFee := session'.lockedFee }

/-- The check of a submission looks at the terms of the session only. -/
theorem checkSubmission_sameTerms {env : Env β} {session session' : RetrievalSession}
    (h : SameTerms session session') (proofs : List ChainedProof) (deals : KVStore Nat Deal) :
    checkSubmission env session' proofs deals = checkSubmission env session proofs deals := by
  rw [SameTerms] at h
  have hone : ∀ deal stripe expected p, checkSessionProof env deal stripe session' expected p =
      checkSessionProof env deal stripe session expected p := by
    intro deal stripe expected p
    rw [h]
    rfl
  have hproofs := fun deal stripe => checkSessionProofs_congr (hone deal stripe)
  simp only [checkSubmission, hproofs]
  rw [h]

/-- Who may send a message depends on the terms of the session only. -/
theorem SessionMsg.authorized_sameTerms {env : Env β} {ctx : Ctx} {deals : KVStore Nat Deal}
    {session session' : RetrievalSession} (h : SameTerms session session') (m : SessionMsg) :
    m.Authorized env ctx deals session' ↔ m.Authorized env ctx deals session := by
  have hexp : isSessionExpired ctx session' = isSessionExpired ctx session := by
    rw [SameTerms] at h
    rw [h]
    rfl
  have howner : session'.owner = session.owner := by rw [h]
  have hprovider : session'.provider = session.provider := by rw [h]
  cases m with
  | confirm msg => simp only [Authorized, hexp, howner]
  | submit msg => simp only [Authorized, hexp, hprovider, checkSubmission_sameTerms h]
  | cancel msg => simp only [Authorized, hexp, howner]

/-- Advancing a session keeps its terms. -/
theorem sameTerms_advance (env : Env β) (ctx : Ctx) (params : Params)
    (next : RetrievalSessionStatus → RetrievalSessionStatus) (session : RetrievalSession) :
    SameTerms session (advance env ctx params next session).1 := by
  rw [advance]
  split
  · rfl
  · split <;> rfl

/-- Withdrawing the fee keeps the terms. -/
theorem sameTerms_withdrawFee (ctx : Ctx) (deals : KVStore Nat Deal) (session : RetrievalSession) :
    SameTerms session (withdrawFee ctx deals session).1 := by
  rw [withdrawFee]
  split <;> rfl

/-- Every message keeps the terms of its session. -/
theorem SessionMsg.sameTerms_move (env : Env β) (ctx : Ctx) (params : Params)
    (deals : KVStore Nat Deal) (session : RetrievalSession) (m : SessionMsg) :
    SameTerms session (m.move env ctx params deals session).1 := by
  cases m with
  | confirm msg => exact sameTerms_advance ..
  | submit msg => exact sameTerms_advance ..
  | cancel msg => exact sameTerms_withdrawFee ..

/-- The owner and the provider complete a session together, whoever comes first. -/
theorem advance_comm (env : Env β) (ctx : Ctx) (params : Params) (session : RetrievalSession) :
    (advance env ctx params submitStatus (advance env ctx params confirmStatus session).1).1 =
        (advance env ctx params confirmStatus (advance env ctx params submitStatus session).1).1 ∧
      (advance env ctx params confirmStatus session).2 ++
          (advance env ctx params submitStatus (advance env ctx params confirmStatus session).1).2 =
        (advance env ctx params submitStatus session).2 ++
          (advance env ctx params confirmStatus
            (advance env ctx params submitStatus session).1).2 := by
  cases hstatus : session.status <;>
    simp [advance, settlement, confirmStatus, submitStatus, hstatus]

/-- A cancellation asks for an expired session, the other messages for one that is not. -/
theorem SessionMsg.Authorized.expiry {env : Env β} {ctx : Ctx} {deals : KVStore Nat Deal}
    {session : RetrievalSession} {m : SessionMsg} (h : m.Authorized env ctx deals session) :
    isSessionExpired ctx session = m.isCancel := by
  cases m with
  | confirm msg => exact h.2.2
  | submit msg => exact h.2.2.2.1
  | cancel msg => exact h.2.2

/-- Two authorized messages about one session. A confirmation and a submission meet before the
expiry and a cancellation after it, so a cancellation meets no other kind. -/
theorem SessionMsg.move_comm {env : Env β} {ctx : Ctx} (params : Params) {deals : KVStore Nat Deal}
    {session : RetrievalSession} {m m' : SessionMsg} (hm : m.Authorized env ctx deals session)
    (hm' : m'.Authorized env ctx deals session) :
    (m'.move env ctx params deals (m.move env ctx params deals session).1).1 =
        (m.move env ctx params deals (m'.move env ctx params deals session).1).1 ∧
      (m.move env ctx params deals session).2 ++
          (m'.move env ctx params deals (m.move env ctx params deals session).1).2 =
        (m'.move env ctx params deals session).2 ++
          (m.move env ctx params deals (m'.move env ctx params deals session).1).2 := by
  -- both are on the same side of the expiry
  have hkind : m.isCancel = m'.isCancel := hm.expiry.symm.trans hm'.expiry
  cases m with
  | confirm msg =>
      cases m' with
      | confirm msg' => exact ⟨rfl, rfl⟩
      | submit msg' => exact advance_comm env ctx params session
      | cancel msg' => cases hkind
  | submit msg =>
      cases m' with
      | confirm msg' =>
          obtain ⟨hcell, hposts⟩ := advance_comm env ctx params session
          exact ⟨hcell.symm, hposts.symm⟩
      | submit msg' => exact ⟨rfl, rfl⟩
      | cancel msg' => cases hkind
  | cancel msg =>
      cases m' with
      | confirm msg' => cases hkind
      | submit msg' => cases hkind
      | cancel msg' => exact ⟨rfl, rfl⟩

/-- Two messages about one session commute: the same session, and the same postings up to their
order. What a message needs does not change with the others, so it acts in both orders or in
none. -/
theorem SessionMsg.act_comm (env : Env β) (ctx : Ctx) (params : Params) (m m' : SessionMsg)
    (accounts : Accounts) (session : RetrievalSession) :
    (m'.act env ctx params accounts (m.act env ctx params accounts session).1).1 =
        (m.act env ctx params accounts (m'.act env ctx params accounts session).1).1 ∧
      (m.act env ctx params accounts session).2 ++
          (m'.act env ctx params accounts (m.act env ctx params accounts session).1).2 =
        (m'.act env ctx params accounts session).2 ++
          (m.act env ctx params accounts (m'.act env ctx params accounts session).1).2 := by
  -- a message does not change what the other one needs
  have hsame : ∀ m₀ m₁ : SessionMsg,
      m₀.Authorized env ctx accounts.deals (m₁.move env ctx params accounts.deals session).1 ↔
        m₀.Authorized env ctx accounts.deals session := fun m₀ m₁ =>
    m₀.authorized_sameTerms (m₁.sameTerms_move env ctx params accounts.deals session)
  by_cases hm : m.Authorized env ctx accounts.deals session
  · by_cases hm' : m'.Authorized env ctx accounts.deals session
    · have hafter := (hsame m m').mpr hm
      have hafter' := (hsame m' m).mpr hm'
      simp only [act, if_pos hm, if_pos hm', if_pos hafter, if_pos hafter']
      exact move_comm params hm hm'
    · have hafter' := mt (hsame m' m).mp hm'
      simp only [act, if_pos hm, if_neg hm', if_neg hafter', List.nil_append, List.append_nil,
        and_self]
  · by_cases hm' : m'.Authorized env ctx accounts.deals session
    · have hafter := mt (hsame m m').mp hm
      simp only [act, if_neg hm, if_pos hm', if_neg hafter, List.nil_append, List.append_nil,
        and_self]
    · simp only [act, if_neg hm, if_neg hm', and_self]

/-- The order of the messages does not matter to the machine. -/
theorem sessionMachine_commutative (env : Env β) (ctx : Ctx) (params : Params) :
    (sessionMachine env ctx params).Commutative where
  post_comm := Accounts.post_comm env.moduleAddr ctx
  act_post := SessionMsg.act_post env ctx params
  act_comm := by
    intro m m' accounts session hkey
    obtain ⟨hcell, hposts⟩ := m.act_comm env ctx params m' accounts session
    exact ⟨hcell, List.Perm.of_eq hposts⟩

end NilStore.Chain
