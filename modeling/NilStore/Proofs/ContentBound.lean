import NilStore.Proofs.OpeningFailures
import NilStore.Proofs.PlanCoverage

/-!
# `NilStore.Proofs.ContentBound`: sessions beyond the content of a deal

`OpenRetrievalSession` compares the blobs of a request with the MDUs of the deal, unless the deal
has none. No message counts them: a deal starts with zero MDUs, and the owner's commits leave the
count alone (`run_totalMdus`). So in every run the comparison is skipped. A request that can be
opened for one MDU can be opened for every other one, at the same price, as long as the sum of its
blobs does not overflow (`opening_unbounded`).
-/

set_option autoImplicit false

namespace NilStore.Chain

open NilStore.Lib

variable {β : Type}

/-! ### The count of MDUs -/

/-- No stored deal has MDUs. -/
theorem run_totalMdus (env : Env β) (params : Params) (b : β) (es : List Event)
    {d : Nat} {deal : Deal}
    (hget : (run (apply env) (genesis params b) es).deals.get d = some deal) :
    deal.totalMdus = 0 ∧ deal.witnessMdus = 0 := by
  refine run_deals env params b (fun _ _ => True)
    (fun _ _ deal => deal.totalMdus = 0 ∧ deal.witnessMdus = 0) ?_ ?_ (fun _ _ _ _ =>
      trivial) d deal hget
  · intro past e d deal _ _ hnew
    obtain ⟨owner, spend, duration, raw, hint, stripe, -, -, -, -, hshape⟩ := hnew
    rw [hshape]
    exact ⟨rfl, rfl⟩
  · intro past e d deal deal' _ _ hstep ih
    cases hstep with
    | escrow amount => exact ih
    | content size deposit hroot => exact ih
    | saturated he hget hadmitted hassign => exact ih
    | repairStarted hmode hslot hpending => exact ih
    | repaired he hpending => exact ih

/-! ### The same request for another MDU -/

/-- The request, with its blobs in another MDU. -/
def MsgOpenRetrievalSession.inMdu (msg : MsgOpenRetrievalSession) (mduIndex : UInt64) :
    MsgOpenRetrievalSession :=
  { msg with startMduIndex := mduIndex }

/-- The end of the blobs of a request is a `uint64`. The product that the start is computed with may
wrap around. -/
def BlobsFit (stripe : StripeParams) (msg : MsgOpenRetrievalSession) : Prop :=
  (msg.startMduIndex * stripe.leafCount + msg.startBlobIndex.toUInt64).toNat + msg.blobCount.toNat <
    2 ^ 64

section Opening

variable {env : Env β} {ctx : Ctx} {msg : MsgOpenRetrievalSession} {s s' : KeeperState β}

/-- A request that passes the checks passes them in another MDU, if its blobs end there, and what
the checks find out is the same. The number of MDUs of the deal is 0, so the index is not compared
with it. -/
theorem checkOpen_inMdu {codec : AddressCodec} {deals : KVStore Nat Deal} {plan : OpenPlan}
    (hplan : checkOpen codec msg deals = .ok plan) (hempty : plan.deal.totalMdus = 0)
    (mduIndex : UInt64) (plan' : OpenPlan) :
    checkOpen codec (msg.inMdu mduIndex) deals = .ok plan' ↔
      plan' = plan ∧
        ∀ stripe, stripeParamsForDeal plan.deal = .ok stripe →
          BlobsFit stripe (msg.inMdu mduIndex) := by
  -- every check of the request, one after the other
  simp only [checkOpen, except_bind_ok, rejectIf_eq_ok, orFail_eq_ok, mapError_eq_ok] at hplan ⊢
  obtain ⟨_, hroot, _, hcount, deal, hget, _, howner, _, hcurrent, _, hassigned, stripe,
    hstripe, _, hrange,
    _, hbytes, ownerAddr, hownerAddr, providerAddr, hproviderAddr, hresult⟩ := hplan
  cases hresult
  rw [Gateway.checkBlobRange_iff] at hrange
  constructor
  · -- The check of the range is the only one that reads the MDU.
    rintro ⟨_, -, _, -, deal', hget', _, -, _, -, _, -, stripe', hstripe', _, hrange', _,
      -, ownerAddr', hownerAddr', providerAddr', hproviderAddr', hresult'⟩
    cases hget.symm.trans hget'
    cases hstripe.symm.trans hstripe'
    cases hownerAddr.symm.trans hownerAddr'
    cases hproviderAddr.symm.trans hproviderAddr'
    cases hresult'
    refine ⟨rfl, fun stripe₁ hstripe₁ => ?_⟩
    cases hstripe.symm.trans hstripe₁
    exact (Gateway.checkBlobRange_iff.mp hrange').2.1
  -- the other checks do not read the MDU, so they pass as before
  · rintro ⟨rfl, hfit⟩
    refine ⟨(), hroot, (), hcount, deal, hget, (), howner, (), hcurrent, (), hassigned,
      stripe, hstripe, (), ?_, (), hbytes, ownerAddr, hownerAddr, providerAddr, hproviderAddr, rfl⟩
    rw [Gateway.checkBlobRange_iff]
    exact ⟨hrange.1, hfit stripe hstripe, hrange.2.2.1, fun hne => absurd hempty hne⟩

/-- What an opening did, for the same request in another MDU: the deals and the bank are those of
the other opening, and the sessions differ in the MDU and the id. -/
structure SameOpening (mduIndex : UInt64) (s' s'' : KeeperState β) (sessionId sessionId' : Bytes) :
    Prop where
  deals : s''.deals = s'.deals
  bank : s''.bank = s'.bank
  session : ∃ session, s'.retrievalSessions.get sessionId = some session ∧
    s''.retrievalSessions.get sessionId' =
      some { session with sessionId := sessionId', startMduIndex := mduIndex }

/-- The id of a session is computed for every MDU or for none. -/
theorem sessionIdOf_inMdu {plan : OpenPlan} {sessionId : Bytes}
    (h : sessionIdOf env msg plan = .ok sessionId)
    (mduIndex : UInt64) :
      ∃ sessionId', sessionIdOf env (msg.inMdu mduIndex) plan = .ok sessionId' := by
  simp only [sessionIdOf, hashRetrievalSessionID] at h ⊢
  by_cases howner : plan.ownerAddr.length ≠ 20
  · rw [if_pos howner] at h
    cases h
  by_cases hprovider : plan.providerAddr.length ≠ 20
  · rw [if_neg howner, if_pos hprovider] at h
    cases h
  by_cases hroot : msg.manifestRoot.length ≠ 48
  · rw [if_neg howner, if_neg hprovider, if_pos hroot] at h
    cases h
  have hroot' : ¬(msg.inMdu mduIndex).manifestRoot.length ≠ 48 := hroot
  rw [if_neg howner, if_neg hprovider, if_neg hroot']
  exact ⟨_, rfl⟩

/-- A successful opening also succeeds in another MDU exactly if its blobs end there. The fees are
the same, and the states after the two openings differ only in the session. -/
theorem openRetrievalSession_inMdu {sessionId : Bytes}
    (hopen : (openRetrievalSession env ctx msg).exec s = (.ok sessionId, s'))
    (hempty : ∀ {deal}, s.deals.get msg.dealId.toNat = some deal → deal.totalMdus = 0)
    (mduIndex : UInt64) :
    (∃ sessionId' s'', (openRetrievalSession env ctx (msg.inMdu mduIndex)).exec s =
        (.ok sessionId', s'') ∧
        SameOpening mduIndex s' s'' sessionId sessionId') ↔
      ∀ deal stripe, s.deals.get msg.dealId.toNat = some deal →
        stripeParamsForDeal deal = .ok stripe →
        BlobsFit stripe (msg.inMdu mduIndex) := by
  simp only [openRetrievalSession, Tx.exec_reads_bind_ok, Tx.exec_gets_bind] at hopen
  obtain ⟨plan, hplan, hopen⟩ := hopen
  rw [Tx.exec_bind_ok] at hopen
  obtain ⟨_, s₁, hfees, hopen⟩ := hopen
  have hget := (checkOpen_ok hplan).1
  have hchecks := checkOpen_inMdu hplan (hempty hget) mduIndex
  constructor
  · rintro ⟨sessionId', s'', hopen', -⟩ deal stripe hget' hstripe
    obtain ⟨plan', hopened⟩ := openRetrievalSession_ok hopen'
    cases hget.symm.trans hget'
    exact ((hchecks plan').mp hopened.plan_eq).2 stripe hstripe
  · intro hfit
    have hplan' := (hchecks plan).mpr ⟨rfl, fun stripe => hfit plan.deal stripe hget⟩
    simp only [Tx.exec_gets_bind, Tx.exec_failIf_bind_ok, Tx.exec_ofExcept_bind_ok,
      Tx.exec_update_bind,
      -- the rest of the first opening, for its identity
      Tx.exec_pure, mapError_eq_ok, Prod.mk.injEq, Except.ok.injEq] at hopen
    obtain ⟨hnonce, sessionId', hid, rfl, rfl⟩ := hopen
    obtain ⟨otherId, hotherId⟩ := sessionIdOf_inMdu hid mduIndex
    -- The fees are charged as before, for neither their sum nor the deal depends on the MDU.
    have hfees' : (chargeFees env ctx s.getParams (msg.inMdu mduIndex) plan.deal).exec s =
        (.ok (), s₁) :=
      hfees
    refine ⟨otherId,
      storeSession ctx (msg.inMdu mduIndex) (newSession ctx (msg.inMdu mduIndex) otherId
      plan.totalBytes (variableFee s.getParams msg.blobCount)) s₁, ?_, rfl, rfl, _,
      KVStore.get_set_self _ _ _,
      KVStore.get_set_self _ _ _⟩
    simp only [openRetrievalSession, Tx.exec_reads_bind_ok, Tx.exec_gets_bind]
    refine ⟨plan, hplan', ?_⟩
    rw [Tx.exec_bind_ok]
    refine ⟨(), s₁, hfees', ?_⟩
    simp only [Tx.exec_gets_bind, Tx.exec_failIf_bind_ok, Tx.exec_ofExcept_bind_ok,
      Tx.exec_update_bind, Tx.exec_pure, mapError_eq_ok]
    exact ⟨hnonce, otherId, hotherId, rfl⟩

end Opening

/-- In every state that the chain reaches, a request that can be opened can be opened for every
other MDU in which its blobs end, however few MDUs the content has, and for no other one. The deals
and the bank are left as by the first opening. -/
theorem opening_unbounded (env : Env β) (params : Params) (b : β) (es : List Event) (ctx : Ctx)
    (msg : MsgOpenRetrievalSession) {sessionId : Bytes} {s' : KeeperState β}
    (hopen : (openRetrievalSession env ctx msg).exec (run (apply env) (genesis params b) es) =
      (.ok sessionId, s')) (mduIndex : UInt64) :
    let s := run (apply env) (genesis params b) es
    (∃ sessionId' s'', (openRetrievalSession env ctx (msg.inMdu mduIndex)).exec s =
        (.ok sessionId', s'') ∧
        SameOpening mduIndex s' s'' sessionId sessionId') ↔
      ∀ deal stripe, s.deals.get msg.dealId.toNat = some deal →
        stripeParamsForDeal deal = .ok stripe →
        BlobsFit stripe (msg.inMdu mduIndex) :=
  openRetrievalSession_inMdu hopen (fun hget => (run_totalMdus env params b es hget).1) mduIndex

/-- The content of the deal fits into one MDU. A session over its millionth one costs the same, and
is opened. -/
theorem opening_unbounded_openRun :
    let env := sampleEnv openKeccak []
    let s := run (apply env) (genesis defaultParams sampleBank) (openRun.take 4)
    ∃ sessionId' s'', (openRetrievalSession env (ctxAt 2) (openMsg.inMdu 1000000)).exec s =
        (.ok sessionId', s'') ∧
      SameOpening 1000000
        ((openRetrievalSession env (ctxAt 2) openMsg).exec s).2 s'' openId sessionId' := by
  have hpair {α γ : Type} (x : α × γ) (a : α) (h : x.1 = a) : x = (a, x.2) := by rw [← h]
  have hopen := hpair ((openRetrievalSession (sampleEnv openKeccak []) (ctxAt 2) openMsg).exec
    (run (apply (sampleEnv openKeccak [])) (genesis defaultParams sampleBank) (openRun.take 4)))
      (.ok openId)
    (by decide +kernel)
  refine (opening_unbounded (sampleEnv openKeccak []) defaultParams sampleBank (openRun.take 4)
    (ctxAt 2) openMsg
    hopen 1000000).mpr ?_
  -- every deal of the run is in Mode 1, where a blob fits into any MDU
  have hstripes : ∀ e ∈ (run (apply (sampleEnv openKeccak [])) (genesis defaultParams sampleBank)
      (openRun.take 4)).deals.entries, stripeParamsForDeal e.2 =
        .ok mode1StripeParams := by decide +kernel
  intro deal stripe hget hstripe
  have hmode := hstripes _ (KVStore.mem_entries.mpr hget)
  cases hstripe.symm.trans hmode
  unfold BlobsFit
  decide

end NilStore.Chain
