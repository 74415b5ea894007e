import NilStore.Chain.Genesis
import NilStore.Chain.Ledger
import NilStore.Proofs.Fees
import NilStore.Proofs.Frames

/-!
# `NilStore.Proofs.GenesisExport`: what a restart of the chain keeps

The genesis state has the params only, so a restart keeps the other collections exactly when they
are empty. They are empty as long as no provider has registered: a deal needs a provider, and what
else the claim names needs a deal. `run_started` is that invariant of whole runs.

`restart_keeps_iff` says when a restart keeps the module.
-/

set_option autoImplicit false

namespace NilStore.Chain

open NilStore.Lib

variable {β : Type}

/-- The stores of balances, nonces and sessions are as before. -/
structure Preserved (s s' : KeeperState β) : Prop where
  deals : s'.deals = s.deals
  providers : s'.providers = s.providers
  providerRewards : s'.providerRewards = s.providerRewards
  dealProviderStatus : s'.dealProviderStatus = s.dealProviderStatus
  receiptNonces : s'.receiptNoncesByDealFile = s.receiptNoncesByDealFile
  evmNonces : s'.evmNonces = s.evmNonces
  sessions : s'.retrievalSessions = s.retrievalSessions

/-! ### Without a deal -/

/-- No deal was created, and nothing was stored that needs a deal. -/
structure Untouched (s : KeeperState β) : Prop where
  deals : s.deals = .empty
  providerRewards : s.providerRewards = .empty
  dealProviderStatus : s.dealProviderStatus = .empty
  receiptNonces : s.receiptNoncesByDealFile = .empty
  evmNonces : s.evmNonces = .empty
  sessions : s.retrievalSessions = .empty

section Untouched

variable {env : Env β} {ctx : Ctx} {s s' : KeeperState β}

/-- An untouched state has no deal. -/
theorem Untouched.no_deal (h : Untouched s) {d : Nat} {deal : Deal} :
    s.deals.get d ≠ some deal := by
  rw [h.deals, KVStore.get_empty]
  exact Option.some_ne_none deal |>.symm

/-- An untouched state has no session. -/
theorem Untouched.no_session (h : Untouched s) {id : Bytes} {session : RetrievalSession} :
    s.retrievalSessions.get id ≠ some session := by
  rw [h.sessions, KVStore.get_empty]
  exact Option.some_ne_none session |>.symm

/-- A state in which the same stores are as before. -/
theorem Untouched.of_eq (h : Untouched s) (hdeals : s'.deals = s.deals)
    (hrewards : s'.providerRewards = s.providerRewards)
    (hstatus : s'.dealProviderStatus = s.dealProviderStatus)
    (hreceipts : s'.receiptNoncesByDealFile = s.receiptNoncesByDealFile)
    (hevm : s'.evmNonces = s.evmNonces) (hsessions : s'.retrievalSessions = s.retrievalSessions) :
    Untouched s' :=
  ⟨hdeals.trans h.deals, hrewards.trans h.providerRewards, hstatus.trans h.dealProviderStatus,
    hreceipts.trans h.receiptNonces, hevm.trans h.evmNonces, hsessions.trans h.sessions⟩

/-- A message that succeeds and leaves no deal. It is one of two that need none; every other one
reads a deal or makes one. -/
theorem handle_untouched {msg : Msg} {u : Unit} (hs : Untouched s)
    (h : (handle env ctx msg).exec s = (.ok u, s')) (hdeals : s'.deals = .empty) :
      Untouched s' := by
  -- a deal is never stored by such a message
  have hnone : ∀ d deal, s'.deals ≠ s.deals.set d deal := by
    intro d deal hset
    rw [hdeals] at hset
    have hget := KVStore.get_set_self s.deals d deal
    rw [← hset, KVStore.get_empty] at hget
    cases hget
  -- one case for each message
  cases msg with
  | updateParams msg =>
      obtain ⟨-, -, rfl⟩ := updateParams_ok h
      exact hs.of_eq rfl rfl rfl rfl rfl rfl
  | registerProvider msg =>
      obtain ⟨addr, endpoints, -, rfl⟩ := registerProvider_ok h
      exact hs.of_eq rfl rfl rfl rfl rfl rfl
  | createDeal msg =>
      obtain ⟨r, h⟩ := discard_ok.mp h
      obtain ⟨payer, deal, -, -, hcreated, -⟩ := createDeal_ok h
      exact absurd hcreated.deals (hnone _ _)
  | updateDealContent msg =>
      obtain ⟨payer, deal, root, -, hcontent, -⟩ := updateDealContent_ok h
      exact absurd hcontent.get hs.no_deal
  | createDealFromEvm msg =>
      obtain ⟨r, h⟩ := discard_ok.mp h
      obtain ⟨intent, evmAddr, deal, -, -, -, hcreated, -, -⟩ := createDealFromEvm_ok h
      exact absurd hcreated.deals (hnone _ _)
  | updateDealContentFromEvm msg =>
      obtain ⟨intent, evmAddr, deal, root, -, -, -, hcontent, -⟩ := updateDealContentFromEvm_ok h
      exact absurd hcontent.get hs.no_deal
  | openRetrievalSession msg =>
      obtain ⟨id, h⟩ := discard_ok.mp h
      obtain ⟨plan, hopened⟩ := openRetrievalSession_ok h
      exact absurd (checkOpen_ok hopened.plan_eq).1 hs.no_deal
  | confirmRetrievalSession msg =>
      obtain ⟨session, hget, -⟩ := confirmRetrievalSession_ok h
      exact absurd hget hs.no_session
  | cancelRetrievalSession msg =>
      obtain ⟨session, hget, -⟩ := cancelRetrievalSession_ok h
      exact absurd hget hs.no_session
  | submitRetrievalSessionProof msg =>
      obtain ⟨session, hget, -⟩ := submitRetrievalSessionProof_ok h
      exact absurd hget hs.no_session
  | proveLiveness msg =>
      obtain ⟨r, h⟩ := discard_ok.mp h
      obtain ⟨deal, stripe, hget, -⟩ := proveLiveness_ok h
      exact absurd hget hs.no_deal
  | signalSaturation msg =>
      obtain ⟨r, h⟩ := discard_ok.mp h
      obtain ⟨deal, hget, -⟩ := signalSaturation_ok h
      exact absurd hget hs.no_deal
  | startSlotRepair msg =>
      obtain ⟨deal, slot, pending, hget, -⟩ := startSlotRepair_ok h
      exact absurd hget hs.no_deal
  | completeSlotRepair msg =>
      obtain ⟨deal, slot, hpending, -⟩ := completeSlotRepair_ok h
      exact absurd hpending.get hs.no_deal
  | addCredit msg =>
      obtain ⟨r, h⟩ := discard_ok.mp h
      obtain ⟨payer, deal, amount, b, -, hget, -⟩ := addCredit_ok h
      exact absurd hget hs.no_deal
  | withdrawRewards msg =>
      obtain ⟨r, h⟩ := discard_ok.mp h
      obtain ⟨addr, b₁, b₂, -, hget, -⟩ := withdrawRewards_ok h
      rw [hs.providerRewards, KVStore.get_empty] at hget
      cases hget

/-- Nothing happens in a state without deals and sessions. -/
def InertWithout (s s' : KeeperState β) : Prop := Untouched s → s' = s

/-- Without deals the precompile's calls change nothing. -/
theorem InertWithout.serves : Precompile.ServesCalls env ctx (InertWithout (β := β)) where
  refl _ _ := rfl
  trans a b c hab hbc ha := by
    have hb := hab ha
    rw [hbc (hb ▸ ha), hb]
  opens msg s hs := by
    show ((openRetrievalSession env ctx msg).exec s).2 = s
    rw [openRetrievalSession, Tx.exec_bind, Tx.exec_reads]
    cases hcheck : checkOpen env.codec msg s.deals with
    | ok plan => exact absurd (checkOpen_ok hcheck).1 hs.no_deal
    | error e => rfl
  confirms msg s hs := by
    show ((confirmRetrievalSession env ctx msg).exec s).2 = s
    rw [confirmRetrievalSession, Tx.exec_bind, Tx.exec_reads]
    cases hcheck : partySession msg.sessionId (·.owner) msg.creator
      "only session owner may confirm completion" s.retrievalSessions with
    | ok session => exact absurd (partySession_ok hcheck).1 hs.no_session
    | error e => rfl

/-- A call that leaves no deal. -/
theorem call_untouched {input : Precompile.Input} {res : Except Fault Precompile.Output}
    (hs : Untouched s) (h : (Precompile.run env ctx input).exec s = (res, s'))
    (hdeals : s'.deals = .empty) : Untouched s' := by
  rcases Precompile.run_cases h with ⟨-, -, rfl⟩ | ⟨-, call, -, hserve⟩
  · exact hs
  · by_cases hsessions : call.servesSessions
    · rw [Precompile.serve_within InertWithout.serves hserve hsessions hs]
      exact hs
    by_cases hdeal : call.servesDeals
    · have hframe := Precompile.serve_deals_frame hserve hdeal
      rw [hframe]
      exact ⟨hdeals, hs.providerRewards, hs.dealProviderStatus, hs.receiptNonces, hs.evmNonces,
        hs.sessions⟩
    rcases Precompile.serve_other hserve hsessions hdeal with hheat | ⟨d, deal, amount, p, hget, -⟩
    · rw [HeatOnly] at hheat
      rw [hheat]
      exact hs.of_eq rfl rfl rfl rfl rfl rfl
    · exact absurd hget hs.no_deal

/-- An event that leaves no deal leaves the stores empty. -/
theorem apply_untouched {e : Event} (hs : Untouched s) (hdeals : (apply env s e).deals = .empty) :
    Untouched (apply env s e) := by
  cases e with
  | deliver ctx msg =>
      rcases deliver_cases env ctx msg s with heq | hok
      · rw [heq]
        exact hs
      · exact handle_untouched hs hok hdeals
  | endBlock ctx =>
      have hwalk : (checkMissedProofs env ctx s).1 = s := by
        rw [checkMissedProofs, hs.deals]
        rfl
      rw [apply, hwalk]
      exact hs
  | call ctx input =>
      cases h : (Precompile.run env ctx input).exec s with
      | mk res s' =>
          rw [apply, h] at hdeals ⊢
          exact call_untouched hs h hdeals

end Untouched

/-! ### Whole runs -/

/-- Without a provider there is no deal, and without a deal nothing else. -/
structure Started (env : Env β) (s : KeeperState β) : Prop where
  wellFormed : WellFormed env s
  deals : s.providers = .empty → s.deals = .empty
  untouched : s.deals = .empty → Untouched s

/-- The step lemma: an event keeps the state started. Without providers there are no deals, and
without deals nothing else was ever written. -/
theorem apply_started {env : Env β} {s : KeeperState β} (hs : Started env s) (e : Event) :
    Started env (apply env s e) := by
  have hmoved := apply_moved hs.wellFormed e
  -- Deals and providers are never dropped.
  have hdeals : (apply env s e).deals = .empty → s.deals = .empty := by
    intro hempty
    apply KVStore.ext_get
    intro d
    rw [KVStore.get_empty]
    cases hget : s.deals.get d with
    | none => rfl
    | some deal =>
        obtain ⟨deal', hget', -⟩ := hmoved.deals.kept hget
        rw [hempty, KVStore.get_empty] at hget'
        cases hget'
  have hproviders : (apply env s e).providers = .empty → s.providers = .empty := by
    intro hempty
    apply KVStore.ext_get
    intro k
    rw [KVStore.get_empty]
    cases hget : s.providers.get k with
    | none => rfl
    | some p =>
        have hregistered : (apply env s e).registered k := by
          refine hmoved.providers.kept ?_
          rw [KeeperState.registered, hget]
          rfl
        rw [KeeperState.registered, hempty, KVStore.get_empty] at hregistered
        cases hregistered
  refine ⟨apply_wellFormed hs.wellFormed e, ?_, ?_⟩
  -- a new deal has been assigned to providers, so there are some
  · intro hempty
    have hbefore := hs.deals (hproviders hempty)
    apply KVStore.ext_get
    intro d
    rw [KVStore.get_empty]
    cases hget : (apply env s e).deals.get d with
    | none => rfl
    | some deal =>
        have hnone : s.deals.get d = none := by rw [hbefore, KVStore.get_empty]
        obtain ⟨-, -, -, hnew⟩ := hmoved.deals.created hnone hget
        obtain ⟨owner, spend, duration, raw, hint, stripe, -, -, hassign, -⟩ := hnew
        rw [hproviders hempty] at hassign
        cases hassign
  · intro hempty
    exact apply_untouched (hs.untouched (hdeals hempty)) hempty

/-- Every run from a genesis is started, in each of its states. -/
theorem run_started (env : Env β) (params : Params) (b : β) (es : List Event) :
    Started env (run (apply env) (genesis params b) es) :=
  run_invariant (fun _ => True) (Started env)
    ⟨genesis_wellFormed env params b, fun _ => rfl, fun _ => ⟨rfl, rfl, rfl, rfl, rfl, rfl⟩⟩
    (fun _ e hs _ => apply_started hs e) fun _ _ => trivial

/-- The params are as before. -/
def ParamsKept (s s' : KeeperState β) : Prop := s'.params = s.params

/-- The session messages keep the parameters. -/
theorem ParamsKept.serves : ServesSessions (ParamsKept (β := β)) where
  refl _ := rfl
  trans _ _ _ hab hbc := hbc.trans hab
  bank _ _ := rfl
  escrow _ _ _ _ _ := rfl
  sessions _ _ _ _ _ := rfl
  heat _ _ := rfl

/-- A call keeps the params. -/
theorem call_params {env : Env β} {ctx : Ctx} {s s' : KeeperState β} {input : Precompile.Input}
    {res : Except Fault Precompile.Output}
    (h : (Precompile.run env ctx input).exec s = (res, s')) : s'.params = s.params := by
  rcases Precompile.run_cases h with ⟨-, -, rfl⟩ | ⟨-, call, -, hserve⟩
  · rfl
  · by_cases hsessions : call.servesSessions
    · exact Precompile.serve_within (.of_serves ParamsKept.serves) hserve hsessions
    by_cases hdeal : call.servesDeals
    · rw [Precompile.serve_deals_frame hserve hdeal]
    rcases Precompile.serve_other hserve hsessions hdeal
      with hheat | ⟨d, deal, amount, p, -, hframe⟩
    · rw [HeatOnly] at hheat
      rw [hheat]
    · rw [hframe]

/-- The params are set in every reachable state. -/
theorem run_params_isSome (env : Env β) (params : Params) (b : β) (es : List Event) :
    ∃ params', (run (apply env) (genesis params b) es).params = some params' := by
  refine run_invariant (fun _ => True) (fun s : KeeperState β => ∃ params', s.params = some params')
    ⟨params, rfl⟩ (fun s e hs _ => ?_) fun _ _ => trivial
  obtain ⟨params', hparams⟩ := hs
  cases e with
  | deliver ctx msg =>
      rcases deliver_cases env ctx msg s with heq | hok
      · exact ⟨params', by rw [heq, hparams]⟩
      · rcases handle_params hok with heq | ⟨params'', heq, -⟩
        · exact ⟨params', by rw [heq, hparams]⟩
        · exact ⟨params'', heq⟩
  | endBlock ctx =>
    exact ⟨params', by rw [apply, (checkMissedProofs_spec env ctx s).frame, hparams]⟩
  | call ctx input =>
      cases h : (Precompile.run env ctx input).exec s with
      | mk res s' => exact ⟨params', by rw [apply, h, call_params h, hparams]⟩

/-- A restart of the chain succeeds in every reachable state. It keeps deals, providers, rewards,
proof statuses, nonces and sessions exactly when no provider has registered yet. -/
theorem restart_keeps_iff (env : Env β) (params : Params) (b : β) (es : List Event) :
    let s := run (apply env) (genesis params b) es
    ∃ s', restart s = .ok s' ∧ (Preserved s s' ↔ s.providers = .empty) := by
  intro s
  obtain ⟨params', hparams⟩ := run_params_isSome env params b es
  have hstarted : Started env s := run_started env params b es
  refine ⟨_, restart_eq hparams, ?_⟩
  constructor
  · intro hkept
    exact hkept.providers.symm
  · intro hempty
    have huntouched := hstarted.untouched (hstarted.deals hempty)
    exact ⟨huntouched.deals.symm, hempty.symm, huntouched.providerRewards.symm,
      huntouched.dealProviderStatus.symm, huntouched.receiptNonces.symm, huntouched.evmNonces.symm,
      huntouched.sessions.symm⟩

/-- On the small chain, after one provider has registered and a deal was created, a restart drops
the deal and its escrow. -/
theorem restart_drops_deal :
    let s := run (apply (sampleEnv openKeccak [])) (genesis defaultParams sampleBank) openRun
    ∃ s', restart s = .ok s' ∧ (s.deals.get 0).isSome = true ∧ s'.deals.get 0 = none ∧
      ¬Preserved s s' := by
  intro s
  have hparams : s.params = some defaultParams := by decide +kernel
  refine ⟨_, restart_eq hparams, by decide +kernel, rfl, ?_⟩
  intro hkept
  have hprovider : (s.providers.get providerText).isSome = true := by decide +kernel
  rw [← hkept.providers] at hprovider
  cases hprovider

end NilStore.Chain
