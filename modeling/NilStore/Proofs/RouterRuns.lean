import NilStore.Gateway.RouterProxy
import NilStore.Lib.Tokens

/-!
# `NilStore.Proofs.RouterRuns`: where the router sends a request

`RequestStep` says once how a step of the router may change a request. From it come the two results
about runs, in which requests are served side by side and the LCD and the providers answer when they
will. `fetch_failover` is about the requests that fall back on the next provider: the providers that
they try are those of the deal in an answer of the LCD that is not older than the cache allows, with
the preferred one in front; each provider before the one that answers has failed; and the client
gets an error only after all have. `upload_route` says where an upload, or the question how far it
has got, goes: to the provider that was preferred last, for as long as that is remembered, and to
the first one of the deal otherwise.
-/

set_option autoImplicit false

namespace NilStore.Gateway

open NilStore.Lib

/-! ### What a step does to a request -/

/-- The event is an answer that the request waits for. -/
def Concerns (e : RouterEvent) (id : Nat) (req : Request) : Prop :=
  (∃ answer, e = .dealAnswered id answer ∧ req.stage = .dealProviders) ∨
    (∃ answer, e = .endpointsAnswered id answer ∧ req.stage = .endpoints) ∨
      ∃ reply, e = .replied id reply ∧ Router.Stage.isProxy req.stage

/-- The event makes the first candidate of the request fail, with this error: the LCD has no HTTP
address for it, or it has not answered. -/
def CandidateFails (e : RouterEvent) (id : Nat) (req : Request) (err : JsonError) : Prop :=
  (∃ answer text, e = .endpointsAnswered id answer ∧ req.stage = .endpoints ∧
      baseURLOf (req.candidates.headD []) answer = .error text ∧
      err = ⟨502, "failed to resolve provider endpoint", text⟩) ∨
    ∃ reply, e = .replied id reply ∧ Router.Stage.isProxy req.stage ∧
      relayedReply req.route reply = .error err

/-- How a step changes the request with the number. An answer that the request waits for never
leaves it as it was. Each constructor names the event, the stage it was waited for in, and what
becomes of the request. -/
inductive RequestStep (r : Router) (e : RouterEvent) (id : Nat) :
    Option Request → Request → Prop where
  | kept (req : Request) (hother : ¬Concerns e id req) : RequestStep r e id (some req) req
  | arrived {route : Route} {rawDealID : Str} (he : e = .arrive route rawDealID)
      (hid : id = r.requests.length) :
      RequestStep r e id none (r.accept route rawDealID)
  | refused {req : Request} {answer : Except LcdError LcdDeal} {err : LcdError}
      (he : e = .dealAnswered id answer) (hstage : req.stage = .dealProviders)
      (herr : dealProvidersOf req.dealID answer = .error err) :
      RequestStep r e id (some req) (req.answer (.jsonError (dealLookupFailed req.route err)))
  | listed {req : Request} {answer : Except LcdError LcdDeal} {providers : List Str}
      (he : e = .dealAnswered id answer) (hstage : req.stage = .dealProviders)
      (hok : dealProvidersOf req.dealID answer = .ok providers) (hroute : req.route = .fetch) :
      RequestStep r e id (some req)
        (r.withProviders req (preferFirst (r.preferred req.dealID) providers))
  | assigned {req : Request} {answer : Except LcdError LcdDeal} {providers : List Str}
      (he : e = .dealAnswered id answer) (hstage : req.stage = .dealProviders)
      (hok : dealProvidersOf req.dealID answer = .ok providers) (hroute : req.route ≠ .fetch) :
      RequestStep r e id (some req) (r.withProviders req [providers.headD []])
  | found {req : Request} {answer : Except String (List Str)} {baseURL : Str}
      (he : e = .endpointsAnswered id answer) (hstage : req.stage = .endpoints)
      (hok : baseURLOf (req.candidates.headD []) answer = .ok baseURL) :
      RequestStep r e id (some req) { req with stage := .proxy baseURL }
  | failed {req : Request} {err : JsonError} (hfails : CandidateFails e id req err) :
      RequestStep r e id (some req) (r.candidateFailed req err)
  | relayed {req : Request} {reply : ProviderReply} {status : Nat} {body : Bytes}
      (he : e = .replied id reply)
      (hstage : Router.Stage.isProxy req.stage) (hok : relayedReply req.route reply =
        .ok (status, body)) :
      RequestStep r e id (some req) (req.answer (.relayed (req.candidates.headD []) status body))

section Step

variable {r : Router} {e : RouterEvent} {id : Nat} {req req' : Request}

/-- A request waits at a stage when it is there and its stage is one of those asked for. -/
theorem waiting_eq_some {p : Stage → Bool} :
    r.waiting id p = some req ↔ r.requests[id]? = some req ∧ p req.stage := by
  rw [Router.waiting, Option.filter_eq_some_iff]

/-- An answer that nobody waits for concerns no request. -/
theorem not_concerns_of_waiting {j : Nat}
    (hdeal : ∀ answer, e = .dealAnswered j answer → r.waiting j (· = .dealProviders) = none)
    (hends : ∀ answer, e = .endpointsAnswered j answer → r.waiting j (· = .endpoints) = none)
    (hreply : ∀ reply, e = .replied j reply → r.waiting j Router.Stage.isProxy = none)
    (hj : r.requests[j]? = some req) : ¬Concerns e j req := by
  rintro (⟨answer, he, hstage⟩ | ⟨answer, he, hstage⟩ | ⟨reply, he, hstage⟩)
  · have hwait := hdeal answer he
    rw [waiting_eq_some.mpr ⟨hj, decide_eq_true hstage⟩] at hwait
    cases hwait
  · have hwait := hends answer he
    rw [waiting_eq_some.mpr ⟨hj, decide_eq_true hstage⟩] at hwait
    cases hwait
  · have hwait := hreply reply he
    rw [waiting_eq_some.mpr ⟨hj, hstage⟩] at hwait
    cases hwait

/-- The request that an answer is for. -/
def RouterEvent.target : RouterEvent → Option Nat
  | .dealAnswered j _ => some j
  | .endpointsAnswered j _ => some j
  | .replied j _ => some j
  | _ => none

/-- An answer concerns the request that it is for. -/
theorem Concerns.target_eq (h : Concerns e id req) : e.target = some id := by
  rcases h with ⟨answer, rfl, -⟩ | ⟨answer, rfl, -⟩ | ⟨reply, rfl, -⟩ <;> rfl

/-- A request that is put in place of another one. -/
theorem requestStep_set {j : Nat} {new old : Request} (htarget : e.target = some j)
    (hold : r.requests[j]? = some old) (hstep : RequestStep r e j (some old) new)
    (h : (r.requests.set j new)[id]? = some req') : RequestStep r e id r.requests[id]? req' := by
  by_cases hid : j = id
  · subst hid
    have hlt := (List.getElem?_eq_some_iff.mp hold).1
    rw [List.getElem?_set_self hlt] at h
    cases h
    rw [hold]
    exact hstep
  · rw [List.getElem?_set_ne hid] at h
    rw [h]
    refine .kept req' fun hconcerns => hid ?_
    exact Option.some.inj (htarget.symm.trans hconcerns.target_eq)

/-- A request that an answer finds not waiting for it stays as it is. -/
theorem requestStep_dropped {j : Nat} (htarget : e.target = some j)
    (hdeal : ∀ answer, e = .dealAnswered j answer → r.waiting j (· = .dealProviders) = none)
    (hends : ∀ answer, e = .endpointsAnswered j answer → r.waiting j (· = .endpoints) = none)
    (hreply : ∀ reply, e = .replied j reply → r.waiting j Router.Stage.isProxy = none)
    (h : r.requests[id]? = some req') : RequestStep r e id r.requests[id]? req' := by
  rw [h]
  refine .kept req' fun hconcerns => ?_
  have hid : j = id := Option.some.inj (htarget.symm.trans hconcerns.target_eq)
  subst hid
  exact not_concerns_of_waiting hdeal hends hreply h hconcerns

/-- Every request after a step comes from a step of the request, or has just come. The later results
use the cases of `RequestStep` and do not unfold the router. -/
theorem step_request (h : (r.step e).requests[id]? = some req') :
    RequestStep r e id r.requests[id]? req' := by
  cases e with
  | elapse ns =>
      have h : r.requests[id]? = some req' := h
      rw [h]
      exact .kept req' fun hconcerns => by cases hconcerns.target_eq
  | arrive route rawDealID =>
      have h : (r.requests ++ [r.accept route rawDealID])[id]? = some req' := h
      -- the number is an old one, the new one, or none
      rcases lt_trichotomy id r.requests.length with hlt | rfl | hgt
      · rw [List.getElem?_append_left hlt] at h
        rw [h]
        exact .kept req' fun hconcerns => by cases hconcerns.target_eq
      · rw [List.getElem?_concat_length] at h
        cases h
        rw [List.getElem?_eq_none (le_refl _)]
        exact .arrived rfl rfl
      · rw [List.getElem?_eq_none (by simp; omega)] at h
        cases h
  | dealAnswered j answer =>
      rw [Router.step] at h
      split at h
      -- somebody waits for the answer
      · rename_i old hwait
        obtain ⟨hold, hstage⟩ := waiting_eq_some.mp hwait
        have hstage : old.stage = .dealProviders := of_decide_eq_true hstage
        rw [Router.dealAnswered] at h
        split at h
        · rename_i err herr
          exact requestStep_set rfl hold (.refused rfl hstage herr) h
        · rename_i providers hok
          split at h
          · rename_i hroute
            exact requestStep_set rfl hold (.listed rfl hstage hok hroute) h
          · rename_i hroute
            exact requestStep_set rfl hold (.assigned rfl hstage hok fun heq => hroute heq) h
      -- nobody waits, and the answer is dropped
      · rename_i hwait
        exact requestStep_dropped rfl (fun _ _ => hwait) (fun _ he => by cases he)
          (fun _ he => by cases he) h
  | endpointsAnswered j answer =>
      rw [Router.step] at h
      split at h
      · rename_i old hwait
        obtain ⟨hold, hstage⟩ := waiting_eq_some.mp hwait
        have hstage : old.stage = .endpoints := of_decide_eq_true hstage
        rw [Router.endpointsAnswered] at h
        split at h
        · rename_i err herr
          exact requestStep_set rfl hold (.failed (.inl ⟨answer, err, rfl, hstage, herr, rfl⟩)) h
        · rename_i baseURL hok
          exact requestStep_set rfl hold (.found rfl hstage hok) h
      · rename_i hwait
        exact requestStep_dropped rfl (fun _ he => by cases he) (fun _ _ => hwait)
          (fun _ he => by cases he) h
  | replied j reply =>
      rw [Router.step] at h
      split at h
      -- a reply that is passed on, or the next candidate
      · rename_i old hwait
        obtain ⟨hold, hstage⟩ := waiting_eq_some.mp hwait
        rw [Router.providerReplied] at h
        split at h
        · rename_i err herr
          exact requestStep_set rfl hold (.failed (.inr ⟨reply, rfl, hstage, herr⟩)) h
        · rename_i status body hok
          have h : (r.requests.set j
              (old.answer (.relayed (old.candidates.headD []) status body)))[id]? =
              some req' := by
            split at h <;> exact h
          exact requestStep_set rfl hold (.relayed rfl hstage hok) h
      · rename_i hwait
        exact requestStep_dropped rfl (fun _ he => by cases he) (fun _ he => by cases he)
          (fun _ _ => hwait) h

end Step

/-! ### What is put into the caches -/

/-- The list of a deal's providers that the event puts into the cache. -/
def Router.lists (r : Router) : RouterEvent → Option (Nat × List Str)
  | .dealAnswered id answer =>
      (r.waiting id (· = .dealProviders)).bind fun req =>
        if req.route = .fetch then
          (dealProvidersOf req.dealID answer).toOption.map fun providers =>
            (req.dealID, preferFirst (r.preferred req.dealID) providers)
        else none
  | _ => none

/-- The provider that the event makes the preferred one of its deal: the first one, for a request
that tries no other, or the one that has answered a request. -/
def Router.prefers (r : Router) : RouterEvent → Option (Nat × Str)
  | .dealAnswered id answer =>
      (r.waiting id (· = .dealProviders)).bind fun req =>
        if req.route = .fetch then none
        else
          (dealProvidersOf req.dealID answer).toOption.map fun providers =>
            (req.dealID, providers.headD [])
  | .replied id reply =>
      (r.waiting id Router.Stage.isProxy).bind fun req =>
        if req.route = .fetch then
          (relayedReply req.route reply).toOption.map fun _ => (req.dealID, req.candidates.headD [])
        else none
  | _ => none

/-- What a step writes to the two caches of a deal: the answers it brought, with their time to live.
The list is kept when the LCD answers and the preference when a provider replies. -/
theorem step_caches (r : Router) (e : RouterEvent) :
    (r.step e).dealProvidersCache = r.dealProvidersCache.put (r.now + dealProviderTTL) (r.lists e) ∧
      (r.step e).dealProviderCache =
        r.dealProviderCache.put (r.now + dealProviderTTL) (r.prefers e) := by
  cases e with
  | elapse ns => exact ⟨rfl, rfl⟩
  | arrive route rawDealID => exact ⟨rfl, rfl⟩
  | dealAnswered id answer =>
      rw [Router.step, Router.lists, Router.prefers]
      cases hwait : r.waiting id (· = .dealProviders) with
      | none => exact ⟨rfl, rfl⟩
      | some req =>
          simp only [Option.bind_some]
          rw [Router.dealAnswered]
          -- only a list that was found is kept
          cases hlist : dealProvidersOf req.dealID answer with
          | error err => by_cases hroute : req.route = .fetch <;> simp [hroute] <;> exact ⟨rfl, rfl⟩
          | ok providers => cases hroute : req.route <;> exact ⟨rfl, rfl⟩
  | endpointsAnswered id answer =>
      rw [Router.step]
      cases hwait : r.waiting id (· = .endpoints) with
      | none => exact ⟨rfl, rfl⟩
      | some req =>
          simp only
          rw [Router.endpointsAnswered]
          cases baseURLOf (req.candidates.headD []) answer <;> exact ⟨rfl, rfl⟩
  | replied id reply =>
      rw [Router.step, Router.prefers]
      cases hwait : r.waiting id Router.Stage.isProxy with
      | none => exact ⟨rfl, rfl⟩
      | some req =>
          simp only [Option.bind_some]
          rw [Router.providerReplied]
          -- the provider of a reply is preferred from now on
          cases hreply : relayedReply req.route reply with
          | error err => by_cases hroute : req.route = .fetch <;> simp [hroute] <;> exact ⟨rfl, rfl⟩
          | ok found =>
              obtain ⟨status, body⟩ := found
              cases hroute : req.route <;> exact ⟨rfl, rfl⟩

/-- The router after the events. -/
abbrev routerAfter (es : List RouterEvent) : Router := run Router.step .empty es

/-- Time goes on, and no request is forgotten. The numbers of the requests therefore stay valid. -/
theorem step_mono (r : Router) (e : RouterEvent) :
    r.now ≤ (r.step e).now ∧ r.requests.length ≤ (r.step e).requests.length := by
  have hset (id : Nat) (req : Request) : r.requests.length ≤ (r.requests.set id req).length :=
    List.length_set.ge
  cases e with
  | elapse ns => exact ⟨Nat.le_add_right _ _, le_refl _⟩
  | arrive route rawDealID => exact ⟨le_refl _, by simp [Router.step]⟩
  | dealAnswered id answer =>
      rw [Router.step]
      split
      · rw [Router.dealAnswered]
        split
        · exact ⟨le_refl _, hset _ _⟩
        · split <;> exact ⟨le_refl _, hset _ _⟩
      · exact ⟨le_refl _, le_refl _⟩
  | endpointsAnswered id answer =>
      rw [Router.step]
      split
      · rw [Router.endpointsAnswered]
        split <;> exact ⟨le_refl _, hset _ _⟩
      · exact ⟨le_refl _, le_refl _⟩
  | replied id reply =>
      rw [Router.step]
      split
      · rw [Router.providerReplied]
        split
        · exact ⟨le_refl _, hset _ _⟩
        · split <;> exact ⟨le_refl _, hset _ _⟩
      · exact ⟨le_refl _, le_refl _⟩

/-- An option filtered for nonempty lists. -/
theorem option_filter_ne_nil {α : Type} [DecidableEq α] {x : Option (List α)} {l : List α} :
    x.filter (· ≠ []) = some l ↔ x = some l ∧ l ≠ [] := by
  rw [Option.filter_eq_some_iff, decide_eq_true_iff]

/-- The provider was made the preferred one of the deal last, and not too long ago. -/
def Preferred (es : List RouterEvent) (dealID : Nat) (p : Str) : Prop :=
  (∃ past, LastPut Router.step .empty Router.prefers es past dealID p ∧
    (routerAfter es).now < (routerAfter past).now + dealProviderTTL) ∧ p ≠ []

/-- The preferred provider of a deal is the one remembered last, as long as its time lasts. -/
theorem preferred_iff {es : List RouterEvent} {dealID : Nat} {p : Str} :
    (routerAfter es).preferred dealID = some p ↔ Preferred es dealID p := by
  rw [Router.preferred, option_filter_ne_nil,
    run_load Router.now Router.dealProviderCache rfl fun r e => (step_caches r e).2, Preferred]

/-- The cached providers of a deal are the ones that were put in last. -/
theorem cachedProviders_some {es : List RouterEvent} {dealID : Nat} {providers : List Str}
    (h : (routerAfter es).cachedProviders dealID = some providers) :
    ∃ past, LastPut Router.step .empty Router.lists es past dealID providers ∧
      (routerAfter es).now < (routerAfter past).now + dealProviderTTL := by
  rw [Router.cachedProviders, option_filter_ne_nil] at h
  exact (run_load Router.now Router.dealProvidersCache rfl (fun r e => (step_caches r e).1)
    es _ dealID providers).mp h.1

/-! ### The providers that a request tries -/

/-- At this time the LCD has answered a request for the providers of the deal, when `preferred` was
the preferred one. -/
def Answered (es : List RouterEvent) (t dealID : Nat) (deal : LcdDeal) (preferred : Option Str) :
    Prop :=
  Occurs (fun past e => ∃ id req, e = .dealAnswered id (.ok deal) ∧
    (routerAfter past).requests[id]? = some req ∧ req.stage = .dealProviders ∧ req.dealID = dealID ∧
    (routerAfter past).now = t ∧ (routerAfter past).preferred dealID = preferred) es

/-- A deal that was answered stays answered in the past. -/
theorem Answered.append {es : List RouterEvent} {t dealID : Nat} {deal : LcdDeal}
    {preferred : Option Str} (h : Answered es t dealID deal preferred) (fs : List RouterEvent) :
    Answered (es ++ fs) t dealID deal preferred := Occurs.append h fs

/-- The providers that a lookup has found are those of the answer. -/
theorem dealProvidersOf_ok {dealID : Nat} {answer : Except LcdError LcdDeal} {providers : List Str}
    (h : dealProvidersOf dealID answer = .ok providers) :
    providers ≠ [] ∧ ∃ deal, answer = .ok deal ∧ fetchDealProvidersFromLCD deal = providers := by
  cases answer with
  | error err => cases h
  | ok deal =>
      simp only [dealProvidersOf, Except.bind] at h
      split at h
      · cases h
      · rename_i hne
        cases h
        exact ⟨hne, deal, rfl, rfl⟩

/-- Appending without repetition adds no empty name and nothing that was not given. -/
theorem mem_appendUnique {ordered values : List Str} {p : Str}
    (h : p ∈ appendUnique ordered values) :
    p ∈ ordered ∨ p ∈ values ∧ p ≠ [] := by
  induction values generalizing ordered with
  | nil => exact .inl h
  | cons v values ih =>
      rw [appendUnique, List.foldl_cons, ← appendUnique] at h
      split at h
      · exact (ih h).imp_right fun hmem => ⟨List.mem_cons_of_mem _ hmem.1, hmem.2⟩
      · rename_i hv
        rcases ih h with hmem | hmem
        · rcases List.mem_append.mp hmem with hold | hnew
          · exact .inl hold
          · rw [List.mem_singleton] at hnew
            subst hnew
            exact .inr ⟨List.mem_cons_self, (not_or.mp hv).1⟩
        · exact .inr ⟨List.mem_cons_of_mem _ hmem.1, hmem.2⟩

/-- The providers of a deal are trimmed, and none is empty. They come from the list of the deal or
from its slots, and each of them is filtered in the same way. -/
theorem mem_fetchDealProviders {deal : LcdDeal} {p : Str} (h : p ∈ fetchDealProvidersFromLCD deal) :
    p ≠ [] ∧ ∃ s, p = trimSpace s := by
  -- from the list of the deal, and from the slots
  have hout (hmem : p ∈ (deal.providers.map trimSpace).filter (· ≠ [])) : p ≠ [] ∧
      ∃ s, p = trimSpace s := by
    obtain ⟨hmem, hne⟩ := List.mem_filter.mp hmem
    obtain ⟨s, -, rfl⟩ := List.mem_map.mp hmem
    exact ⟨of_decide_eq_true hne, s, rfl⟩
  have hslot {q : Int → Bool} (hmem : p ∈ slotProvidersWith q deal.mode2Slots) :
      p ≠ [] ∧ ∃ s, p = trimSpace s := by
    obtain ⟨hmem, hne⟩ := List.mem_filter.mp hmem
    obtain ⟨slot, -, rfl⟩ := List.mem_map.mp hmem
    exact ⟨of_decide_eq_true hne, slot.provider, rfl⟩
  simp only [fetchDealProvidersFromLCD] at h
  split at h
  · exact hout h
  split at h
  · exact hout h
  rcases mem_appendUnique h with h | h
  · rcases mem_appendUnique h with h | h
    · rcases mem_appendUnique h with h | h
      · rcases mem_appendUnique h with h | h
        · cases h
        · exact hslot h.1
      · exact hslot h.1
    · exact hslot h.1
  · exact hout h.1

/-- Preferring one provider only changes the order. -/
theorem mem_preferFirst {preferred : Option Str} {providers : List Str} {p : Str} :
    p ∈ preferFirst preferred providers ↔ p ∈ providers := by
  unfold preferFirst
  split
  · split
    · rename_i hmem
      exact (List.perm_cons_erase hmem).mem_iff.symm
    · rfl
  · rfl

/-- Preferring one provider does not empty the list. -/
theorem preferFirst_ne_nil {providers : List Str} (h : providers ≠ []) (preferred : Option Str) :
    preferFirst preferred providers ≠ [] := by
  obtain ⟨p, hp⟩ := List.exists_mem_of_ne_nil _ h
  exact List.ne_nil_of_mem (mem_preferFirst.mpr hp)

/-- What a request is about, and does not change. -/
structure SameRequest (req req' : Request) : Prop where
  route : req'.route = req.route
  dealID : req'.dealID = req.dealID
  arrived : req'.arrived = req.arrived

/-- The loop goes on to the next provider with an address, if there is one. -/
structure Goes (req req' : Request) (rest : List Str) : Prop where
  same : SameRequest req req'
  providers : req'.providers = req.providers
  tried : req'.failures.map (·.1) ++ req'.candidates = req.failures.map (·.1) ++ rest
  skipped : ∀ f ∈ req'.failures, f ∈ req.failures ∨ trimSpace f.1 = []
  next : (req'.candidates = [] ∧ ∃ err, req'.stage = .answered (.jsonError err)) ∨
    req'.candidates ≠ [] ∧ (req'.stage = .endpoints ∨ Router.Stage.isProxy req'.stage)

/-- A provider is tried by asking for its endpoints, or at once where they are known. -/
theorem resolveStage_cases (r : Router) (p : Str) :
    r.resolveStage p = .endpoints ∨ Router.Stage.isProxy (r.resolveStage p) := by
  unfold Router.resolveStage
  split
  · exact .inr rfl
  · exact .inl rfl

/-- Trying the next provider moves the request on to it, or answers it. A blank address fails on the
spot, so the loop may skip several. -/
theorem tryNext_goes (r : Router) (req : Request) (rest : List Str) :
    Goes req (r.tryNext req rest) rest := by
  -- by the list of those that are left
  induction rest generalizing req with
  | nil =>
      exact { same := ⟨rfl, rfl, rfl⟩, providers := rfl, tried := rfl
              skipped := fun f hf => .inl hf
              next := .inl ⟨rfl, _, rfl⟩ }
  | cons p rest ih =>
      rw [Router.tryNext]
      split
      -- a blank address is noted and skipped
      · rename_i hblank
        have hgoes :=
          ih { req with failures := req.failures ++ [(p, "provider address is required")] }
        exact {
          same := ⟨hgoes.same.route, hgoes.same.dealID, hgoes.same.arrived⟩
          providers := hgoes.providers
          tried := by simpa using hgoes.tried
          skipped := by
            intro f hf
            rcases hgoes.skipped f hf with hold | hskip
            · rcases List.mem_append.mp hold with hold | hnew
              · exact .inl hold
              · rw [List.mem_singleton.mp hnew]
                exact .inr hblank
            · exact .inr hskip
          next := hgoes.next }
      · exact { same := ⟨rfl, rfl, rfl⟩, providers := rfl, tried := rfl
                skipped := fun f hf => .inl hf
                next := .inr ⟨by simp, resolveStage_cases r p⟩ }

/-- Setting out with a list of providers keeps what the request asks for. -/
theorem withProviders_same (r : Router) (req : Request) (providers : List Str) :
    SameRequest req (r.withProviders req providers) := by
  unfold Router.withProviders
  split
  · have hsame := (tryNext_goes r { req with providers := providers } providers).same
    exact ⟨hsame.route, hsame.dealID, hsame.arrived⟩
  · unfold Router.tryAssigned
    split <;> exact ⟨rfl, rfl, rfl⟩

/-- Going on after a failure keeps what the request asks for. -/
theorem candidateFailed_same (r : Router) (req : Request) (err : JsonError) :
    SameRequest req (r.candidateFailed req err) := by
  unfold Router.candidateFailed
  split
  · have hsame :=
      (tryNext_goes r { req with failures := req.failures ++ [(req.candidates.headD [], err.hint)] }
      req.candidates.tail).same
    exact ⟨hsame.route, hsame.dealID, hsame.arrived⟩
  · exact ⟨rfl, rfl, rfl⟩

/-- Accepting a request keeps its route. -/
theorem accept_route (r : Router) (route : Route) (rawDealID : Str) :
    (r.accept route rawDealID).route = route := by
  unfold Router.accept
  split
  · rfl
  · simp only
    split
    · rfl
    · split
      · exact (withProviders_same r _ _).route
      · rfl

/-- An event has made a provider fail for the request. -/
def Failed (es : List RouterEvent) (id : Nat) (p : Str) (err : JsonError) : Prop :=
  Occurs (fun past e => ∃ req, (routerAfter past).requests[id]? = some req ∧
    req.candidates.head? = some p ∧
    CandidateFails e id req err) es

/-- The request was refused before its providers were known: its deal id is no number, or the LCD
has no providers for the deal. -/
def Unresolved (es : List RouterEvent) (id : Nat) (err : JsonError) : Prop :=
  Occurs (fun past e =>
    (∃ route rawDealID, e = .arrive route rawDealID ∧ (routerAfter past).requests.length = id ∧
      requireDealIDQuery rawDealID = .error err) ∨
    ∃ req answer lookup, e = .dealAnswered id answer ∧ (routerAfter past).requests[id]? = some req ∧
      req.stage = .dealProviders ∧ dealProvidersOf req.dealID answer = .error lookup ∧
      err = dealLookupFailed req.route lookup) es

/-- What holds of a request that falls back on the next provider, after the events. -/
structure FetchOk (es : List RouterEvent) (id : Nat) (req : Request) : Prop where
  arrived : req.arrived ≤ (routerAfter es).now
  waits : req.stage = .dealProviders → req.providers = []
  resolved : req.providers ≠ [] → ∃ t deal preferred, Answered es t req.dealID deal preferred ∧
    req.providers = preferFirst preferred (fetchDealProvidersFromLCD deal) ∧
    req.arrived < t + dealProviderTTL
  tried : req.failures.map (·.1) ++ req.candidates = req.providers
  failed : ∀ f ∈ req.failures, trimSpace f.1 = [] ∨ ∃ err, Failed es id f.1 err ∧ err.hint = f.2
  unresolved : req.providers = [] → req.stage = .dealProviders ∨
    ∃ err, req.stage = .answered (.jsonError err) ∧ Unresolved es id err
  asks : req.stage = .endpoints ∨ Router.Stage.isProxy req.stage → req.candidates ≠ []
  relayed : ∀ {p status body}, req.stage = .answered (.relayed p status body) →
    req.candidates.head? = some p ∧ status < 500
  refused : ∀ {err}, req.stage = .answered (.jsonError err) → req.candidates = []

section FetchOk

variable {past : List RouterEvent} {e : RouterEvent} {id : Nat} {req : Request}

/-- A step of the router leaves the request alone. -/
theorem FetchOk.append (h : FetchOk past id req) (e : RouterEvent) :
    FetchOk (past ++ [e]) id req where
  arrived := by
    rw [routerAfter, run_snoc]
    exact le_trans h.arrived (step_mono _ e).1
  waits := h.waits
  resolved := by
    intro hne
    obtain ⟨t, deal, preferred, hanswered, hproviders, hfresh⟩ := h.resolved hne
    exact ⟨t, deal, preferred, hanswered.append [e], hproviders, hfresh⟩
  tried := h.tried
  failed := fun f hf => (h.failed f hf).imp_right fun hfailed =>
    hfailed.imp fun _ herr => ⟨herr.1.append [e], herr.2⟩
  unresolved := fun hempty => (h.unresolved hempty).imp_right fun hrefused =>
    hrefused.imp fun _ herr => ⟨herr.1, herr.2.append [e]⟩
  asks := h.asks
  relayed := h.relayed
  refused := h.refused

/-- A request that waits for its providers has tried none. -/
theorem FetchOk.nothing_tried (h : FetchOk past id req) (hstage : req.stage = .dealProviders) :
    req.failures = [] ∧ req.candidates = [] := by
  have htried := h.tried
  rw [h.waits hstage, List.append_eq_nil_iff, List.map_eq_nil_iff] at htried
  exact htried

/-- The loop goes on with the providers that are left. What was known of those tried so far stays
known. -/
theorem FetchOk.of_goes {es : List RouterEvent} {req' : Request} {rest : List Str}
    (h : Goes req req' rest) (harrived : req.arrived ≤ (routerAfter es).now)
    (hresolved : ∃ t deal preferred, Answered es t req.dealID deal preferred ∧
      req.providers = preferFirst preferred (fetchDealProvidersFromLCD deal) ∧
      req.arrived < t + dealProviderTTL)
    (htried : req.failures.map (·.1) ++ rest = req.providers) (hne : req.providers ≠ [])
    (hfailed : ∀ f ∈ req.failures, trimSpace f.1 = [] ∨ ∃ err, Failed es id f.1 err ∧
      err.hint = f.2) :
    FetchOk es id req' := by
  obtain ⟨⟨-, hdeal, hsince⟩, hproviders, htried', hskipped, hnext⟩ := h
  -- the loop ends in an answer or asks for an endpoint or a reply
  have hstages {stage : Stage} (hstage : req'.stage = stage) :
      (req'.candidates = [] ∧ ∃ err, stage = .answered (.jsonError err)) ∨
        req'.candidates ≠ [] ∧ (stage = .endpoints ∨ Router.Stage.isProxy stage) := by
    rw [hstage] at hnext
    exact hnext
  exact {
    arrived := by
      rw [hsince]
      exact harrived
    waits := by
      intro hstage
      rcases hstages hstage with ⟨-, err, hanswer⟩ | ⟨-, hask | hask⟩
      · cases hanswer
      · cases hask
      · cases hask
    resolved := by
      intro hne
      rw [hproviders, hdeal, hsince]
      exact hresolved
    tried := by rw [htried', htried, hproviders]
    failed := fun f hf => (hskipped f hf).elim (hfailed f) .inl
    unresolved := fun hempty => absurd (hproviders.symm.trans hempty) hne
    asks := by
      intro hstage hnone
      rcases hnext with ⟨-, err, hanswer⟩ | ⟨hsome, -⟩
      · rw [hanswer] at hstage
        rcases hstage with hstage | hstage <;> cases hstage
      · exact hsome hnone
    relayed := by
      intro p status body hstage
      rcases hstages hstage with ⟨-, err, hanswer⟩ | ⟨-, hask | hask⟩
      · cases hanswer
      · cases hask
      · cases hask
    refused := by
      intro err hstage
      rcases hstages hstage with ⟨hnone, -⟩ | ⟨-, hask | hask⟩
      · exact hnone
      · cases hask
      · cases hask }

/-- The loop begins with the providers of an answer that is not too old. -/
theorem FetchOk.start {es : List RouterEvent} (hroute : req.route = .fetch)
    (hempty : req.failures = [])
    (harrived : req.arrived ≤ (routerAfter es).now) {providers : List Str} (hne : providers ≠ [])
    (hresolved : ∃ t deal preferred, Answered es t req.dealID deal preferred ∧
      providers = preferFirst preferred (fetchDealProvidersFromLCD deal) ∧
        req.arrived < t + dealProviderTTL)
    (r : Router) : FetchOk es id (r.withProviders req providers) := by
  have hwith : r.withProviders req providers =
      r.tryNext { req with providers := providers } providers := by
    rw [Router.withProviders, hroute]
  rw [hwith]
  refine .of_goes
    (tryNext_goes r { req with providers := providers } providers) harrived hresolved ?_ hne ?_
  · simp [hempty]
  · intro f hf
    rw [show f ∈ req.failures ↔ f ∈ [] by rw [hempty]] at hf
    cases hf

/-- A request that is answered before its providers are known. Nothing was tried, and it is not
taken up again. -/
theorem FetchOk.refuse {es : List RouterEvent} (harrived : req.arrived ≤ (routerAfter es).now)
    (hproviders : req.providers = []) (hfailures : req.failures = [])
    (hcandidates : req.candidates = [])
    {err : JsonError} (hrefused : Unresolved es id err) :
      FetchOk es id (req.answer (.jsonError err)) where
  arrived := harrived
  waits := fun _ => hproviders
  resolved := fun hne => absurd hproviders hne
  tried := by
    show req.failures.map (·.1) ++ req.candidates = req.providers
    rw [hproviders, hfailures, hcandidates]
    rfl
  failed := by
    intro f hf
    have hf : f ∈ req.failures := hf
    rw [hfailures] at hf
    cases hf
  unresolved := fun _ => .inr ⟨err, rfl, hrefused⟩
  asks := by
    intro hstage
    rcases hstage with hstage | hstage <;> cases hstage
  relayed := by
    intro p status body hstage
    cases hstage
  refused := fun _ => hcandidates

/-- A list that is put into the cache is that of an answer. No other event puts one there. -/
theorem answered_of_lists {es : List RouterEvent} {dealID : Nat} {providers : List Str}
    (h : LastPut Router.step .empty Router.lists es past dealID providers) :
    ∃ deal preferred, Answered es (routerAfter past).now dealID deal preferred ∧
      providers = preferFirst preferred (fetchDealProvidersFromLCD deal) := by
  obtain ⟨e, rest, rfl, hput, -⟩ := h
  cases e with
  | elapse ns => cases hput
  | arrive route rawDealID => cases hput
  | endpointsAnswered j answer => cases hput
  | replied j reply => cases hput
  -- the answer was waited for by a request of the fetch route
  | dealAnswered j answer =>
      rw [Router.lists] at hput
      obtain ⟨req, hwait, hput⟩ := Option.bind_eq_some_iff.mp hput
      obtain ⟨hget, hstage⟩ := waiting_eq_some.mp hwait
      split at hput
      · rename_i hroute
        cases hlist : dealProvidersOf req.dealID answer with
        | error err =>
            rw [hlist] at hput
            cases hput
        | ok found =>
            rw [hlist] at hput
            cases hput
            obtain ⟨-, deal, rfl, rfl⟩ := dealProvidersOf_ok hlist
            exact ⟨deal, _, ⟨past, .dealAnswered j (.ok deal), rest, rfl, j, req, rfl, hget,
              of_decide_eq_true hstage, rfl, rfl, rfl⟩, rfl⟩
      · cases hput

/-- The cached list is not empty, as it is taken. -/
theorem cachedProviders_ne_nil {r : Router} {dealID : Nat} {providers : List Str}
    (h : r.cachedProviders dealID = some providers) : providers ≠ [] := by
  rw [Router.cachedProviders, option_filter_ne_nil] at h
  exact h.2

/-- A request that has just come. It is refused, waits for the LCD, or starts with the cached
list. -/
theorem FetchOk.accept (past : List RouterEvent) (rawDealID : Str) :
    FetchOk (past ++ [.arrive .fetch rawDealID]) (routerAfter past).requests.length
      ((routerAfter past).accept .fetch rawDealID) := by
  have hnow : (routerAfter (past ++ [.arrive .fetch rawDealID])).now = (routerAfter past).now := by
    rw [routerAfter, run_snoc]
    rfl
  unfold Router.accept
  split
  -- its number is not one
  · rename_i err herr
    show FetchOk _ _
      (Request.answer ⟨.fetch, 0, (routerAfter past).now, [], [], [], .dealProviders⟩
        (.jsonError err))
    refine .refuse hnow.ge rfl rfl rfl (occurs_snoc.mpr (.inr (.inl ?_)))
    exact ⟨.fetch, rawDealID, rfl, rfl, herr⟩
  · rename_i dealID hdeal
    simp only [Route.check, Router.knownProviders]
    -- the list may be known already
    cases hcached : (routerAfter past).cachedProviders dealID.toNat with
    | none =>
        exact {
          arrived := hnow.ge
          waits := fun _ => rfl
          resolved := fun hne => absurd rfl hne
          tried := rfl
          failed := fun f hf => by cases hf
          unresolved := fun _ => .inl rfl
          asks := fun hstage => by rcases hstage with hstage | hstage <;> cases hstage
          relayed := fun hstage => by cases hstage
          refused := fun hstage => by cases hstage }
    | some providers =>
        obtain ⟨before, hlast, hfresh⟩ := cachedProviders_some hcached
        obtain ⟨deal, preferred, hanswered, hproviders⟩ := answered_of_lists hlast
        exact FetchOk.start rfl rfl hnow.ge (cachedProviders_ne_nil hcached)
          ⟨_, deal, preferred, hanswered.append _, hproviders, hfresh⟩ _

/-- An error of a provider is not sent on to a client who can have the answer of another one. -/
theorem relayedReply_lt {reply : ProviderReply} {status : Nat} {body : Bytes}
    (h : relayedReply .fetch reply = .ok (status, body)) : status < 500 := by
  cases reply with
  | notMade text => cases h
  | unreachable text => cases h
  | replied status' statusText body' =>
      simp only [relayedReply, true_and] at h
      split at h
      · cases h
      · cases h
        omega

/-- Each step keeps what holds of a request that falls back. The cases are those of
`RequestStep`. -/
theorem FetchOk.step {old : Option Request} (hold : (routerAfter past).requests[id]? = old)
    (h : ∀ req, old = some req → req.route = .fetch → FetchOk past id req)
    (hstep : RequestStep (routerAfter past) e id old req) (hroute : req.route = .fetch) :
    FetchOk (past ++ [e]) id req := by
  -- by the step of the request
  cases hstep with
  | kept => exact (h req rfl hroute).append e
  | @arrived route rawDealID he hid =>
      rw [accept_route] at hroute
      subst hroute he hid
      exact FetchOk.accept past rawDealID
  | @refused req₀ answer err he hstage herr =>
      have hok := (h req₀ rfl hroute).append e
      obtain ⟨hfailures, hcandidates⟩ := hok.nothing_tried hstage
      refine .refuse hok.arrived (hok.waits hstage) hfailures hcandidates
        (occurs_snoc.mpr (.inr (.inr ?_)))
      exact ⟨req₀, answer, err, he, hold, hstage, herr, rfl⟩
  | @listed req₀ answer providers he hstage hlist hfetch =>
      have hok := (h req₀ rfl hfetch).append e
      obtain ⟨hne, deal, rfl, rfl⟩ := dealProvidersOf_ok hlist
      have hanswered : Answered (past ++ [e]) (routerAfter past).now req₀.dealID deal
          ((routerAfter past).preferred req₀.dealID) :=
        occurs_snoc.mpr (.inr ⟨id, req₀, he, hold, hstage, rfl, rfl, rfl⟩)
      have hpreferred := preferFirst_ne_nil hne ((routerAfter past).preferred req₀.dealID)
      refine .start hfetch (hok.nothing_tried hstage).1 hok.arrived hpreferred ⟨_, deal, _,
        hanswered, rfl, ?_⟩ _
      -- the answer has just come, and its time to live has begun
      have harrived := (h req₀ rfl hfetch).arrived
      have hpos : 0 < dealProviderTTL := by decide
      omega
  | @assigned req₀ answer providers he hstage hlist hother =>
      rw [(withProviders_same _ req₀ _).route] at hroute
      exact absurd hroute hother
  | @found req₀ answer baseURL he hstage hurl =>
      have hok := (h req₀ rfl hroute).append e
      exact { hok with
        waits := fun hstage' => by cases hstage'
        unresolved := fun hempty => by
          rcases hok.unresolved hempty with hstage' | ⟨err, hstage', -⟩ <;>
            rw [hstage] at hstage' <;> cases hstage'
        asks := fun _ => hok.asks (.inl hstage)
        relayed := fun hstage' => by cases hstage'
        refused := fun hstage' => by cases hstage' }
  | @failed req₀ err hfails =>
      have hasks : req₀.stage = .endpoints ∨ Router.Stage.isProxy req₀.stage := by
        rcases hfails with ⟨answer, text, -, hstage, -⟩ | ⟨reply, -, hstage, -⟩
        · exact .inl hstage
        · exact .inr hstage
      have hfetch : req₀.route = .fetch := by
        rw [← hroute, (candidateFailed_same _ req₀ err).route]
      have hok := (h req₀ rfl hfetch).append e
      -- the first candidate is the one that failed
      obtain ⟨p, rest, hcandidates⟩ := List.exists_cons_of_ne_nil (hok.asks hasks)
      have hnew : Failed (past ++ [e]) id p err :=
        occurs_snoc.mpr (.inr ⟨req₀, hold, by rw [hcandidates]; rfl, hfails⟩)
      have hnext : (routerAfter past).candidateFailed req₀ err =
          (routerAfter past).tryNext { req₀ with failures := req₀.failures ++ [(p, err.hint)] }
            rest := by
        rw [Router.candidateFailed, hfetch, hcandidates]
        rfl
      have hne : req₀.providers ≠ [] := by
        rw [← hok.tried, hcandidates]
        simp
      rw [hnext]
      refine .of_goes (tryNext_goes _ _ rest) hok.arrived (hok.resolved hne) ?_ hne ?_
      · have htried := hok.tried
        rw [hcandidates] at htried
        simpa using htried
      · intro f hf
        rcases List.mem_append.mp hf with hf | hf
        · exact hok.failed f hf
        · rw [List.mem_singleton.mp hf]
          exact .inr ⟨err, hnew, rfl⟩
  | @relayed req₀ reply status body he hstage hreply =>
      have hok := (h req₀ rfl hroute).append e
      -- the first candidate is the one that replied
      obtain ⟨p, rest, hcandidates⟩ := List.exists_cons_of_ne_nil (hok.asks (.inr hstage))
      exact { hok with
        waits := fun hstage' => by cases hstage'
        unresolved := fun hempty => by
          have hempty : req₀.providers = [] := hempty
          rw [← hok.tried, hcandidates] at hempty
          simp at hempty
        asks := fun hstage' => by rcases hstage' with hstage' | hstage' <;> cases hstage'
        relayed := by
          intro p' status' body' hstage'
          cases hstage'
          show req₀.candidates.head? = some (req₀.candidates.headD []) ∧ status < 500
          rw [hcandidates]
          refine ⟨rfl, ?_⟩
          have hfetch : req₀.route = .fetch := hroute
          exact relayedReply_lt (hfetch ▸ hreply)
        refused := fun hstage' => by cases hstage' }

end FetchOk

/-- The invariant holds of every request that falls back, after every run. -/
theorem fetchOk_run {es : List RouterEvent} {id : Nat} {req : Request}
    (hreq : (routerAfter es).requests[id]? = some req) (hroute : req.route = .fetch) :
      FetchOk es id req := by
  have hok : ∀ id req, (routerAfter es).requests[id]? = some req → req.route = .fetch →
      FetchOk es id req := by
    refine run_history (fun _ _ => True)
      (fun past (r : Router) =>
        ∀ id req, r.requests[id]? = some req → req.route = .fetch → FetchOk past id req)
      ?_ (fun past e ih _ id req hget hroute => ?_) (fun _ _ _ _ => trivial)
    · intro id req hget
      cases hget
    · exact FetchOk.step rfl (fun req₀ hget => ih id req₀ hget) (step_request hget) hroute
  exact hok id req hreq hroute

/-- The providers of a deal have an address. -/
theorem not_blank_of_mem {deal : LcdDeal} {p : Str} (h : p ∈ fetchDealProvidersFromLCD deal) :
    trimSpace p ≠ [] := by
  obtain ⟨hne, s, hs⟩ := mem_fetchDealProviders h
  have htwice : trimSpace (trimSpace s) = trimSpace s := trimBoth_trimBoth
  rw [hs, htwice, ← hs]
  exact hne

/-- So do the providers of a request that falls back. -/
theorem FetchOk.not_blank {es : List RouterEvent} {id : Nat} {req : Request} {p : Str}
    (h : FetchOk es id req) (hp : p ∈ req.providers) : trimSpace p ≠ [] := by
  obtain ⟨t, deal, preferred, -, hproviders, -⟩ := h.resolved (List.ne_nil_of_mem hp)
  rw [hproviders, mem_preferFirst] at hp
  exact not_blank_of_mem hp

/-- The first provider of a deal does not answer, and the second one does. -/
def failoverRun : List RouterEvent :=
  [.arrive .fetch "7".toList, .dealAnswered 0 (.ok ⟨["sp1".toList, "sp2".toList], []⟩),
    .endpointsAnswered 0 (.ok ["/dns4/sp1.example/tcp/80/http".toList]), .elapse (10 ^ 9),
    .replied 0 (.unreachable "timeout"),
    .endpointsAnswered 0 (.ok ["/dns4/sp2.example/tcp/80/http".toList]),
    .replied 0 (.replied 200 "200 OK".toList [1, 2, 3])]

/-- The address that the event puts into the cache for a provider. -/
def Router.locates (r : Router) : RouterEvent → Option (Str × Str)
  | .endpointsAnswered id answer =>
      (r.waiting id (· = .endpoints)).bind fun req =>
        (baseURLOf (req.candidates.headD []) answer).toOption.map fun url =>
          (trimSpace (req.candidates.headD []), url)
  | _ => none

/-- What a step writes to the cache of base URLs: the endpoints it brought, with their time to live.
An endpoint is kept before its provider has replied. -/
theorem step_providerBaseCache (r : Router) (e : RouterEvent) :
    (r.step e).providerBaseCache =
      r.providerBaseCache.put (r.now + providerCacheTTL) (r.locates e) := by
  cases e with
  | elapse ns => rfl
  | arrive route rawDealID => rfl
  | dealAnswered id answer =>
      rw [Router.step]
      cases r.waiting id (· = .dealProviders) with
      | none => rfl
      | some req =>
          simp only
          rw [Router.dealAnswered]
          cases dealProvidersOf req.dealID answer with
          | error err => rfl
          | ok providers => cases req.route <;> rfl
  | endpointsAnswered id answer =>
      rw [Router.step, Router.locates]
      cases hwait : r.waiting id (· = .endpoints) with
      | none => rfl
      | some req =>
          simp only [Option.bind_some]
          rw [Router.endpointsAnswered]
          cases hurl : baseURLOf (req.candidates.headD []) answer <;> rfl
  | replied id reply =>
      rw [Router.step]
      cases r.waiting id Router.Stage.isProxy with
      | none => rfl
      | some req =>
          simp only
          rw [Router.providerReplied]
          cases relayedReply req.route reply with
          | error err => rfl
          | ok found =>
              obtain ⟨status, body⟩ := found
              cases req.route <;> rfl

/-- The LCD has answered a request with endpoints of the provider, and this is the address in
them. -/
def Located (es : List RouterEvent) (p baseURL : Str) : Prop :=
  Occurs (fun past e => ∃ id req answer, e = .endpointsAnswered id answer ∧
    (routerAfter past).requests[id]? = some req ∧ req.stage = .endpoints ∧
    trimSpace (req.candidates.headD []) = trimSpace p ∧
    baseURLOf (req.candidates.headD []) answer = .ok baseURL) es

/-- A cached address is one that the LCD has answered. The loaded entry was put there by some event,
and only the answers of the LCD put any. -/
theorem located_of_load {es : List RouterEvent} {p baseURL : Str}
    (h : (routerAfter es).providerBaseCache.load (routerAfter es).now (trimSpace p) =
      some baseURL) :
    Located es p baseURL := by
  obtain ⟨past, ⟨e, rest, rfl, hput, -⟩, -⟩ :=
    (run_load Router.now Router.providerBaseCache rfl step_providerBaseCache es _ _ _).mp h
  -- by the event that put it there
  cases e with
  | elapse ns => cases hput
  | arrive route rawDealID => cases hput
  | dealAnswered j answer => cases hput
  | replied j reply => cases hput
  | endpointsAnswered j answer =>
      rw [Router.locates] at hput
      obtain ⟨req, hwait, hput⟩ := Option.bind_eq_some_iff.mp hput
      obtain ⟨hget, hstage⟩ := waiting_eq_some.mp hwait
      cases hurl : baseURLOf (req.candidates.headD []) answer with
      | error err =>
          rw [hurl] at hput
          cases hput
      | ok url =>
          rw [hurl] at hput
          obtain ⟨hkey, rfl⟩ := Prod.mk.inj (Option.some.inj hput)
          exact ⟨past, .endpointsAnswered j answer, rest, rfl, j, req, answer, rfl, hget,
            of_decide_eq_true hstage, hkey, hurl⟩

/-- The LCD has answered the request with the endpoints of its provider. -/
def EndpointsCame (es : List RouterEvent) (id : Nat) : Prop :=
  Occurs (fun past e => ∃ answer req, e = .endpointsAnswered id answer ∧
    (routerAfter past).requests[id]? = some req ∧ req.stage = .endpoints) es

/-- A provider to which the request was sent has come back. -/
def CameBack (es : List RouterEvent) (id : Nat) : Prop :=
  Occurs (fun past e => ∃ reply req, e = .replied id reply ∧
    (routerAfter past).requests[id]? = some req ∧ Router.Stage.isProxy req.stage) es

/-- The provider to which the request was sent has answered this. -/
def Replied (es : List RouterEvent) (id : Nat) (p : Str) (status : Nat) (body : Bytes) : Prop :=
  Occurs (fun past e =>
    ∃ req baseURL statusText, e = .replied id (.replied status statusText body) ∧
    (routerAfter past).requests[id]? = some req ∧ req.candidates = [p] ∧
      req.stage = .proxy baseURL ∧
    Located past p baseURL) es

/-- The request goes to this provider and to no other: it waits for the endpoints of the provider,
or it was sent to the provider's address and waits for the answer, or it has relayed this answer, or
that failed. -/
inductive SentTo (es : List RouterEvent) (id : Nat) (p : Str) (req : Request) : Prop where
  | asks (hcandidates : req.candidates = [p]) (hstage : req.stage = .endpoints)
      (hnone : ¬EndpointsCame es id) (hback : ¬CameBack es id)
  | sent {baseURL : Str} (hcandidates : req.candidates = [p]) (hstage : req.stage = .proxy baseURL)
      (hlocated : Located es p baseURL) (hback : ¬CameBack es id)
  | relayed {status : Nat} {body : Bytes} (hstage : req.stage = .answered (.relayed p status body))
      (hreplied : Replied es id p status body)
  | failed {err : JsonError} (hstage : req.stage = .answered (.jsonError err))
    (hfailed : Failed es id p err)

/-- What becomes of a request that tries one provider, which is known after this answer of the LCD,
or from the start. -/
inductive UploadOk (es : List RouterEvent) (id : Nat) (req : Request) :
    Option (Except LcdError Str) → Prop where
  | waits (hstage : req.stage = .dealProviders) (hproviders : req.providers = [])
      (hnone : ¬EndpointsCame es id) (hback : ¬CameBack es id) : UploadOk es id req none
  | refused {err : LcdError} (hproviders : req.providers = [])
      (hstage : req.stage = .answered (.jsonError (dealLookupFailed req.route err))) :
      UploadOk es id req (some (.error err))
  | goes {p : Str} (hproviders : req.providers = [p]) (hsent : SentTo es id p req) :
      UploadOk es id req (some (.ok p))

section Upload

variable {past : List RouterEvent} {e : RouterEvent} {id : Nat} {req req' : Request} {p : Str}

/-- An event about something else brings a request no endpoints. -/
theorem not_endpointsCame_snoc (h : ¬EndpointsCame past id)
    (hget : (routerAfter past).requests[id]? = some req)
    (hother : ¬Concerns e id req) : ¬EndpointsCame (past ++ [e]) id := by
  intro hcame
  rcases occurs_snoc.mp hcame with hold | ⟨answer, req', he, hget', hstage⟩
  · exact h hold
  · rw [hget] at hget'
    cases hget'
    exact hother (.inr (.inl ⟨answer, he, hstage⟩))

/-- An event about something else brings a request no reply. -/
theorem not_cameBack_snoc (h : ¬CameBack past id)
    (hget : (routerAfter past).requests[id]? = some req)
    (hother : ∀ reply, e = .replied id reply → ¬Router.Stage.isProxy req.stage) :
      ¬CameBack (past ++ [e]) id := by
  intro hcame
  rcases occurs_snoc.mp hcame with hold | ⟨reply, req', he, hget', hstage⟩
  · exact h hold
  · rw [hget] at hget'
    cases hget'
    exact hother reply he hstage

/-- Before a request has come, nothing has come for it. The number was not given yet in any part of
the run so far. -/
theorem nothing_came {pre : List RouterEvent} (hid : (routerAfter pre).requests.length ≤ id) :
    ¬EndpointsCame pre id ∧ ¬CameBack pre id := by
  -- the number was not given in any earlier state
  have hnone : ∀ past rest, pre = past ++ rest → (routerAfter past).requests[id]? = none := by
    rintro past rest rfl
    have hmono : (routerAfter past).requests.length ≤
        (routerAfter (past ++ rest)).requests.length := by
      induction rest using List.reverseRecOn with
      | nil => rw [List.append_nil]
      | append_singleton rest e ih =>
          have hsnoc : routerAfter (past ++ (rest ++ [e])) =
              (routerAfter (past ++ rest)).step e := by
            rw [← List.append_assoc, routerAfter, run_snoc]
          rw [hsnoc] at hid ⊢
          have hstep := (step_mono (routerAfter (past ++ rest)) e).2
          exact le_trans (ih (le_trans hstep hid)) hstep
    exact List.getElem?_eq_none (le_trans hmono hid)
  constructor
  · rintro ⟨past, e, rest, heq, answer, req, -, hget, -⟩
    rw [hnone past _ heq] at hget
    cases hget
  · rintro ⟨past, e, rest, heq, reply, req, -, hget, -⟩
    rw [hnone past _ heq] at hget
    cases hget

/-- The address of the provider is taken from the cache, or the LCD is asked for it. -/
theorem resolveStage_spec (es : List RouterEvent) (p : Str) :
    (routerAfter es).resolveStage p = .endpoints ∨
      ∃ baseURL, (routerAfter es).resolveStage p = .proxy baseURL ∧ Located es p baseURL := by
  rw [Router.resolveStage]
  split
  · rename_i baseURL hload
    exact .inr ⟨baseURL, rfl, located_of_load (option_filter_ne_nil.mp hload).1⟩
  · exact .inl rfl

/-- The provider of a request is known. -/
theorem withProviders_goes (hroute : req.route ≠ .fetch) (hblank : trimSpace p ≠ [])
    {es : List RouterEvent}
    (hlocated : ∀ baseURL, Located past p baseURL → Located es p baseURL)
    (hnone : ¬EndpointsCame es id) (hback : ¬CameBack es id) :
    UploadOk es id ((routerAfter past).withProviders req [p]) (some (.ok p)) := by
  have hwith : (routerAfter past).withProviders req [p] =
      { req with
        providers := [p], candidates := [p], stage := (routerAfter past).resolveStage p } := by
    have hassigned : (routerAfter past).withProviders req [p] =
        (routerAfter past).tryAssigned { req with providers := [p] } p := by
      unfold Router.withProviders
      split
      · rename_i hfetch
        exact absurd hfetch hroute
      · rfl
    rw [hassigned, Router.tryAssigned, if_neg hblank]
  rw [hwith]
  refine .goes rfl ?_
  rcases resolveStage_spec past p with hstage | ⟨baseURL, hstage, hurl⟩
  · exact .asks rfl hstage hnone hback
  · exact .sent rfl hstage (hlocated baseURL hurl) hback

/-- A provider that was located stays located in the past. -/
theorem Located.append {es : List RouterEvent} {baseURL : Str} (h : Located es p baseURL)
    (fs : List RouterEvent) : Located (es ++ fs) p baseURL := Occurs.append h fs

/-- The answer of the LCD for the request, if the event is one. -/
def lcdAnswerTo (id : Nat) : RouterEvent → Option (Except LcdError LcdDeal)
  | .dealAnswered j answer => if j = id then some answer else none
  | _ => none

/-- Only the event of its own answer answers a lookup. -/
theorem lcdAnswerTo_eq_some {answer : Except LcdError LcdDeal} :
    lcdAnswerTo id e = some answer ↔ e = .dealAnswered id answer := by
  cases e with
  | dealAnswered j answer' =>
      rw [lcdAnswerTo]
      by_cases hj : j = id
      · subst hj
        simp
      · simp [hj]
  | elapse ns => simp [lcdAnswerTo]
  | arrive route rawDealID => simp [lcdAnswerTo]
  | endpointsAnswered j answer' => simp [lcdAnswerTo]
  | replied j reply => simp [lcdAnswerTo]

/-- The provider in the first answer of the LCD. -/
def assigned (dealID : Nat) (answer : Except LcdError LcdDeal) : Except LcdError Str :=
  (dealProvidersOf dealID answer).map (·.headD [])

/-- A failure of the only candidate ends the request. -/
theorem candidateFailed_answer (hroute : req.route ≠ .fetch) (r : Router) (err : JsonError) :
    r.candidateFailed req err = req.answer (.jsonError err) := by
  unfold Router.candidateFailed
  split
  · rename_i hfetch
    exact absurd hfetch hroute
  · rfl

/-- A request that waits for the LCD gets its provider with the first answer. A refusal answers it
for good. -/
theorem UploadOk.step_waits (hget : (routerAfter past).requests[id]? = some req)
    (hroute : req.route ≠ .fetch)
    (hstage : req.stage = .dealProviders) (hproviders : req.providers = [])
    (hnone : ¬EndpointsCame past id)
    (hback : ¬CameBack past id) (hstep : RequestStep (routerAfter past) e id (some req) req') :
    UploadOk (past ++ [e]) id req' ((lcdAnswerTo id e).map (assigned req.dealID)) := by
  -- no reply can have come in this step, and no endpoint
  have hback' : ¬CameBack (past ++ [e]) id := not_cameBack_snoc hback hget fun reply _ hproxy => by
    rw [hstage] at hproxy
    cases hproxy
  have hnone' : ¬EndpointsCame (past ++ [e]) id := by
    intro hcame
    rcases occurs_snoc.mp hcame with hold | ⟨answer, req₀, -, hget', hstage'⟩
    · exact hnone hold
    · rw [hget] at hget'
      cases hget'
      rw [hstage] at hstage'
      cases hstage'
  -- by the step of the request
  cases hstep with
  | kept _ hother =>
      have hlcd : lcdAnswerTo id e = none := by
        cases hlcd : lcdAnswerTo id e with
        | none => rfl
        | some answer => exact absurd (.inl ⟨answer, lcdAnswerTo_eq_some.mp hlcd, hstage⟩) hother
      rw [hlcd]
      exact .waits hstage hproviders hnone' hback'
  | refused he _ herr =>
      rw [lcdAnswerTo_eq_some.mpr he, Option.map_some, assigned, herr]
      exact .refused hproviders rfl
  | listed _ _ _ hfetch => exact absurd hfetch hroute
  | assigned he _ hlist _ =>
      rw [lcdAnswerTo_eq_some.mpr he, Option.map_some, NilStore.Gateway.assigned, hlist]
      obtain ⟨hne, deal, -, rfl⟩ := dealProvidersOf_ok hlist
      have hmem : (fetchDealProvidersFromLCD deal).headD [] ∈ fetchDealProvidersFromLCD deal := by
        obtain ⟨p, rest, hp⟩ := List.exists_cons_of_ne_nil hne
        rw [hp]
        exact List.mem_cons_self
      exact withProviders_goes hroute (not_blank_of_mem hmem) (fun _ h =>
        h.append [e]) hnone' hback'
  -- it asks for no endpoint and no reply yet
  | found _ hstage' _ =>
      rw [hstage] at hstage'
      cases hstage'
  | failed hfails =>
      rcases hfails with ⟨answer, text, -, hstage', -⟩ | ⟨reply, -, hstage', -⟩
      · rw [hstage] at hstage'
        cases hstage'
      · rw [hstage] at hstage'
        cases hstage'
  | relayed _ hstage' _ =>
      rw [hstage] at hstage'
      cases hstage'

/-- A step of a request that waits for an answer of its provider, or has one. It waits for the same
provider afterwards, or that provider has answered or failed in this step. -/
theorem SentTo.step (hget : (routerAfter past).requests[id]? = some req)
    (hroute : req.route ≠ .fetch)
    (h : SentTo past id p req) (hstep : RequestStep (routerAfter past) e id (some req) req') :
    SentTo (past ++ [e]) id p req' ∧ req'.providers = req.providers := by
  have hanswered {response : Response} (hstage : req.stage = .answered response) :
      ¬Concerns e id req := by
    rintro (⟨answer, -, hstage'⟩ | ⟨answer, -, hstage'⟩ | ⟨reply, -, hstage'⟩) <;>
      rw [hstage] at hstage' <;>
      cases hstage'
  -- by the step of the request; an answered one takes no other
  cases hstep with
  | kept _ hother =>
      refine ⟨?_, rfl⟩
      have hreply : ∀ reply, e = .replied id reply → ¬Router.Stage.isProxy req.stage :=
        fun reply he hstage => hother (.inr (.inr ⟨reply, he, hstage⟩))
      -- the event is about something else, and what was known stays
      cases h with
      | asks hcandidates hstage hnone hback =>
          exact .asks hcandidates hstage (not_endpointsCame_snoc hnone hget hother)
            (not_cameBack_snoc hback hget hreply)
      | sent hcandidates hstage hlocated hback =>
          exact .sent hcandidates hstage (hlocated.append [e]) (not_cameBack_snoc hback hget hreply)
      | relayed hstage hreplied => exact .relayed hstage (Occurs.append hreplied [e])
      | failed hstage hfailed => exact .failed hstage (Occurs.append hfailed [e])
  | @refused _ answer _ he hstage _ =>
      cases h with
      | asks _ hstage' => rw [hstage] at hstage'; cases hstage'
      | sent _ hstage' => rw [hstage] at hstage'; cases hstage'
      | relayed hstage' => exact absurd (.inl ⟨answer, he, hstage⟩) (hanswered hstage')
      | failed hstage' => exact absurd (.inl ⟨answer, he, hstage⟩) (hanswered hstage')
  | listed _ _ _ hfetch => exact absurd hfetch hroute
  | @assigned _ answer _ he hstage _ _ =>
      cases h with
      | asks _ hstage' => rw [hstage] at hstage'; cases hstage'
      | sent _ hstage' => rw [hstage] at hstage'; cases hstage'
      | relayed hstage' => exact absurd (.inl ⟨answer, he, hstage⟩) (hanswered hstage')
      | failed hstage' => exact absurd (.inl ⟨answer, he, hstage⟩) (hanswered hstage')
  | @found _ answer baseURL he hstage hurl =>
      cases h with
      | asks hcandidates _ hnone hback =>
          -- the endpoint that has come is that of the provider
          have hhere : Located (past ++ [e]) p baseURL :=
            occurs_snoc.mpr
              (.inr ⟨id, req, answer, he, hget, hstage, by rw [hcandidates]; rfl, hurl⟩)
          have hback' : ¬CameBack (past ++ [e]) id :=
              not_cameBack_snoc hback hget fun reply _ hproxy => by
            rw [hstage] at hproxy
            cases hproxy
          exact ⟨.sent hcandidates rfl hhere hback', rfl⟩
      | sent _ hstage' => rw [hstage] at hstage'; cases hstage'
      | relayed hstage' => exact absurd (.inr (.inl ⟨answer, he, hstage⟩)) (hanswered hstage')
      | failed hstage' => exact absurd (.inr (.inl ⟨answer, he, hstage⟩)) (hanswered hstage')
  | @failed _ err hfails =>
      rw [candidateFailed_answer hroute]
      refine ⟨.failed rfl (occurs_snoc.mpr (.inr ⟨req, hget, ?_, hfails⟩)), rfl⟩
      -- the failure is that of the provider the request waits for
      have hconcerns : Concerns e id req := by
        rcases hfails with ⟨answer, text, he, hstage, -⟩ | ⟨reply, he, hstage, -⟩
        · exact .inr (.inl ⟨answer, he, hstage⟩)
        · exact .inr (.inr ⟨reply, he, hstage⟩)
      cases h with
      | asks hcandidates => rw [hcandidates]; rfl
      | sent hcandidates => rw [hcandidates]; rfl
      | relayed hstage' => exact absurd hconcerns (hanswered hstage')
      | failed hstage' => exact absurd hconcerns (hanswered hstage')
  | @relayed _ reply status body he hstage hreply =>
      have hconcerns : Concerns e id req := .inr (.inr ⟨reply, he, hstage⟩)
      cases h with
      | asks _ hstage' => rw [hstage'] at hstage; cases hstage
      | @sent baseURL hcandidates hstage' hlocated hback =>
          have hhead : req.candidates.headD [] = p := by
            rw [hcandidates]
            rfl
          -- a reply that was never received is not relayed
          have htext : ∃ statusText, reply = .replied status statusText body := by
            cases reply with
            | notMade text => cases hreply
            | unreachable text => cases hreply
            | replied status' statusText body' =>
                rw [relayedReply, if_neg fun hfetch => hroute hfetch.1] at hreply
                cases hreply
                exact ⟨statusText, rfl⟩
          obtain ⟨statusText, rfl⟩ := htext
          rw [hhead]
          exact ⟨.relayed rfl
            (occurs_snoc.mpr (.inr ⟨req, baseURL, statusText, he, hget, hcandidates, hstage',
            hlocated⟩)), rfl⟩
      | relayed hstage' => exact absurd hconcerns (hanswered hstage')
      | failed hstage' => exact absurd hconcerns (hanswered hstage')

/-- A step keeps the provider of a request, once it is known. Before that, the first answer of the
LCD decides. -/
theorem UploadOk.step {provider : Option (Except LcdError Str)}
    (hget : (routerAfter past).requests[id]? = some req) (hroute : req.route ≠ .fetch)
    (h : UploadOk past id req provider)
    (hstep : RequestStep (routerAfter past) e id (some req) req') :
    UploadOk (past ++ [e]) id req'
      (provider.or ((lcdAnswerTo id e).map (assigned req.dealID))) := by
  cases h with
  | waits hstage hproviders hnone hback =>
      exact step_waits hget hroute hstage hproviders hnone hback hstep
  | refused hproviders hstage =>
      -- an answered request waits for nothing
      have hother : ¬Concerns e id req := by
        rintro (⟨answer, -, hstage'⟩ | ⟨answer, -, hstage'⟩ | ⟨reply, -, hstage'⟩) <;>
          rw [hstage] at hstage' <;>
          cases hstage'
      -- so no step but the first is possible
      cases hstep with
      | kept => exact .refused hproviders hstage
      | refused he hstage' _ => exact absurd (.inl ⟨_, he, hstage'⟩) hother
      | listed he hstage' _ _ => exact absurd (.inl ⟨_, he, hstage'⟩) hother
      | assigned he hstage' _ _ => exact absurd (.inl ⟨_, he, hstage'⟩) hother
      | found he hstage' _ => exact absurd (.inr (.inl ⟨_, he, hstage'⟩)) hother
      | failed hfails =>
          rcases hfails with ⟨answer, text, he, hstage', -⟩ | ⟨reply, he, hstage', -⟩
          · exact absurd (.inr (.inl ⟨_, he, hstage'⟩)) hother
          · exact absurd (.inr (.inr ⟨_, he, hstage'⟩)) hother
      | relayed he hstage' _ => exact absurd (.inr (.inr ⟨_, he, hstage'⟩)) hother
  | goes hproviders hsent =>
      obtain ⟨hsent', hsame⟩ := hsent.step hget hroute hstep
      exact .goes (hsame.trans hproviders) hsent'

/-- A request that has come is still there after a step, with its route and its deal. -/
theorem exists_step (e : RouterEvent) (hreq : (routerAfter past).requests[id]? = some req) :
    ∃ req', (routerAfter (past ++ [e])).requests[id]? = some req' ∧
      RequestStep (routerAfter past) e id (some req) req' ∧ SameRequest req req' := by
  have hlt :=
    lt_of_lt_of_le (List.getElem?_eq_some_iff.mp hreq).1 (step_mono (routerAfter past) e).2
  have hget := List.getElem?_eq_getElem hlt
  have hstep : RequestStep (routerAfter past) e id (some req)
      ((routerAfter past).step e).requests[id] := by
    rw [← hreq]
    exact step_request hget
  rw [routerAfter, run_snoc]
  refine ⟨_, hget, hstep, ?_⟩
  generalize ((routerAfter past).step e).requests[id] = req' at hstep
  cases hstep with
  | kept => exact ⟨rfl, rfl, rfl⟩
  | refused => exact ⟨rfl, rfl, rfl⟩
  | listed => exact withProviders_same _ _ _
  | assigned => exact withProviders_same _ _ _
  | found => exact ⟨rfl, rfl, rfl⟩
  | failed => exact candidateFailed_same _ _ _
  | relayed => exact ⟨rfl, rfl, rfl⟩

end Upload

/-- A provider that is preferred has an address. It was the first of a list without blanks, or has
just replied. -/
theorem not_blank_of_preferred {es : List RouterEvent} {dealID : Nat} {p : Str}
    (h : Preferred es dealID p) :
    trimSpace p ≠ [] := by
  obtain ⟨⟨past, ⟨e, rest, -, hput, -⟩, -⟩, -⟩ := h
  -- by the event that made it the preferred one
  cases e with
  | elapse ns => cases hput
  | arrive route rawDealID => cases hput
  | endpointsAnswered j answer => cases hput
  | dealAnswered j answer =>
      rw [Router.prefers] at hput
      obtain ⟨req, hwait, hput⟩ := Option.bind_eq_some_iff.mp hput
      split at hput
      · cases hput
      · cases hlist : dealProvidersOf req.dealID answer with
        | error err =>
            rw [hlist] at hput
            cases hput
        | ok providers =>
            rw [hlist] at hput
            obtain ⟨-, rfl⟩ := Prod.mk.inj (Option.some.inj hput)
            -- the list of an answer has no blanks
            obtain ⟨hne, deal, -, rfl⟩ := dealProvidersOf_ok hlist
            obtain ⟨q, rest, hq⟩ := List.exists_cons_of_ne_nil hne
            exact not_blank_of_mem (by rw [hq]; exact List.mem_cons_self)
  | replied j reply =>
      rw [Router.prefers] at hput
      obtain ⟨req, hwait, hput⟩ := Option.bind_eq_some_iff.mp hput
      obtain ⟨hget, hstage⟩ := waiting_eq_some.mp hwait
      split at hput
      · rename_i hroute
        cases hreply : relayedReply req.route reply with
        | error err =>
            rw [hreply] at hput
            cases hput
        | ok found =>
            rw [hreply] at hput
            obtain ⟨-, rfl⟩ := Prod.mk.inj (Option.some.inj hput)
            have hok := fetchOk_run hget hroute
            obtain ⟨q, rest, hq⟩ := List.exists_cons_of_ne_nil (hok.asks (.inr hstage))
            refine hok.not_blank ?_
            rw [← hok.tried, hq]
            exact List.mem_append_right _ List.mem_cons_self
      · cases hput

/-- A request that has just come goes to the preferred provider, or has to ask the LCD. The request
is accepted, as its deal id and its number are. -/
theorem UploadOk.accept (pre : List RouterEvent) {route : Route} {rawDealID : Str} {dealID : UInt64}
    (hroute : route ≠ .fetch) (hdeal : requireDealIDQuery rawDealID = .ok dealID)
    (hcheck : route.check = .ok ()) :
    UploadOk (pre ++ [.arrive route rawDealID]) (routerAfter pre).requests.length
        ((routerAfter pre).accept route rawDealID)
          (((routerAfter pre).preferred dealID.toNat).map .ok) ∧
      ((routerAfter pre).accept route rawDealID).route = route ∧
      ((routerAfter pre).accept route rawDealID).dealID = dealID.toNat := by
  -- the request as it is accepted
  have haccept : (routerAfter pre).accept route rawDealID =
      ((routerAfter pre).preferred dealID.toNat).elim
        ⟨route, dealID.toNat, (routerAfter pre).now, [], [], [], .dealProviders⟩
        fun p => (routerAfter pre).withProviders
          ⟨route, dealID.toNat, (routerAfter pre).now, [], [], [], .dealProviders⟩ [p] := by
    have hknown : (routerAfter pre).knownProviders route dealID.toNat =
        ((routerAfter pre).preferred dealID.toNat).map fun p => [p] := by
      cases route with
      | fetch => exact absurd rfl hroute
      | upload => rfl
      | uploadStatus uploadID => rfl
    simp only [Router.accept, hdeal, hcheck, hknown]
    cases (routerAfter pre).preferred dealID.toNat <;> rfl
  -- nothing has come for its number yet
  obtain ⟨hnone, hback⟩ := @nothing_came _ pre (le_refl _)
  have hnone' : ¬EndpointsCame (pre ++ [.arrive route rawDealID])
      (routerAfter pre).requests.length := by
    intro hcame
    rcases occurs_snoc.mp hcame with hold | ⟨answer, req, he, -⟩
    · exact hnone hold
    · cases he
  have hback' : ¬CameBack (pre ++ [.arrive route rawDealID]) (routerAfter pre).requests.length := by
    intro hcame
    rcases occurs_snoc.mp hcame with hold | ⟨reply, req, he, -⟩
    · exact hback hold
    · cases he
  rw [haccept]
  cases hpreferred : (routerAfter pre).preferred dealID.toNat with
  | none => exact ⟨.waits rfl rfl hnone' hback', rfl, rfl⟩
  | some q =>
      have hsame := withProviders_same (routerAfter pre)
        ⟨route, dealID.toNat, (routerAfter pre).now, [], [], [], .dealProviders⟩ [q]
      refine ⟨withProviders_goes ?_ (not_blank_of_preferred (preferred_iff.mp hpreferred))
        (fun _ h => h.append _) hnone' hback', hsame.route, hsame.dealID⟩
      exact hroute

/-- The state of an upload at the end of a run, after it came. The provider is the preferred one at
its arrival, and else what the first answer of the LCD assigns. -/
theorem uploadOk_run (pre post : List RouterEvent) {route : Route} {rawDealID : Str}
    {dealID : UInt64} (hroute : route ≠ .fetch) (hdeal : requireDealIDQuery rawDealID = .ok dealID)
    (hcheck : route.check = .ok ()) :
    ∃ req, (routerAfter
        (pre ++ .arrive route rawDealID :: post)).requests[(routerAfter pre).requests.length]? =
        some req ∧ req.route = route ∧ req.dealID = dealID.toNat ∧
      UploadOk (pre ++ .arrive route rawDealID :: post) (routerAfter pre).requests.length req
        ((((routerAfter pre).preferred dealID.toNat).map .ok).or
          ((post.findSome? (lcdAnswerTo (routerAfter pre).requests.length)).map
            (assigned dealID.toNat))) := by
  -- by the run after the arrival
  induction post using List.reverseRecOn with
  | nil =>
      obtain ⟨hok, hsame, hid⟩ := UploadOk.accept pre hroute hdeal hcheck
      refine ⟨_, ?_, hsame, hid, ?_⟩
      · rw [routerAfter, run_snoc]
        exact List.getElem?_concat_length
      · simpa using hok
  | append_singleton post e ih =>
      obtain ⟨req, hget, hsame, hid, hok⟩ := ih
      obtain ⟨req', hget', hstep, hkept⟩ := exists_step e hget
      have hnext := hok.step hget (hsame ▸ hroute) hstep
      refine ⟨req', ?_, hkept.route.trans hsame, hkept.dealID.trans hid, ?_⟩
      · rw [← List.cons_append, ← List.append_assoc]
        exact hget'
      · rw [← List.cons_append, ← List.append_assoc, List.findSome?_append]
        rw [hid, Option.or_assoc, ← Option.map_or] at hnext
        simpa using hnext

/-- In every run, an upload and a question for its status go to one provider for good, whatever else
happens: to the provider that was preferred last, if that was less than ten seconds before, and else
to the first provider of the deal in the first answer of the LCD, which refuses the request when
there is none. That the request goes to a provider is `SentTo`: it is sent on to the provider's
address, only the provider's own answer is relayed, and an error means that this provider has
failed. -/
theorem upload_route (pre post : List RouterEvent) (route : Route) (rawDealID : Str)
    (dealID : UInt64) (hroute : route ≠ .fetch) (hdeal : requireDealIDQuery rawDealID = .ok dealID)
    (hcheck : route.check = .ok ()) :
    let id := (routerAfter pre).requests.length
    let es := pre ++ .arrive route rawDealID :: post
    ∃ req, (routerAfter es).requests[id]? = some req ∧
      (∀ p, Preferred pre dealID.toNat p → req.providers = [p] ∧ SentTo es id p req) ∧
      ((∀ p, ¬Preferred pre dealID.toNat p) →
        (post.findSome? (lcdAnswerTo id) = none → req.stage = .dealProviders) ∧
        ∀ answer, post.findSome? (lcdAnswerTo id) = some answer →
          (∀ err, dealProvidersOf dealID.toNat answer = .error err →
            req.stage = .answered (.jsonError (dealLookupFailed route err))) ∧
          ∀ providers, dealProvidersOf dealID.toNat answer = .ok providers →
            req.providers = [providers.headD []] ∧ SentTo es id (providers.headD []) req) ∧
      ∀ more req', (routerAfter (es ++ more)).requests[id]? = some req' → req.providers ≠ [] →
        req'.providers = req.providers := by
  intro id es
  obtain ⟨req, hget, hsame, -, hok⟩ := uploadOk_run pre post hroute hdeal hcheck
  refine ⟨req, hget, fun p hp => ?_, fun hnone => ?_, fun more req' hget' hne => ?_⟩
  · rw [preferred_iff.mpr hp, Option.map_some, Option.some_or] at hok
    cases hok with
    -- the preferred provider stays the one of the request
    | goes hproviders hsent => exact ⟨hproviders, hsent⟩
  · have hunknown : (routerAfter pre).preferred dealID.toNat = none := by
      cases hp : (routerAfter pre).preferred dealID.toNat with
      | none => rfl
      | some p => exact absurd (preferred_iff.mp hp) (hnone p)
    rw [hunknown, Option.map_none, Option.none_or] at hok
    -- no answer yet, a refusal, or the first provider
    refine ⟨fun hlcd => ?_, fun answer hlcd => ⟨fun err herr => ?_, fun providers hlist => ?_⟩⟩
    · rw [hlcd] at hok
      cases hok with
      | waits hstage => exact hstage
    · rw [hlcd, Option.map_some, assigned, herr] at hok
      cases hok with
      | refused _ hstage => rw [hstage, hsame]
    · rw [hlcd, Option.map_some, assigned, hlist] at hok
      cases hok with
      | goes hproviders hsent => exact ⟨hproviders, hsent⟩
  · -- What is known of the provider before the later events is known after them.
    obtain ⟨req'', hget'', -, -, hok'⟩ := uploadOk_run pre (post ++ more) hroute hdeal hcheck
    have hassoc : pre ++ .arrive route rawDealID :: (post ++ more) = es ++ more := by simp [es]
    rw [hassoc, hget'] at hget''
    cases hget''
    cases hprovider : (((routerAfter pre).preferred dealID.toNat).map Except.ok).or
        ((post.findSome? (lcdAnswerTo id)).map (assigned dealID.toNat)) with
    | none =>
        rw [hprovider] at hok
        cases hok with
        | waits _ hproviders => exact absurd hproviders hne
    | some provider =>
        have hlater : (((routerAfter pre).preferred dealID.toNat).map Except.ok).or
            (((post ++ more).findSome? (lcdAnswerTo id)).map (assigned dealID.toNat)) =
              some provider := by
          rw [List.findSome?_append, Option.map_or, ← Option.or_assoc, hprovider, Option.some_or]
        rw [hprovider] at hok
        rw [hlater] at hok'
        cases hok with
        | refused hproviders => exact absurd hproviders hne
        | goes hproviders =>
            cases hok' with
            | goes hproviders' => exact hproviders'.trans hproviders.symm

/-- The providers of the deal in the samples. -/
def sampleDeal : LcdDeal := ⟨["sp1".toList, "sp2".toList], []⟩

/-- What happens after an upload that comes after `failoverRun`. -/
def preferredAnswers : List RouterEvent :=
  [.elapse (10 ^ 9), .replied 1 (.replied 500 "500".toList [7])]

/-- What happens after an upload that is the first request: the first provider of its deal has no
endpoints. -/
def lookupAnswers : List RouterEvent :=
  [.dealAnswered 0 (.ok sampleDeal), .endpointsAnswered 0 (.error "not found")]

/-- An upload goes to the second provider of its deal, for that one has just answered, and its
answer is relayed even though it is an error. One that nobody is preferred for goes to the first
provider, and to no other when that one has failed. -/
theorem upload_route_samples :
    (∃ req, (routerAfter
      (failoverRun ++ .arrive .upload "7".toList :: preferredAnswers)).requests[1]? = some req ∧
      SentTo (failoverRun ++ .arrive .upload "7".toList :: preferredAnswers) 1 "sp2".toList req ∧
      req.stage = .answered (.relayed "sp2".toList 500 [7])) ∧
    ∃ req, (routerAfter (.arrive .upload "7".toList :: lookupAnswers)).requests[0]? = some req ∧
      SentTo (.arrive .upload "7".toList :: lookupAnswers) 0 "sp1".toList req ∧
      req.stage =
        .answered (.jsonError ⟨502, "failed to resolve provider endpoint", "not found"⟩) := by
  have hseven : requireDealIDQuery "7".toList = .ok 7 := by decide +kernel
  constructor
  · have hpreferred : (routerAfter failoverRun).preferred 7 = some "sp2".toList := by decide +kernel
    have hstage : ((routerAfter
        (failoverRun ++ .arrive .upload "7".toList :: preferredAnswers)).requests[1]?).map
        (·.stage) = some (.answered (.relayed "sp2".toList 500 [7])) := by decide +kernel
    obtain ⟨req, hget, hroute, -⟩ :=
      upload_route failoverRun preferredAnswers .upload "7".toList 7 (by decide) hseven rfl
    have hget :
        (routerAfter (failoverRun ++ .arrive .upload "7".toList :: preferredAnswers)).requests[1]? =
        some req := hget
    rw [hget] at hstage
    exact ⟨req, hget, (hroute _ (preferred_iff.mp hpreferred)).2, Option.some.inj hstage⟩
  -- with an answer of the LCD
  · have hfetch : fetchDealProvidersFromLCD sampleDeal =
      ["sp1".toList, "sp2".toList] := by decide +kernel
    have hlist : dealProvidersOf 7 (.ok sampleDeal) = .ok ["sp1".toList, "sp2".toList] := by
      simp [dealProvidersOf, Except.bind, hfetch]
    have hstage : ((routerAfter (.arrive .upload "7".toList :: lookupAnswers)).requests[0]?).map
        (·.stage) =
        some (.answered (.jsonError ⟨502, "failed to resolve provider endpoint",
          "not found"⟩)) := by decide +kernel
    obtain ⟨req, hget, -, hlookup, -⟩ :=
      upload_route [] lookupAnswers .upload "7".toList 7 (by decide) hseven rfl
    have hget : (routerAfter (.arrive .upload "7".toList :: lookupAnswers)).requests[0]? =
      some req := hget
    have hnone : ∀ p, ¬Preferred [] 7 p := by
      intro p hp
      cases preferred_iff.mpr hp
    rw [hget] at hstage
    exact ⟨req, hget, ((hlookup hnone).2 _ rfl).2 _ hlist |>.2, Option.some.inj hstage⟩

end NilStore.Gateway
