import NilStore.Chain.Ledger
import NilStore.Proofs.SessionFailures
import NilStore.Proofs.SessionSteps

/-!
# `NilStore.Proofs.SessionRange`: the blobs that a session is paid for

A session is opened for a range of blobs: `blobCount` of them, from blob `startBlobIndex` of MDU
`startMduIndex` on. Opening and submitting number the blobs of a deal through, in `uint64`s: the
first blob of the range has the number `startGlobal`. Opening checks that the range does not
overflow from there on (`Ranged` is the invariant), and nobody checks `startGlobal` itself.

So the proofs that are accepted are consecutive (`checkSessionProofs_ok`), and they are those of the
range exactly when `startGlobal` has not wrapped around (`session_range_iff`).
`session_range_wrapped` is a session that is paid for a blob of MDU `2 ^ 58` and accepts the proof
for one of MDU 0.
-/

set_option autoImplicit false

namespace NilStore.Chain

open NilStore.Lib

variable {β : Type}

/-! ### Ranges -/

/-- The number of a blob among all blobs of a deal, as opening and submitting compute it. -/
def globalIndex (leafCount startMduIndex : UInt64) (startBlobIndex : UInt32) : UInt64 :=
  startMduIndex * leafCount + startBlobIndex.toUInt64

/-- The number of the first blob of a session. -/
def RetrievalSession.startGlobal (session : RetrievalSession) (stripe : StripeParams) : UInt64 :=
  globalIndex stripe.leafCount session.startMduIndex session.startBlobIndex

/-- What opening checks of a range: it has a blob, and its end does not overflow. -/
structure RangeChecked (stripe : StripeParams) (session : RetrievalSession) : Prop where
  count : 0 < session.blobCount.toNat
  fits : (session.startGlobal stripe).toNat + session.blobCount.toNat < 2 ^ 64

/-- `addUint64` reports the sums from `2 ^ 64` on. -/
theorem addUint64_overflow {a b : UInt64} :
    (addUint64 a b).2 = false ↔ a.toNat + b.toNat < 2 ^ 64 := by
  have ha := a.toNat_lt
  have hb := b.toNat_lt
  rw [addUint64, decide_eq_false_iff_not, UInt64.lt_iff_toNat_lt, UInt64.toNat_add]
  omega

/-- The range of an opening is checked against the stripe of its deal. -/
theorem checkOpen_range {codec : AddressCodec} {msg : MsgOpenRetrievalSession}
    {deals : KVStore Nat Deal} {plan : OpenPlan} (h : checkOpen codec msg deals = .ok plan) :
    ∃ stripe, stripeParamsForDeal plan.deal = .ok stripe ∧
      ∀ ctx sessionId fee,
        RangeChecked stripe (newSession ctx msg sessionId plan.totalBytes fee) := by
  simp only [checkOpen, except_bind_ok, rejectIf_eq_ok, orFail_eq_ok, mapError_eq_ok, not_or,
    not_not] at h
  obtain ⟨_, -, _, hcount, deal, -, _, -, _, -, _, -, stripe, hstripe, _, hrange, _, -, owner, -,
    provider, -, hplan⟩ := h
  cases hplan
  simp only [checkBlobRange, except_bind_ok, rejectIf_eq_ok] at hrange
  obtain ⟨_, -, _, hoverflow, -⟩ := hrange
  refine ⟨stripe, hstripe, fun ctx sessionId fee => ⟨?_, ?_⟩⟩
  · show 0 < msg.blobCount.toNat
    have hne : msg.blobCount.toNat ≠ 0 := fun h0 => hcount (UInt64.toNat_inj.mp h0)
    omega
  · exact addUint64_overflow.mp (Bool.eq_false_iff.mpr hoverflow)

/-- The stripe of a deal comes from its mode, its profile and its hint. -/
theorem stripeParamsForDeal_congr {deal deal' : Deal}
    (hmode : deal'.redundancyMode = deal.redundancyMode)
    (hprofile : deal'.mode2Profile = deal.mode2Profile)
    (hhint : deal'.serviceHint = deal.serviceHint) :
    stripeParamsForDeal deal' = stripeParamsForDeal deal := by
  rw [stripeParamsForDeal, stripeParamsForDeal, Deal.stripeProfile, Deal.stripeProfile, hmode,
    hprofile, hhint]

/-! ### The invariant -/

/-- The range of every stored session is checked against the stripe of its deal. -/
def Ranged (s : KeeperState β) : Prop :=
  ∀ id session, s.retrievalSessions.get id = some session →
    ∃ deal stripe, s.deals.get session.dealId.toNat = some deal ∧
      stripeParamsForDeal deal = .ok stripe ∧ RangeChecked stripe session

/-- Deals stay, with their stripes. -/
def StripesKept (s s' : KeeperState β) : Prop :=
  ∀ d deal, s.deals.get d = some deal →
    ∃ deal', s'.deals.get d = some deal' ∧ stripeParamsForDeal deal' = stripeParamsForDeal deal

/-- Deals keep their stripes, and ranges stay checked. -/
def KeepsRanges (s s' : KeeperState β) : Prop := StripesKept s s' ∧ (Ranged s → Ranged s')

section Invariant

variable {env : Env β} {ctx : Ctx} {e : Event} {s s' : KeeperState β} {id : Bytes}

/-- An admissible step of the deals keeps their stripes. -/
theorem DealsMoved.stripesKept (h : DealsMoved env e s s') : StripesKept s s' := by
  intro d deal hget
  obtain ⟨deal', hget', hstep⟩ := h.kept hget
  obtain ⟨-, -, -, -, hmode, hprofile, hhint⟩ := hstep.frame
  exact ⟨deal', hget', stripeParamsForDeal_congr hmode hprofile hhint⟩

/-- A step that changes nothing keeps the ranges checked. -/
theorem KeepsRanges.refl (s : KeeperState β) : KeepsRanges s s :=
  ⟨fun _ deal hget => ⟨deal, hget, rfl⟩, fun h => h⟩

/-- Steps that keep the ranges checked compose. -/
theorem KeepsRanges.trans (a b c : KeeperState β) (hab : KeepsRanges a b) (hbc : KeepsRanges b c) :
    KeepsRanges a c := by
  refine ⟨fun d deal hget => ?_, fun h => hbc.2 (hab.2 h)⟩
  obtain ⟨deal₁, hget₁, hsame₁⟩ := hab.1 d deal hget
  obtain ⟨deal₂, hget₂, hsame₂⟩ := hbc.1 d deal₁ hget₁
  exact ⟨deal₂, hget₂, hsame₂.trans hsame₁⟩

/-- A session with the range of a checked one, in a state that keeps the stripes. -/
theorem StripesKept.range {session session' : RetrievalSession} (hkept : StripesKept s s')
    (h : ∃ deal stripe, s.deals.get session.dealId.toNat = some deal ∧
      stripeParamsForDeal deal = .ok stripe ∧ RangeChecked stripe session)
    (hsame : ProgressOnly session session') :
    ∃ deal stripe, s'.deals.get session'.dealId.toNat = some deal ∧
      stripeParamsForDeal deal = .ok stripe ∧ RangeChecked stripe session' := by
  obtain ⟨deal, stripe, hget, hstripe, hrange⟩ := h
  obtain ⟨deal', hget', heq⟩ := hkept _ deal hget
  rw [hsame]
  exact ⟨deal', stripe, hget', heq.trans hstripe, ⟨hrange.count, hrange.fits⟩⟩

/-- An event that leaves the sessions alone. -/
theorem KeepsRanges.of_kept (hkept : StripesKept s s')
    (hsessions : s'.retrievalSessions = s.retrievalSessions) : KeepsRanges s s' := by
  refine ⟨hkept, fun h id session hget => ?_⟩
  rw [hsessions] at hget
  exact hkept.range (h id session hget) rfl

/-- One session makes progress. -/
theorem KeepsRanges.of_progress {session session' : RetrievalSession} (hkept : StripesKept s s')
    (hget : s.retrievalSessions.get id = some session) (hsame : ProgressOnly session session')
    (hsessions : s'.retrievalSessions = s.retrievalSessions.set id session') :
    KeepsRanges s s' := by
  refine ⟨hkept, fun h id' found hfound => ?_⟩
  rw [hsessions] at hfound
  rcases KVStore.get_set_some hfound with ⟨rfl, rfl⟩ | ⟨-, hold⟩
  · exact hkept.range (h _ session hget) hsame
  · exact hkept.range (h id' found hold) rfl

/-- An opening stores a session whose range is checked. -/
theorem SessionOpened.keepsRanges {msg : MsgOpenRetrievalSession} {plan : OpenPlan}
    (h : SessionOpened env ctx msg s s' plan id) : KeepsRanges s s' := by
  have hkept : StripesKept s s' := (h.toQuiet (e := .endBlock ctx)).moved.deals.stripesKept
  obtain ⟨hplan, -, -, s₁, hfees, hs'⟩ := h
  have hsessions : s₁.retrievalSessions = s.retrievalSessions := by rw [hfees.frame]
  refine ⟨hkept, fun hranged id' found hfound => ?_⟩
  rw [hs'] at hfound
  simp only [storeSession, hsessions] at hfound
  rcases KVStore.get_set_some hfound with ⟨-, rfl⟩ | ⟨-, hold⟩
  · obtain ⟨stripe, hstripe, hrange⟩ := checkOpen_range hplan
    have hchecked := hrange ctx id (variableFee s.getParams msg.blobCount)
    have hnew : ∃ deal stripe, s.deals.get
        (newSession ctx msg id plan.totalBytes
          (variableFee s.getParams msg.blobCount)).dealId.toNat = some deal ∧
        stripeParamsForDeal deal = .ok stripe ∧ RangeChecked stripe
          (newSession ctx msg id plan.totalBytes (variableFee s.getParams msg.blobCount)) :=
      ⟨plan.deal, stripe, (checkOpen_ok hplan).1, hstripe, hchecked⟩
    exact hkept.range hnew rfl
  · exact hkept.range (hranged id' found hold) rfl

/-- Opening, failed or not. -/
theorem openRetrievalSession_keepsRanges (msg : MsgOpenRetrievalSession) :
    Tx.Keeps KeepsRanges (openRetrievalSession env ctx msg) := by
  intro s
  cases hexec : (openRetrievalSession env ctx msg).exec s with
  | mk res s' =>
      have hquiet : QuietlyMoved env (.endBlock ctx) s s' :=
        ((keeps_openRetrievalSession EscrowOnly.serves msg s).of_exec hexec).toQuiet
      have hkept : StripesKept s s' := hquiet.moved.deals.stripesKept
      rw [Tx.KeepsAt, hexec]
      cases res with
      | ok sessionId =>
          obtain ⟨plan, hopened⟩ := openRetrievalSession_ok hexec
          exact hopened.keepsRanges
      | error fault =>
          refine .of_kept hkept ?_
          rw [openRetrievalSession_fails hexec]

/-- Confirming, failed or not. -/
theorem confirmRetrievalSession_keepsRanges (msg : MsgConfirmRetrievalSession) :
    Tx.Keeps KeepsRanges (confirmRetrievalSession env ctx msg) := by
  intro s
  cases hexec : (confirmRetrievalSession env ctx msg).exec s with
  | mk res s' =>
      have hquiet : QuietlyMoved env (.endBlock ctx) s s' :=
        ((keeps_confirmRetrievalSession EscrowOnly.serves msg s).of_exec hexec).toQuiet
      have hkept : StripesKept s s' := hquiet.moved.deals.stripesKept
      rw [Tx.KeepsAt, hexec]
      cases res with
      | ok u =>
          obtain ⟨session, hget, -, -, hadvanced⟩ := confirmRetrievalSession_ok hexec
          obtain ⟨session', hsame, hsessions⟩ := hadvanced.sessions hget
          exact .of_progress hkept hget hsame hsessions.sessions
      | error fault =>
          cases confirmRetrievalSession_error hexec with
          | unknown => exact .refl _
          | @expired session hget hexp =>
              have hsame : ProgressOnly session (expireSession ctx session) := rfl
              exact .of_progress hkept hget hsame rfl
          | unpaid => exact .of_kept hkept rfl

/-- The precompile's calls keep the ranges checked. -/
theorem KeepsRanges.serves : Precompile.ServesCalls env ctx KeepsRanges where
  refl := KeepsRanges.refl
  trans := KeepsRanges.trans
  opens := openRetrievalSession_keepsRanges
  confirms := confirmRetrievalSession_keepsRanges

end Invariant

/-! ### Every run -/

section Events

variable {env : Env β} {ctx : Ctx} {s s' : KeeperState β}

/-- A delivered message that succeeds. -/
theorem handle_keepsRanges {msg : Msg} {u : Unit} (hs : WellFormed env s)
    (hexec : (handle env ctx msg).exec s = (.ok u, s')) : KeepsRanges s s' := by
  have hkept : StripesKept s s' := (handle_moved hs hexec).deals.stripesKept
  by_cases hmsg : msg.isSession
  · cases msg with
    | openRetrievalSession msg =>
        obtain ⟨id, hopen⟩ := discard_ok.mp hexec
        obtain ⟨plan, hopened⟩ := openRetrievalSession_ok hopen
        exact hopened.keepsRanges
    | confirmRetrievalSession msg =>
        exact (confirmRetrievalSession_keepsRanges msg s).of_exec hexec
    | cancelRetrievalSession msg =>
        obtain ⟨session, hget, -, hcanceled⟩ := cancelRetrievalSession_ok hexec
        obtain ⟨session', hsame, hsessions⟩ := hcanceled.sessions hget
        exact .of_progress hkept hget hsame hsessions.sessions
    | submitRetrievalSessionProof msg =>
        obtain ⟨session, hget, -, -, -, hadvanced⟩ := submitRetrievalSessionProof_ok hexec
        obtain ⟨session', hsame, hsessions⟩ := hadvanced.sessions hget
        exact .of_progress hkept hget hsame hsessions.sessions
    | _ => exact hmsg.elim
  · exact .of_kept hkept ((handle_frame hexec).sessions hmsg).sessions

/-- A call of the precompile, failed or not. The methods on sessions keep the ranges step by step,
and the others leave the sessions alone. -/
theorem call_keepsRanges {input : Precompile.Input} {res : Except Fault Precompile.Output}
    (hs : WellFormed env s) (hexec : (Precompile.run env ctx input).exec s = (res, s')) :
    KeepsRanges s s' := by
  -- the stripes of the deals are kept
  have hkept : StripesKept s s' := by
    have hmoved := (apply_moved hs (.call ctx input)).deals.stripesKept
    rwa [apply, hexec] at hmoved
  rcases Precompile.run_cases hexec with ⟨-, -, rfl⟩ | ⟨-, call, -, hserve⟩
  · exact .refl _
  · by_cases hsessions : call.servesSessions
    · exact Precompile.serve_within KeepsRanges.serves hserve hsessions
    refine .of_kept hkept ?_
    cases call with
    | createDeal duration hint escrow spend =>
        rw [Precompile.serve_deals_frame hserve trivial]
    | updateDealContent dealId root size =>
        rw [Precompile.serve_deals_frame hserve trivial]
    | proveRetrievalBatch dealId provider filePath nonce chunks =>
        cases res with
        | ok r =>
            obtain ⟨deal, amount, -, -, hframe⟩ := Precompile.runProveRetrievalBatch_ok hserve
            rw [hframe]
        | error fault =>
            have hheat := Precompile.runProveRetrievalBatch_fails hserve
            rw [HeatOnly] at hheat
            rw [hheat]
    | computeRetrievalSessions sessions =>
        cases (Prod.mk.inj hserve).2
        rfl
    | computeRetrievalSessionIds sessions =>
        cases (Prod.mk.inj hserve).2
        rfl
    | _ => exact absurd trivial hsessions

/-- Every event. -/
theorem apply_keepsRanges (hs : WellFormed env s) (e : Event) : KeepsRanges s (apply env s e) := by
  cases e with
  | deliver ctx msg =>
      rcases deliver_cases env ctx msg s with heq | hok
      · rw [heq]
        exact .refl s
      · exact handle_keepsRanges hs hok
  | endBlock ctx =>
      refine .of_kept (apply_moved hs (.endBlock ctx)).deals.stripesKept ?_
      rw [apply, (checkMissedProofs_spec env ctx s).frame]
  | call ctx input => exact call_keepsRanges hs rfl

end Events

/-- In every reachable state, the ranges of all sessions are checked. -/
theorem run_ranged (env : Env β) (params : Params) (b : β) (es : List Event) :
    Ranged (run (apply env) (genesis params b) es) := by
  have hinv : WellFormed env (run (apply env) (genesis params b) es) ∧
      Ranged (run (apply env) (genesis params b) es) :=
    run_invariant (fun _ => True) (fun s => WellFormed env s ∧ Ranged s)
      ⟨genesis_wellFormed env params b, nofun⟩
      (fun s e hs _ => ⟨apply_wellFormed hs.1 e, (apply_keepsRanges hs.1 e).2 hs.2⟩)
      fun _ _ => trivial
  exact hinv.2

/-! ### Accepted proofs -/

/-- The accepted proofs are those of consecutive numbers, while the numbers do not overflow. The
number of a proof is that of its blob in the deal. -/
theorem checkSessionProofs_ok {env : Env β} {deal : Deal} {stripe : StripeParams}
    {session : RetrievalSession} {start : UInt64} {proofs : List ChainedProof} {u : Unit}
    (h : checkSessionProofs env deal stripe session start proofs = .ok u) {i : Nat}
    {p : ChainedProof} (hp : proofs[i]? = some p) (hfits : start.toNat + i < 2 ^ 64) :
    p.mduIndex.toNat * stripe.leafCount.toNat + p.blobIndex.toNat = start.toNat + i := by
  -- by the list of the proofs; the start moves on with it
  induction proofs generalizing start i with
  | nil => cases hp
  | cons q rest ih =>
      simp only [checkSessionProofs, except_bind_ok] at h
      obtain ⟨_, hq, hrest⟩ := h
      cases i with
      | zero =>
          rw [List.getElem?_cons_zero, Option.some.injEq] at hp
          subst hp
          simp only [checkSessionProof, except_bind_ok, rejectIf_eq_ok, not_or, not_not] at hq
          obtain ⟨_, ⟨hmdu, hblob⟩, -⟩ := hq
          rw [hmdu, ← UInt32.toNat_toUInt64, hblob, UInt64.toNat_div, UInt64.toNat_mod,
            Nat.add_zero, Nat.div_add_mod']
      | succ i =>
          rw [List.getElem?_cons_succ] at hp
          have hstep : (start + 1).toNat = start.toNat + 1 := by
            rw [UInt64.toNat_add, UInt64.toNat_one, Nat.mod_eq_of_lt (by omega)]
          rw [ih hrest hp (by omega)]
          omega

/-- The proofs are, in order, those for the blobs of the range. -/
def ProvesRange (leafCount : UInt64) (session : RetrievalSession) (proofs : List ChainedProof) :
    Prop :=
  ∀ i < session.blobCount.toNat, ∃ p, proofs[i]? = some p ∧
    p.mduIndex.toNat * leafCount.toNat + p.blobIndex.toNat =
      session.startMduIndex.toNat * leafCount.toNat + session.startBlobIndex.toNat + i

/-- The number of the first blob has not wrapped around exactly when it is what it says. -/
theorem globalIndex_eq_iff {leafCount startMduIndex : UInt64} {startBlobIndex : UInt32} :
    (globalIndex leafCount startMduIndex startBlobIndex).toNat =
        startMduIndex.toNat * leafCount.toNat + startBlobIndex.toNat ↔
      startMduIndex.toNat * leafCount.toNat + startBlobIndex.toNat < 2 ^ 64 := by
  rw [globalIndex, UInt64.toNat_add, UInt64.toNat_mul, UInt32.toNat_toUInt64, Nat.mod_add_mod]
  constructor
  · intro heq
    rw [← heq]
    exact Nat.mod_lt _ (by decide)
  · exact Nat.mod_eq_of_lt

/-- A session of a reachable state that is not complete, and proofs for it that are accepted: there
is a proof for each blob that was paid for, and the proofs are those of the range that was opened
exactly when the number of its first blob fits into a `uint64`. -/
theorem session_range_iff (env : Env β) (params : Params) (b : β) (es : List Event) (ctx : Ctx)
    (msg : MsgSubmitRetrievalSessionProof) (session : RetrievalSession) (s' : KeeperState β)
    (hget : (run (apply env) (genesis params b) es).retrievalSessions.get msg.sessionId =
      some session)
    (hstatus : session.status ≠ .completed)
    (hok : (submitRetrievalSessionProof env ctx msg).exec (run (apply env) (genesis params b) es) =
      (.ok (), s')) :
    ∃ deal stripe,
      (run (apply env) (genesis params b) es).deals.get session.dealId.toNat = some deal ∧
      stripeParamsForDeal deal = .ok stripe ∧
      UInt64.ofNat msg.proofs.length = session.blobCount ∧
      (ProvesRange stripe.leafCount session msg.proofs ↔
        session.startMduIndex.toNat * stripe.leafCount.toNat + session.startBlobIndex.toNat <
          2 ^ 64) := by
  obtain ⟨deal, stripe, hdeal, hstripe, hrange⟩ := run_ranged env params b es _ _ hget
  obtain ⟨session', hget', -, -, hcheck, -⟩ := submitRetrievalSessionProof_ok hok
  rw [hget] at hget'
  cases hget'
  have hcheck := hcheck hstatus
  simp only [checkSubmission, except_bind_ok, rejectIf_eq_ok, orFail_eq_ok, mapError_eq_ok,
    not_not] at hcheck
  obtain ⟨deal', hdeal', _, -, _, hlength, stripe', hstripe', _, -, hproofs⟩ := hcheck
  rw [hdeal] at hdeal'
  cases hdeal'
  rw [hstripe] at hstripe'
  cases hstripe'
  refine ⟨deal, stripe, hdeal, hstripe, hlength, ?_⟩
  -- the number of proofs may wrap, and is not below the count
  have hcount : session.blobCount.toNat ≤ msg.proofs.length := by
    rw [← hlength, UInt64.toNat_ofNat']
    exact Nat.mod_le _ _
  -- The i-th proof is the one with the i-th number from the first on.
  have hnumber : ∀ {i : Nat} {p : ChainedProof}, msg.proofs[i]? = some p →
      i < session.blobCount.toNat →
      p.mduIndex.toNat * stripe.leafCount.toNat + p.blobIndex.toNat =
        (session.startGlobal stripe).toNat + i := fun hp hi =>
    checkSessionProofs_ok hproofs hp (lt_trans (Nat.add_lt_add_left hi _) hrange.fits)
  rw [← globalIndex_eq_iff]
  -- the first proof decides, as the others follow it
  constructor
  · intro hproves
    obtain ⟨p, hp, heq⟩ := hproves 0 hrange.count
    rw [hnumber hp hrange.count] at heq
    exact heq
  · intro heq i hi
    obtain ⟨p, hp⟩ : ∃ p, msg.proofs[i]? = some p :=
      ⟨_, List.getElem?_eq_getElem (lt_of_lt_of_le hi hcount)⟩
    refine ⟨p, hp, ?_⟩
    rw [hnumber hp hi, ← heq]
    rfl

/-! ### On a small chain -/

/-- A session over the first blob of an MDU. -/
def firstBlobMsg (startMduIndex : UInt64) : MsgOpenRetrievalSession where
  creator := ownerText
  dealId := 0
  provider := providerText
  manifestRoot := sampleManifestRoot
  startMduIndex := startMduIndex
  startBlobIndex := 0
  blobCount := 1
  nonce := 1
  expiresAt := 100

/-- The ids of the sessions over the first blobs of MDU 0 and of MDU `2 ^ 58`. -/
def firstBlobId : Bytes :=
  [0x80, 0x70, 0x98, 0x43, 0xb6, 0x14, 0x92, 0xaa, 0xb1, 0xbf, 0x0f, 0x1d, 0x3c, 0x36, 0xa2, 0xed,
    0x39, 0x93, 0xb2, 0x54, 0xda, 0x49, 0x40, 0xf2, 0x70, 0xb0, 0x52, 0x6b, 0xe5, 0x21, 0xb0, 0x1f]

/-- The id of the session whose start wraps to blob 0. -/
def wrappedBlobId : Bytes :=
  [0x39, 0x69, 0x09, 0x5f, 0x81, 0xe2, 0x04, 0x22, 0xc0, 0x03, 0x1d, 0x1e, 0x08, 0x32, 0x5e, 0x6f,
    0x16, 0xe8, 0xc8, 0x44, 0xf8, 0x36, 0xea, 0x0f, 0x94, 0xa0, 0xf3, 0x8f, 0x65, 0xab, 0x69, 0x48]

/-- The digests of the two session ids. -/
def firstBlobKeccak : HashTable where
  entries :=
    [(sessionIdPreimage ownerAddr 0 providerAddr sampleManifestRoot 0 0 1 1 100, firstBlobId),
      (sessionIdPreimage ownerAddr 0 providerAddr sampleManifestRoot (2 ^ 58) 0 1 1 100,
        wrappedBlobId)]
  lengths := by decide +kernel

/-- A deal with content, and a session over the first blob of an MDU. -/
def firstBlobRun (startMduIndex : UInt64) : List Event :=
  sampleContentRun "General" ++
    [.deliver (ctxAt 2) (.openRetrievalSession (firstBlobMsg startMduIndex))]

/-- The state in which the session is open. -/
def firstBlobState (startMduIndex : UInt64) : KeeperState Ledger :=
  run (apply (sampleProofEnv firstBlobKeccak)) (genesis defaultParams sampleBank)
    (firstBlobRun startMduIndex)

/-- The provider proves the blob. The session is for the first blob of the deal. -/
theorem session_range_iff_firstBlobRun :
    ∃ session, (firstBlobState 0).retrievalSessions.get firstBlobId = some session ∧
      ProvesRange 64 session [sampleProof 0] := by
  have hrun : ((firstBlobState 0).retrievalSessions.get firstBlobId).map
      (fun session => (session.status, session.startMduIndex, session.startBlobIndex)) =
      some (.open, 0, 0) := by decide +kernel
  have hdeal : ((firstBlobState 0).deals.get 0).map stripeParamsForDeal =
      some (.ok mode1StripeParams) := by decide +kernel
  have hid : ((firstBlobState 0).retrievalSessions.get firstBlobId).map (·.dealId) = some 0 := by
    decide +kernel
  have hverdict : ((submitRetrievalSessionProof (sampleProofEnv firstBlobKeccak) (ctxAt 3)
      ⟨providerText, firstBlobId, [sampleProof 0]⟩).exec (firstBlobState 0)).1 = .ok () := by
    decide +kernel
  obtain ⟨s', hok⟩ := Tx.exists_exec_eq hverdict
  obtain ⟨session, hget, heq⟩ := Option.map_eq_some_iff.mp hrun
  obtain ⟨hstatus, hmdu, hblob⟩ : session.status = .open ∧ session.startMduIndex = 0 ∧
      session.startBlobIndex = 0 := by simpa using heq
  -- the theorem at this session and this proof
  obtain ⟨deal, stripe, hdeal', hstripe, -, hiff⟩ := session_range_iff
    (sampleProofEnv firstBlobKeccak) defaultParams sampleBank (firstBlobRun 0) (ctxAt 3)
    ⟨providerText, firstBlobId, [sampleProof 0]⟩ session s' hget (by rw [hstatus]; decide)
    hok
  rw [hget] at hid
  have hzero : session.dealId = 0 := Option.some.inj hid
  rw [hzero] at hdeal'
  have hdeal'' : (firstBlobState 0).deals.get 0 = some deal := hdeal'
  rw [hdeal'', Option.map_some, hstripe, Option.some.injEq, Except.ok.injEq] at hdeal
  subst hdeal
  refine ⟨session, hget, hiff.mpr ?_⟩
  rw [hmdu, hblob]
  decide

/-- A session over the first blob of MDU `2 ^ 58`, and the proof for MDU 0: the number of the first
blob is `2 ^ 64`, which is 0 as a `uint64`, so the proof is accepted. -/
theorem session_range_wrapped :
    ∃ session, (firstBlobState (2 ^ 58)).retrievalSessions.get wrappedBlobId = some session ∧
      session.status ≠ .completed ∧
      ((submitRetrievalSessionProof (sampleProofEnv firstBlobKeccak) (ctxAt 3)
        ⟨providerText, wrappedBlobId, [sampleProof 0]⟩).exec (firstBlobState (2 ^ 58))).1 =
          .ok () ∧
      ((firstBlobState (2 ^ 58)).deals.get session.dealId.toNat).map stripeParamsForDeal =
        some (.ok mode1StripeParams) ∧
      ¬ProvesRange mode1StripeParams.leafCount session [sampleProof 0] := by
  have hrun : ((firstBlobState (2 ^ 58)).retrievalSessions.get wrappedBlobId).map
      (fun session => (session.status, session.dealId, session.blobCount, session.startMduIndex,
        session.startBlobIndex)) = some (.open, 0, 1, 2 ^ 58, 0) := by decide +kernel
  have hok : ((submitRetrievalSessionProof (sampleProofEnv firstBlobKeccak) (ctxAt 3)
      ⟨providerText, wrappedBlobId, [sampleProof 0]⟩).exec (firstBlobState (2 ^ 58))).1 =
        .ok () := by decide +kernel
  have hdeal : ((firstBlobState (2 ^ 58)).deals.get 0).map stripeParamsForDeal =
      some (.ok mode1StripeParams) := by decide +kernel
  obtain ⟨session, hget, heq⟩ := Option.map_eq_some_iff.mp hrun
  obtain ⟨hstatus, hid, hcount, hmdu, hblob⟩ : session.status = .open ∧ session.dealId = 0 ∧
      session.blobCount = 1 ∧ session.startMduIndex = 2 ^ 58 ∧ session.startBlobIndex = 0 := by
    simpa only [Prod.mk.injEq] using heq
  -- the first proof would be for MDU 2^58
  refine ⟨session, hget, by rw [hstatus]; decide, hok, by rw [hid]; exact hdeal, fun hproves => ?_⟩
  obtain ⟨p, hp, heq⟩ := hproves 0 (by rw [hcount]; decide)
  cases hp
  rw [hmdu, hblob] at heq
  exact absurd heq (by decide)

end NilStore.Chain
