import NilStore.Lib.Nonces
import NilStore.Proofs.SessionFailures
import NilStore.Proofs.SessionSteps
import NilStore.Chain.Ledger

/-!
# `NilStore.Proofs.SessionIndex`: sessions are created once and stay indexed

`SessionsIndexed` is the invariant: every stored session is sound, and the two indexes have the
owner and the provider of every stored session, and no other entry. It survives every event, calls
of the precompile included, which keep what they wrote when they fail: an opening that fails has
stored no session, and a confirmation that fails has at most marked one as expired.

`Event.opened` lists the openings of an event that succeed, each with the state that it finds. A
call may open many sessions, so the openings of a run are finer than its events.
-/

set_option autoImplicit false

namespace NilStore.Chain

open NilStore.Lib

variable {β : Type}

/-! ### The invariant -/

/-- The index has the party of every stored session, and no other entry. -/
def Indexed (party : RetrievalSession → Str) (index : KVStore (Str ×ₗ Bytes) UInt64)
    (sessions : KVStore Bytes RetrievalSession) : Prop :=
  ∀ name id, (index.get (join name id)).isSome ↔
    ∃ session, sessions.get id = some session ∧ party session = name

/-- A new session and its entry. -/
theorem Indexed.set {party : RetrievalSession → Str} {index : KVStore (Str ×ₗ Bytes) UInt64}
    {sessions : KVStore Bytes RetrievalSession} {id : Bytes} (h : Indexed party index sessions)
    (hfresh : sessions.get id = none) (session : RetrievalSession) (height : UInt64) :
    Indexed party (index.set (join (party session) id) height) (sessions.set id session) := by
  intro name id'
  have hold := h name id'
  by_cases hid : id' = id
  · subst hid
    rw [hfresh] at hold
    by_cases hname : name = party session
    · subst hname
      simp
    · rw [KVStore.get_set_ne _ (by simpa using hname), hold]
      simp [Ne.symm hname]
  · rw [KVStore.get_set_ne _ (by simp [hid]), KVStore.get_set_ne _ hid]
    exact hold

/-- A session that is written again with its party. -/
theorem Indexed.rewrite {party : RetrievalSession → Str} {index : KVStore (Str ×ₗ Bytes) UInt64}
    {sessions : KVStore Bytes RetrievalSession} {id : Bytes} {session session' : RetrievalSession}
    (h : Indexed party index sessions) (hget : sessions.get id = some session)
    (hparty : party session' = party session) : Indexed party index (sessions.set id session') := by
  intro name id'
  rw [h name id', KVStore.get_set]
  by_cases hid : id' = id
  · subst hid
    simp [hget, hparty]
  · rw [if_neg hid]

/-- Sessions are sound, and indexed by owner and by provider. -/
structure SessionsIndexed (env : Env β) (hashed : Set Bytes) (s : KeeperState β) : Prop where
  wellFormed : WellFormed env s
  sound : SessionsSound env hashed s
  byOwner : Indexed (·.owner) s.retrievalSessionsByOwner s.retrievalSessions
  byProvider : Indexed (·.provider) s.retrievalSessionsByProvider s.retrievalSessions

section Invariant

variable {env : Env β} {hashed : Set Bytes} {e : Event} {ctx : Ctx} {s s' : KeeperState β}
  {id : Bytes}

/-- An event that leaves the sessions alone. -/
theorem SessionsIndexed.kept (h : SessionsIndexed env hashed s) (hmoved : Moved env e s s')
    (hkept : SessionsKept s s') : SessionsIndexed env hashed s' := by
  refine ⟨hmoved.wellFormed h.wellFormed, fun id session hget => ?_, ?_, ?_⟩
  · rw [hkept.sessions] at hget
    refine (h.sound id session hget).moved hmoved (fun k => ?_) rfl
    rw [hkept.nonces]
    exact UInt64.le_refl _
  · rw [hkept.byOwner, hkept.sessions]
    exact h.byOwner
  · rw [hkept.byProvider, hkept.sessions]
    exact h.byProvider

/-- One session makes progress. -/
theorem SessionsIndexed.progress {session session' : RetrievalSession}
    (h : SessionsIndexed env hashed s) (hmoved : Moved env e s s')
    (hget : s.retrievalSessions.get id = some session) (hsame : ProgressOnly session session')
    (hkept : SessionsKept { s with retrievalSessions := s.retrievalSessions.set id session' } s') :
    SessionsIndexed env hashed s' := by
  have hle : ∀ k, lastNonce s.retrievalSessionNonces k ≤ lastNonce s'.retrievalSessionNonces k := by
    intro k
    rw [hkept.nonces]
    exact UInt64.le_refl _
  refine ⟨hmoved.wellFormed h.wellFormed, fun id' found hfound => ?_, ?_, ?_⟩
  · rw [hkept.sessions] at hfound
    rcases KVStore.get_set_some hfound with ⟨rfl, rfl⟩ | ⟨-, hold⟩
    · exact (h.sound _ session hget).moved hmoved hle hsame
    · exact (h.sound _ found hold).moved hmoved hle rfl
  · rw [hkept.byOwner, hkept.sessions]
    exact h.byOwner.rewrite hget (by rw [hsame])
  · rw [hkept.byProvider, hkept.sessions]
    exact h.byProvider.rewrite hget (by rw [hsame])

/-- A new session enters the store and both indexes, under an id that had none. The id is the hash
of the opening, and no two openings have the same. -/
theorem SessionsIndexed.opened {msg : MsgOpenRetrievalSession} {plan : OpenPlan}
    (h : SessionsIndexed env hashed s) (hinj : Set.InjOn env.keccak256 hashed)
    (hmem : ∀ b, msg.preimage env.codec = some b → b ∈ hashed)
    (hopened : SessionOpened env ctx msg s s' plan id) :
    s.retrievalSessions.get id = none ∧ SessionsIndexed env hashed s' := by
  have hmoved : Moved env (.deliver ctx (.openRetrievalSession msg)) s s' := hopened.toQuiet.moved
  -- the id is new, and its nonce is the next one
  have hfresh := h.sound.fresh h.wellFormed hinj hmem hopened
  have hsound := hopened.sound h.wellFormed hmoved hmem
  have hnonces := (hopened.moved hfresh).nonces
  obtain ⟨-, -, -, s₁, hfees, rfl⟩ := hopened
  have hkept : SessionsKept s s₁ := by
    rw [hfees.frame]
    exact ⟨rfl, rfl, rfl, rfl⟩
  refine ⟨hfresh, hmoved.wellFormed h.wellFormed, fun id' found hfound => ?_, ?_, ?_⟩
  · simp only [storeSession, newSession, hkept.sessions] at hfound
    rcases KVStore.get_set_some hfound with ⟨rfl, rfl⟩ | ⟨-, hold⟩
    · exact hsound
    · exact (h.sound _ found hold).moved hmoved hnonces rfl
  · simp only [storeSession, hkept.byOwner, hkept.sessions]
    exact h.byOwner.set hfresh (newSession ctx msg id _ _) ctx.height64
  · simp only [storeSession, hkept.byProvider, hkept.sessions]
    exact h.byProvider.set hfresh (newSession ctx msg id _ _) ctx.height64

end Invariant

/-! ### Openings -/

/-- An opening that succeeds: the state that it finds, the message, and the id of the session. -/
structure Opening (β : Type) where
  before : KeeperState β
  msg : MsgOpenRetrievalSession
  sessionId : Bytes

/-- The use of its nonce. -/
def Opening.use (o : Opening β) : ((Str ×ₗ Nat) ×ₗ Str) × UInt64 :=
  (sessionNonceKey o.msg, o.msg.nonce)

/-- The opening of a run of the handler, if it succeeds. -/
def Opening.ofResult (s : KeeperState β) (msg : MsgOpenRetrievalSession) :
    Except Fault Bytes → List (Opening β)
  | .ok sessionId => [⟨s, msg, sessionId⟩]
  | .error _ => []

/-- The openings of a loop of the precompile, up to the first that fails. -/
def Precompile.openingsOf (env : Env β) (ctx : Ctx) (creator : Str) (method : String) :
    KeeperState β → List Precompile.OpenSessionInput → List (Opening β)
  | _, [] => []
  | s, input :: rest =>
      match (Precompile.openSession env ctx creator method input).exec s with
      | (.ok sessionId, s') =>
          ⟨s, input.toMsg creator, sessionId⟩ ::
            Precompile.openingsOf env ctx creator method s' rest
      | (.error _, _) => []

/-- The openings of an event. -/
def Event.opened (env : Env β) (s : KeeperState β) : Event → List (Opening β)
  | .deliver ctx (.openRetrievalSession msg) =>
      Opening.ofResult s msg ((openRetrievalSession env ctx msg).exec s).1
  | .call ctx input =>
      if input.readonly then []
      else
        match input.call with
        | .ok (.openRetrievalSession session) =>
            Precompile.openingsOf env ctx (env.codec.accAddressString input.caller)
              "openRetrievalSession" s [session]
        | .ok (.openRetrievalSessions sessions) =>
            Precompile.openingsOf env ctx (env.codec.accAddressString input.caller)
              "openRetrievalSessions" s sessions
        | _ => []
  | _ => []

/-- The openings go from one state to the other: each finds no session under its id, and they use
their nonces in order. -/
structure Opens (env : Env β) (hashed : Set Bytes) (s : KeeperState β) (os : List (Opening β))
    (s' : KeeperState β) : Prop where
  fresh : ∀ o ∈ os, o.before.retrievalSessions.get o.sessionId = none
  nonces : Consumes 0 s.retrievalSessionNonces (os.map (·.use)) s'.retrievalSessionNonces
  indexed : SessionsIndexed env hashed s'

section Opens

variable {env : Env β} {hashed : Set Bytes} {e : Event} {ctx : Ctx} {s s' s'' : KeeperState β}

/-- No opening. -/
theorem Opens.none (h : SessionsIndexed env hashed s')
    (hnonces : s'.retrievalSessionNonces = s.retrievalSessionNonces) : Opens env hashed s [] s' :=
  ⟨nofun, .of_eq hnonces, h⟩

/-- Openings one after the other. -/
theorem Opens.append {os os' : List (Opening β)} (h : Opens env hashed s os s')
    (h' : Opens env hashed s' os' s'') : Opens env hashed s (os ++ os') s'' := by
  refine ⟨fun o ho => ?_, ?_, h'.indexed⟩
  · rcases List.mem_append.mp ho with ho | ho
    · exact h.fresh o ho
    · exact h'.fresh o ho
  · rw [List.map_append]
    exact h.nonces.append h'.nonces

/-- An event that leaves the sessions alone opens none. -/
theorem Opens.of_kept (h : SessionsIndexed env hashed s) (hmoved : Moved env e s s')
    (hkept : SessionsKept s s') :
      Opens env hashed s [] s' := .none (h.kept hmoved hkept) hkept.nonces

/-- An accepted opening adds itself to the index. -/
theorem Opens.one {msg : MsgOpenRetrievalSession} {id : Bytes} {plan : OpenPlan}
    (h : SessionsIndexed env hashed s) (hinj : Set.InjOn env.keccak256 hashed)
    (hmem : ∀ b, msg.preimage env.codec = some b → b ∈ hashed)
    (hopened : SessionOpened env ctx msg s s' plan id) :
    Opens env hashed s [⟨s, msg, id⟩] s' := by
  obtain ⟨hfresh, hindexed⟩ := h.opened hinj hmem hopened
  refine ⟨fun o ho => ?_, ?_, hindexed⟩
  · cases List.mem_singleton.mp ho
    exact hfresh
  · obtain ⟨-, hnonce, -, s₁, hfees, rfl⟩ := hopened
    have hnonces : s₁.retrievalSessionNonces = s.retrievalSessionNonces := by rw [hfees.frame]
    simp only [storeSession, hnonces]
    exact .one hnonce

end Opens

/-! ### Calls of the precompile -/

section Calls

variable {env : Env β} {hashed : Set Bytes} {ctx : Ctx} {s s' : KeeperState β}

/-- An opening that fails leaves the invariant. -/
theorem openRetrievalSession_kept {msg : MsgOpenRetrievalSession} {e : Fault}
    (h : SessionsIndexed env hashed s)
    (hfail : (openRetrievalSession env ctx msg).exec s = (.error e, s')) :
    Opens env hashed s [] s' := by
  have hmoved : Moved env (.endBlock ctx) s s' :=
    ((keeps_openRetrievalSession EscrowOnly.serves msg s).of_exec hfail).toQuiet.moved
  refine .of_kept h hmoved ?_
  rw [openRetrievalSession_fails hfail]
  exact ⟨rfl, rfl, rfl, rfl⟩

/-- A confirmation leaves the invariant, whether it fails or not. The precompile keeps what a failed
one has written. -/
theorem confirmRetrievalSession_kept {msg : MsgConfirmRetrievalSession} {res : Except Fault Unit}
    (h : SessionsIndexed env hashed s)
    (hexec : (confirmRetrievalSession env ctx msg).exec s = (res, s')) :
    Opens env hashed s [] s' := by
  have hmoved : Moved env (.endBlock ctx) s s' :=
    ((keeps_confirmRetrievalSession EscrowOnly.serves msg s).of_exec hexec).toQuiet.moved
  -- it moves the session on, or fails in one of three ways
  cases res with
  | ok u =>
      obtain ⟨session, hget, -, -, hadvanced⟩ := confirmRetrievalSession_ok hexec
      obtain ⟨session', hsame, hkept⟩ := hadvanced.sessions hget
      exact .none (h.progress hmoved hget hsame hkept) hkept.nonces
  | error e =>
      cases confirmRetrievalSession_error hexec with
      | unknown => exact .of_kept h hmoved ⟨rfl, rfl, rfl, rfl⟩
      | @expired session hget hexp =>
          have hsame : ProgressOnly session (expireSession ctx session) := rfl
          have hkept : SessionsKept { s with
              retrievalSessions :=
                s.retrievalSessions.set msg.sessionId (expireSession ctx session) }
              (setSession (expireSession ctx session) msg.sessionId s) := ⟨rfl, rfl, rfl, rfl⟩
          exact .none (h.progress hmoved hget hsame hkept) rfl
      | unpaid => exact .of_kept h hmoved ⟨rfl, rfl, rfl, rfl⟩

namespace Precompile

/-- One opening of a call. It is listed when it succeeds, and leaves the stores alone when it
fails. -/
theorem openSession_opens {creator : Str} {method : String} {input : OpenSessionInput}
    {res : Except Fault Bytes} (h : SessionsIndexed env hashed s)
    (hinj : Set.InjOn env.keccak256 hashed)
    (hmem : ∀ b, (input.toMsg creator).preimage env.codec = some b → b ∈ hashed)
    (hexec : (openSession env ctx creator method input).exec s = (res, s')) :
    Opens env hashed s
      (Opening.ofResult s (input.toMsg creator) res) s' := by
  cases res with
  | ok sessionId =>
      rw [openSession, Tx.exec_ofExcept_bind_ok] at hexec
      obtain ⟨_, -, hexec⟩ := hexec
      rw [Tx.exec_bind_ok] at hexec
      obtain ⟨id, s₁, hopen, hlast⟩ := hexec
      simp only [Tx.exec_failIf_bind_ok, Tx.exec_pure, Prod.mk.injEq, Except.ok.injEq] at hlast
      -- the opening is listed with its id
      obtain ⟨-, rfl, rfl⟩ := hlast
      obtain ⟨plan, hopened⟩ := openRetrievalSession_ok hopen
      exact .one h hinj hmem hopened
  | error e =>
      -- the form of the input, or the opening, is refused
      rw [openSession, Tx.exec_ofExcept_bind_error] at hexec
      rcases hexec with ⟨-, rfl⟩ | ⟨_, -, hexec⟩
      · exact .none h rfl
      · rcases Tx.exec_bind_error.mp hexec with hopen | ⟨id, s₁, hopen, hlast⟩
        · exact openRetrievalSession_kept h hopen
        · -- A session id is a hash, so its length is not wrong.
          obtain ⟨plan, hopened⟩ := openRetrievalSession_ok hopen
          obtain ⟨-, -, -, rfl⟩ := sessionIdOf_ok hopened.sessionId_eq
          simp only [Tx.exec_failIf_bind_error, env.length_keccak256, ne_eq, not_true_eq_false,
            false_and, false_or, not_false_eq_true, true_and, Tx.exec_pure] at hlast
          cases hlast

/-- The loop over the openings of a call. It stops at the first failure, and keeps what was opened
before it. -/
theorem openSessions_opens {creator : Str} {inputs : List OpenSessionInput}
    {res : Except Fault (List Bytes)} (h : SessionsIndexed env hashed s)
    (hinj : Set.InjOn env.keccak256 hashed)
    (hmem : ∀ input ∈ inputs, ∀ b, (input.toMsg creator).preimage env.codec = some b → b ∈ hashed)
    (hexec : (openSessions env ctx creator inputs).exec s = (res, s')) :
    Opens env hashed s (openingsOf env ctx creator "openRetrievalSessions" s inputs) s' := by
  -- by the list of the inputs
  induction inputs generalizing s res with
  | nil =>
      cases hexec
      exact .none h rfl
  | cons input rest ih =>
      cases hone : (openSession env ctx creator "openRetrievalSessions" input).exec s with
      | mk r s₁ =>
          have hfirst := openSession_opens h hinj (hmem input List.mem_cons_self) hone
          rw [openSessions, Tx.exec_bind, hone] at hexec
          rw [openingsOf, hone]
          cases r with
          | error e =>
              cases hexec
              exact hfirst
          | ok sessionId =>
              obtain ⟨res', hrest⟩ := Tx.exec_bind_pure hexec
              exact hfirst.append
                (ih hfirst.indexed (fun i hi => hmem i (List.mem_cons_of_mem _ hi)) hrest)

/-- The loop over the confirmations of a call. -/
theorem confirmSessions_opens {creator : Str} {sessionIds : List Bytes}
    {res : Except Fault Unit} (h : SessionsIndexed env hashed s)
    (hexec : (confirmSessions env ctx creator sessionIds).exec s = (res, s')) :
    Opens env hashed s [] s' := by
  induction sessionIds generalizing s with
  | nil =>
      cases hexec
      exact .none h rfl
  | cons sessionId rest ih =>
      cases hone : (confirmRetrievalSession env ctx ⟨creator, sessionId⟩).exec s with
      | mk r s₁ =>
          have hfirst := confirmRetrievalSession_kept h hone
          rw [confirmSessions, Tx.exec_bind, hone] at hexec
          cases r with
          | error e =>
              cases hexec
              exact hfirst
          | ok u => exact hfirst.append (ih hfirst.indexed hexec)

/-- A call, whether it fails or not. The two methods that open sessions list them, and the rest
lists nothing. -/
theorem run_opens {input : Input} {res : Except Fault Output} (h : SessionsIndexed env hashed s)
    (hinj : Set.InjOn env.keccak256 hashed) (hmem : HashesIn env hashed (.call ctx input))
    (hexec : (run env ctx input).exec s = (res, s')) :
    Opens env hashed s ((Event.call ctx input).opened env s) s' := by
  have happly : apply env s (.call ctx input) = s' := by rw [apply, hexec]
  have hmoved : Moved env (.call ctx input) s s' := happly ▸ apply_moved h.wellFormed _
  -- a call that is not served opens nothing
  rcases run_cases hexec with ⟨hstop, -, rfl⟩ | ⟨hread, call, hcall, hserve⟩
  · have hnone : (Event.call ctx input).opened env s' = [] := by
      rw [Event.opened]
      rcases hstop with hread | ⟨text, hcall⟩
      · rw [if_pos hread]
      · rw [hcall]
        split <;> rfl
    rw [hnone]
    exact .none h rfl
  · simp only [Event.opened, hread, Bool.false_eq_true, if_false, hcall]
    simp only [HashesIn, Event.openings, hcall] at hmem
    cases call with
    | createDeal duration hint escrow spend =>
        refine .of_kept h hmoved ?_
        rw [serve_deals_frame hserve trivial]
        exact ⟨rfl, rfl, rfl, rfl⟩
    | updateDealContent dealId root size =>
        refine .of_kept h hmoved ?_
        rw [serve_deals_frame hserve trivial]
        exact ⟨rfl, rfl, rfl, rfl⟩
    | proveRetrievalBatch dealId provider filePath nonce chunks =>
        refine .of_kept h hmoved ?_
        -- the accounts of the batch are not those of the sessions
        cases res with
        | ok r =>
            obtain ⟨deal, amount, -, -, hframe⟩ := runProveRetrievalBatch_ok hserve
            rw [hframe]
            exact ⟨rfl, rfl, rfl, rfl⟩
        | error e =>
            have hheat := runProveRetrievalBatch_fails hserve
            rw [HeatOnly] at hheat
            rw [hheat]
            exact ⟨rfl, rfl, rfl, rfl⟩
    | openRetrievalSession session =>
        obtain ⟨res', hopen⟩ := Tx.exec_bind_pure hserve
        have hone := openSession_opens h hinj (hmem _ List.mem_cons_self) hopen
        cases res' with
        | ok sessionId =>
            simp only [openingsOf, hopen]
            exact hone
        | error e =>
            simp only [openingsOf, hopen]
            exact hone
    | openRetrievalSessions sessions =>
        have hserve : (runOpenRetrievalSessions env ctx input.caller sessions).exec s =
          (res, s') := hserve
        rw [runOpenRetrievalSessions, Tx.exec_bind, Tx.exec_failIf] at hserve
        -- an empty list is refused
        by_cases hnil : sessions = []
        · subst hnil
          cases hserve
          exact .none h rfl
        · rw [if_neg hnil] at hserve
          obtain ⟨res', hopen⟩ := Tx.exec_bind_pure hserve
          refine openSessions_opens h hinj (fun i hi => ?_) hopen
          exact hmem _ (List.mem_map_of_mem hi)
    | computeRetrievalSessions sessions =>
        cases (Prod.mk.inj hserve).2
        exact .none h rfl
    | computeRetrievalSessionIds sessions =>
        cases (Prod.mk.inj hserve).2
        exact .none h rfl
    | confirmRetrievalSession sessionId =>
        obtain ⟨res', hconfirm⟩ := Tx.exec_bind_pure hserve
        exact confirmRetrievalSession_kept h hconfirm
    | confirmRetrievalSessions sessionIds =>
        have hserve : (runConfirmRetrievalSessions env ctx input.caller sessionIds).exec s =
          (res, s') := hserve
        rw [runConfirmRetrievalSessions, Tx.exec_bind, Tx.exec_failIf] at hserve
        by_cases hnil : sessionIds = []
        · rw [if_pos hnil] at hserve
          cases hserve
          exact .none h rfl
        · rw [if_neg hnil] at hserve
          obtain ⟨res', hconfirm⟩ := Tx.exec_bind_pure hserve
          exact confirmSessions_opens h hconfirm

end Precompile

end Calls

/-! ### Every event -/

section Events

variable {env : Env β} {hashed : Set Bytes} {ctx : Ctx} {s s' : KeeperState β}

/-- A delivered message that succeeds. Only four messages touch the sessions. -/
theorem handle_opens {msg : Msg} {u : Unit} (h : SessionsIndexed env hashed s)
    (hinj : Set.InjOn env.keccak256 hashed) (hmem : HashesIn env hashed (.deliver ctx msg))
    (hexec : (handle env ctx msg).exec s = (.ok u, s')) :
    Opens env hashed s ((Event.deliver ctx msg).opened env s) s' := by
  have hmoved := handle_moved h.wellFormed hexec
  by_cases hmsg : msg.isSession
  -- by the message on sessions
  · cases msg with
    | openRetrievalSession msg =>
        obtain ⟨id, hopen⟩ := discard_ok.mp hexec
        obtain ⟨plan, hopened⟩ := openRetrievalSession_ok hopen
        rw [Event.opened, hopen]
        exact .one h hinj (hmem msg List.mem_cons_self) hopened
    | confirmRetrievalSession msg => exact confirmRetrievalSession_kept h hexec
    | cancelRetrievalSession msg =>
        obtain ⟨session, hget, -, hcanceled⟩ := cancelRetrievalSession_ok hexec
        obtain ⟨session', hsame, hkept⟩ := hcanceled.sessions hget
        exact .none (h.progress hmoved hget hsame hkept) hkept.nonces
    | submitRetrievalSessionProof msg =>
        obtain ⟨session, hget, -, -, -, hadvanced⟩ := submitRetrievalSessionProof_ok hexec
        obtain ⟨session', hsame, hkept⟩ := hadvanced.sessions hget
        exact .none (h.progress hmoved hget hsame hkept) hkept.nonces
    | _ => exact hmsg.elim
  · have hnone : (Event.deliver ctx msg).opened env s = [] := by
      cases msg <;> first | rfl | exact absurd trivial hmsg
    rw [hnone]
    exact .of_kept h hmoved ((handle_frame hexec).sessions hmsg)

/-- Every event. A failed message is rolled back and opens nothing. -/
theorem apply_opens (e : Event) (h : SessionsIndexed env hashed s)
    (hinj : Set.InjOn env.keccak256 hashed) (hmem : HashesIn env hashed e) :
    Opens env hashed s (e.opened env s) (apply env s e) := by
  cases e with
  -- a message: accepted, or rolled back
  | deliver ctx msg =>
      cases hexec : (handle env ctx msg).exec s with
      | mk res s' =>
          cases res with
          | ok u =>
              have happly : apply env s (.deliver ctx msg) = s' := Tx.commitOrRollback_of_ok hexec
              rw [happly]
              exact handle_opens h hinj hmem hexec
          | error fault =>
              have happly : apply env s (.deliver ctx msg) = s := Tx.commitOrRollback_of_error hexec
              have hnone : (Event.deliver ctx msg).opened env s = [] := by
                cases msg with
                | openRetrievalSession msg =>
                    have hfail : (discard (openRetrievalSession env ctx msg)).exec s =
                      (.error fault, s') := hexec
                    rcases Tx.exec_bind_error.mp hfail with hopen | ⟨id, s₁, -, hlast⟩
                    · rw [Event.opened, hopen]
                      rfl
                    · cases hlast
                | _ => rfl
              rw [happly, hnone]
              exact .none h rfl
  | endBlock ctx =>
      have hmoved := apply_moved h.wellFormed (.endBlock ctx)
      refine .of_kept h hmoved ?_
      rw [apply, (checkMissedProofs_spec env ctx s).frame]
      exact ⟨rfl, rfl, rfl, rfl⟩
  -- a call, with what it has written
  | call ctx input =>
      cases hexec : (Precompile.run env ctx input).exec s with
      | mk res s' =>
          have hopens := Precompile.run_opens h hinj hmem hexec
          rw [apply, hexec]
          exact hopens

end Events

/-! ### Every run -/

/-- The bytes that the openings of a run hash, those of calls included. -/
def openingPreimages (env : Env β) (es : List Event) : Set Bytes :=
  { b | ∃ e ∈ es, ∃ msg ∈ e.openings env, msg.preimage env.codec = some b }

section Run

variable {env : Env β} {params : Params} {b : β} {es : List Event}

/-- The run has its openings, one after the other. -/
theorem run_opens {hashed : Set Bytes} (hinj : Set.InjOn env.keccak256 hashed)
    (hmem : ∀ e ∈ es, HashesIn env hashed e) :
    Opens env hashed (genesis params b)
      (trace (apply env) (fun s e => e.opened env s) (genesis params b) es)
      (run (apply env) (genesis params b) es) := by
  induction es using List.reverseRecOn with
  | nil =>
      refine .none ⟨genesis_wellFormed env params b, nofun, ?_, ?_⟩ rfl
      · exact fun name id => by simp [genesis, KeeperState.empty]
      · exact fun name id => by simp [genesis, KeeperState.empty]
  | append_singleton past e ih =>
      have hpast := ih fun e he => hmem e (List.mem_append_left _ he)
      rw [trace_snoc, run_snoc]
      exact hpast.append (apply_opens e hpast.indexed hinj (hmem e (by simp)))

end Run

/-- Sessions are created once and stay indexed. Take a run whose session identities do not collide.
Every opening that succeeds, in a message or in a call, finds no session under its id. For one
owner, deal and provider, the nonces of the openings strictly increase. In the state that is
reached, the indexes have the owner and the provider of each stored session and nothing else, and
each session lies under the id that its fields hash to. -/
theorem sessions_created_once (env : Env β) (params : Params) (b : β) (es : List Event)
    (hcollision : Set.InjOn env.keccak256 (openingPreimages env es)) :
    let opened := trace (apply env) (fun s e => e.opened env s) (genesis params b) es
    let s := run (apply env) (genesis params b) es
    (∀ o ∈ opened, o.before.retrievalSessions.get o.sessionId = none) ∧
    opened.Pairwise (fun o o' => o.msg.creator = o'.msg.creator → o.msg.dealId = o'.msg.dealId →
      o.msg.provider = o'.msg.provider → o.msg.nonce < o'.msg.nonce) ∧
    (∀ owner id, (s.retrievalSessionsByOwner.get (join owner id)).isSome ↔
      ∃ session, s.retrievalSessions.get id = some session ∧ session.owner = owner) ∧
    (∀ provider id, (s.retrievalSessionsByProvider.get (join provider id)).isSome ↔
      ∃ session, s.retrievalSessions.get id = some session ∧ session.provider = provider) ∧
    (∀ id session, s.retrievalSessions.get id = some session → session.sessionId = id ∧
      ∃ owner provider, env.codec.accAddressFromBech32 session.owner = some owner ∧
        env.codec.accAddressFromBech32 session.provider = some provider ∧
        hashRetrievalSessionID env.keccak256 owner session.dealId provider session.manifestRoot
          session.startMduIndex session.startBlobIndex session.blobCount session.nonce
          session.expiresAt = .ok id) := by
  intro opened s
  -- the openings of the run are listed one event after the other
  have hopens : Opens env (openingPreimages env es) (genesis params b) opened s :=
    run_opens hcollision fun e he msg hmsg b hb => ⟨e, he, msg, hmsg, hb⟩
  refine ⟨hopens.fresh, ?_, hopens.indexed.byOwner, hopens.indexed.byProvider,
    fun id session hget => ?_⟩
  · have hincreasing := List.pairwise_map.mp hopens.nonces.increasing
    refine hincreasing.imp fun {o o'} hlt hcreator hdeal hprovider => hlt ?_
    show sessionNonceKey o.msg = sessionNonceKey o'.msg
    rw [sessionNonceKey, sessionNonceKey, hcreator, hdeal, hprovider]
  -- the fields of the session are those that were hashed
  · have hsound := hopens.indexed.sound id session hget
    obtain ⟨owner, provider, howner, hprovider, hlength, hlength', hroot, -, hhash⟩ :=
      hsound.identity
    refine ⟨hsound.sessionId, owner, provider, howner, hprovider, ?_⟩
    rw [hashRetrievalSessionID, if_neg (not_not.mpr hlength), if_neg (not_not.mpr hlength'),
      if_neg (not_not.mpr hroot), hhash]
    rfl

/-- A second session of the same owner, deal and provider, over the next blob. -/
def nextOpenMsg : MsgOpenRetrievalSession :=
  { openMsg with startBlobIndex := 2, blobCount := 1, nonce := 2 }

/-- The Keccak-256 of its identity. -/
def nextOpenId : Bytes :=
  [0x41, 0x6b, 0x0e, 0xd8, 0x80, 0xbc, 0x11, 0xff, 0xa5, 0xc4, 0x11, 0x43, 0x2d, 0x8c, 0x23, 0x17,
    0x91, 0x3c, 0x6e, 0x65, 0xc0, 0x2d, 0xeb, 0xb0, 0x3e, 0xfe, 0xc7, 0xc1, 0x11, 0x75, 0x47, 0x53]

/-- The digests of the ids of both openings. -/
def twoOpensKeccak : HashTable where
  entries := openKeccak.entries ++
    [(sessionIdPreimage ownerAddr 0 providerAddr (List.replicate 48 0) 0 2 1 2 100, nextOpenId)]
  lengths := by decide

/-- The small chain, with both sessions. -/
def twoOpensRun : List Event :=
  openRun ++ [.deliver (ctxAt 3) (.openRetrievalSession nextOpenMsg)]

/-- The two identities of the run have different hashes. The table of the sample hash lists both. -/
theorem twoOpensRun_injOn : Set.InjOn (sampleEnv twoOpensKeccak []).keccak256
    (openingPreimages (sampleEnv twoOpensKeccak []) twoOpensRun) := by
  have hopenings : twoOpensRun.flatMap (·.openings (sampleEnv twoOpensKeccak [])) =
      [openMsg, nextOpenMsg] := by
    decide +kernel
  -- whatever is hashed in the run is in the table
  have hpreimages : ∀ b ∈ openingPreimages (sampleEnv twoOpensKeccak []) twoOpensRun,
      b ∈ twoOpensKeccak.entries.map (·.1) := by
    rintro b ⟨e, he, msg, hm, hb⟩
    have hmem : msg ∈ twoOpensRun.flatMap (·.openings (sampleEnv twoOpensKeccak [])) :=
      List.mem_flatMap.mpr ⟨e, he, hm⟩
    rw [hopenings] at hmem
    have hlisted : ∀ msg ∈ [openMsg, nextOpenMsg],
        (msg.preimage (sampleEnv twoOpensKeccak []).codec).all
          (· ∈ twoOpensKeccak.entries.map (·.1)) =
          true := by
      decide +kernel
    have hall := hlisted msg hmem
    rw [hb, Option.all_some] at hall
    exact of_decide_eq_true hall
  have hhashes :
      ((twoOpensKeccak.entries.map (·.1)).map (sampleEnv twoOpensKeccak []).keccak256).Nodup := by
    decide +kernel
  intro b hb b' hb' heq
  exact List.inj_on_of_nodup_map hhashes (hpreimages b hb) (hpreimages b' hb') heq

/-- Both sessions are opened in the run, with increasing nonces, and the owner's index finds
both. -/
theorem sessions_created_once_twoOpens :
    (trace (apply (sampleEnv twoOpensKeccak [])) (fun s e =>
        e.opened (sampleEnv twoOpensKeccak []) s)
        (genesis defaultParams sampleBank) twoOpensRun).map (fun o => (o.sessionId, o.msg.nonce)) =
      [(openId, 1), (nextOpenId, 2)] ∧
    ∀ id ∈ [openId, nextOpenId], ∃ session, (run (apply (sampleEnv twoOpensKeccak []))
      (genesis defaultParams sampleBank) twoOpensRun).retrievalSessions.get id = some session ∧
        session.owner = ownerText := by
  obtain ⟨-, -, howner, -⟩ :=
    sessions_created_once
      (sampleEnv twoOpensKeccak []) defaultParams sampleBank twoOpensRun twoOpensRun_injOn
  have hindexed : ∀ id ∈ [openId, nextOpenId], ((run (apply (sampleEnv twoOpensKeccak []))
      (genesis defaultParams sampleBank) twoOpensRun).retrievalSessionsByOwner.get
        (join ownerText id)).isSome = true := by
    decide +kernel
  exact ⟨by decide +kernel, fun id hid => (howner ownerText id).mp (hindexed id hid)⟩

end NilStore.Chain
