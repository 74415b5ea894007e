import NilStore.Proofs.Frames
import Mathlib.Data.Set.Function

/-!
# `NilStore.Proofs.SessionSteps`: what one event does to retrieval sessions

A session is stored under the hash of its identity: owner, deal, provider, root, range, nonce and
expiry. Opening asks for a nonce above the last one of its owner, deal and provider, so while the
hash has no collision on the identities of a run, an opening never writes over a session
(`SessionsSound.fresh`).

`SessionStep` names what a delivered message may do to a stored session: nothing, or what its
owner or its provider asks for. `deliver_sessions` shows it of every message, and
`run_sessionsSound` is the invariant over whole runs. A call of the precompile keeps what it
wrote when it fails, so the runs here are those of messages and ends of blocks.
-/

set_option autoImplicit false

namespace NilStore.Chain

open NilStore.Lib

variable {β : Type}

/-! ### The identity of a session -/

section Identity

variable {owner owner' provider provider' root root' : Bytes}
  {d d' mdu mdu' count count' nonce nonce'
  expires expires' : UInt64} {blob blob' : UInt32}

/-- The fields of a session id have fixed widths, so the preimage determines them. -/
theorem sessionIdPreimage_inj (hprovider : provider.length = provider'.length)
    (hroot : root.length = root'.length)
    (h : sessionIdPreimage owner d provider root mdu blob count nonce expires =
      sessionIdPreimage owner' d' provider' root' mdu' blob' count' nonce' expires') :
    owner = owner' ∧ d = d' ∧ provider = provider' ∧ nonce = nonce' := by
  have hwidth : ∀ x y : UInt64, (uint64ToBigEndian x).length = (uint64ToBigEndian y).length :=
    fun x y => by rw [length_uint64ToBigEndian, length_uint64ToBigEndian]
  rw [sessionIdPreimage, sessionIdPreimage] at h
  -- The fields are split off from the right.
  obtain ⟨h, -⟩ := List.append_inj' h (hwidth _ _)
  obtain ⟨h, hnonce⟩ := List.append_inj' h (hwidth _ _)
  obtain ⟨h, -⟩ := List.append_inj' h (hwidth _ _)
  obtain ⟨h, -⟩ := List.append_inj' h (by rw [length_putUint32, length_putUint32])
  obtain ⟨h, -⟩ := List.append_inj' h (hwidth _ _)
  obtain ⟨h, -⟩ := List.append_inj' h hroot
  obtain ⟨h, hprovider⟩ := List.append_inj' h hprovider
  obtain ⟨howner, hd⟩ := List.append_inj' h (hwidth _ _)
  exact ⟨howner, uint64ToBigEndian_inj hd, hprovider, uint64ToBigEndian_inj hnonce⟩

end Identity

/-- The bytes that an opening hashes, when both addresses can be read. -/
def MsgOpenRetrievalSession.preimage (codec : AddressCodec) (msg : MsgOpenRetrievalSession) :
    Option Bytes := do
  let owner ← codec.accAddressFromBech32 msg.creator
  let provider ← codec.accAddressFromBech32 msg.provider
  return sessionIdPreimage owner msg.dealId provider msg.manifestRoot msg.startMduIndex
    msg.startBlobIndex msg.blobCount msg.nonce msg.expiresAt

/-- What the id of an opening is hashed from, once its two addresses are known. -/
theorem MsgOpenRetrievalSession.preimage_eq {codec : AddressCodec} {msg : MsgOpenRetrievalSession}
    {owner provider : Bytes} (howner : codec.accAddressFromBech32 msg.creator = some owner)
    (hprovider : codec.accAddressFromBech32 msg.provider = some provider) :
    msg.preimage codec = some (sessionIdPreimage owner msg.dealId provider msg.manifestRoot
      msg.startMduIndex msg.startBlobIndex msg.blobCount msg.nonce msg.expiresAt) := by
  simp [preimage, howner, hprovider]

/-- The bytes that the openings of a run hash. -/
def sessionPreimages (env : Env β) (es : List Event) : Set Bytes :=
  { b | ∃ ctx msg, Event.deliver ctx (.openRetrievalSession msg) ∈ es ∧
    msg.preimage env.codec = some b }

/-- More events hash more. -/
theorem sessionPreimages_mono {env : Env β} {es fs : List Event} (h : es ⊆ fs) :
    sessionPreimages env es ⊆ sessionPreimages env fs := by
  rintro b ⟨ctx, msg, hmem, hb⟩
  exact ⟨ctx, msg, h hmem, hb⟩

/-- The openings that an event asks for. -/
def Event.openings (env : Env β) : Event → List MsgOpenRetrievalSession
  | .deliver _ (.openRetrievalSession msg) => [msg]
  | .call _ input =>
      match input.call with
      | .ok (.openRetrievalSession session) =>
          [session.toMsg (env.codec.accAddressString input.caller)]
      | .ok (.openRetrievalSessions sessions) =>
          sessions.map (·.toMsg (env.codec.accAddressString input.caller))
      | _ => []
  | _ => []

/-- The set has the bytes that the event may hash. -/
def HashesIn (env : Env β) (hashed : Set Bytes) (e : Event) : Prop :=
  ∀ msg ∈ e.openings env, ∀ b, msg.preimage env.codec = some b → b ∈ hashed

/-- The session id of an opening is the hash of its bytes. -/
theorem sessionIdOf_ok {env : Env β} {msg : MsgOpenRetrievalSession} {plan : OpenPlan}
    {sessionId : Bytes} (h : sessionIdOf env msg plan = .ok sessionId) :
    plan.ownerAddr.length = 20 ∧ plan.providerAddr.length = 20 ∧ msg.manifestRoot.length = 48 ∧
      sessionId = env.keccak256 (sessionIdPreimage plan.ownerAddr msg.dealId plan.providerAddr
        msg.manifestRoot msg.startMduIndex msg.startBlobIndex msg.blobCount msg.nonce
        msg.expiresAt) := by
  rw [sessionIdOf, hashRetrievalSessionID] at h
  by_cases howner : plan.ownerAddr.length ≠ 20
  · rw [if_pos howner] at h
    cases h
  by_cases hprovider : plan.providerAddr.length ≠ 20
  · rw [if_neg howner, if_pos hprovider] at h
    cases h
  by_cases hroot : msg.manifestRoot.length ≠ 48
  · rw [if_neg howner, if_neg hprovider, if_pos hroot] at h
    cases h
  · rw [if_neg howner, if_neg hprovider, if_neg hroot] at h
    cases h
    exact ⟨not_not.mp howner, not_not.mp hprovider, not_not.mp hroot, rfl⟩

/-! ### The invariant -/

/-- Nothing but status, fee and date of a session has changed. -/
def ProgressOnly (session session' : RetrievalSession) : Prop :=
  session' = { session with
    status := session'.status
    updatedHeight := session'.updatedHeight
    lockedFee := session'.lockedFee }

/-- A stored session: it lies under the hash of its identity, which was hashed, its deal has its
owner, its provider is registered, and its nonce was consumed. -/
structure SessionSound (env : Env β) (hashed : Set Bytes) (s : KeeperState β) (id : Bytes)
    (session : RetrievalSession) : Prop where
  sessionId : session.sessionId = id
  identity : ∃ owner provider, env.codec.accAddressFromBech32 session.owner = some owner ∧
    env.codec.accAddressFromBech32 session.provider = some provider ∧
    owner.length = 20 ∧ provider.length = 20 ∧ session.manifestRoot.length = 48 ∧
    sessionIdPreimage owner session.dealId provider session.manifestRoot session.startMduIndex
      session.startBlobIndex session.blobCount session.nonce session.expiresAt ∈ hashed ∧
    env.keccak256 (sessionIdPreimage owner session.dealId provider session.manifestRoot
      session.startMduIndex session.startBlobIndex session.blobCount session.nonce
      session.expiresAt) = id
  nonce_le : session.nonce ≤ lastNonce s.retrievalSessionNonces
    (join (join session.owner session.dealId.toNat) session.provider)
  deal : ∃ deal, s.deals.get session.dealId.toNat = some deal ∧ deal.owner = session.owner
  registered : s.registered session.provider

/-- Every stored session is sound. -/
def SessionsSound (env : Env β) (hashed : Set Bytes) (s : KeeperState β) : Prop :=
  ∀ id session, s.retrievalSessions.get id = some session → SessionSound env hashed s id session

/-- Sessions that are sound for some preimages are sound for more. -/
theorem SessionsSound.mono {env : Env β} {hashed hashed' : Set Bytes} {s : KeeperState β}
    (h : SessionsSound env hashed s) (hsub : hashed ⊆ hashed') : SessionsSound env hashed' s := by
  intro id session hget
  have hsound := h id session hget
  obtain ⟨owner, provider, howner, hprovider, hlength, hlength', hroot, hpre, hhash⟩ :=
    hsound.identity
  exact { hsound with
    identity := ⟨owner, provider, howner, hprovider, hlength, hlength', hroot, hsub hpre, hhash⟩ }

/-- The hash has no collision on the session identities of a run. -/
def NoSessionCollision (env : Env β) (es : List Event) : Prop :=
  Set.InjOn env.keccak256 (sessionPreimages env es)

section Fresh

variable {env : Env β} {ctx : Ctx} {hashed : Set Bytes} {msg : MsgOpenRetrievalSession}
  {s s' : KeeperState β} {plan : OpenPlan} {sessionId : Bytes}

/-- An opening finds no session under its id: one of the same identity has consumed the nonce. The
identity has the deal, both parties and the nonce. -/
theorem SessionsSound.fresh (hs : WellFormed env s) (h : SessionsSound env hashed s)
    (hinj : Set.InjOn env.keccak256 hashed)
    (hmem : ∀ b, msg.preimage env.codec = some b → b ∈ hashed)
    (hopened : SessionOpened env ctx msg s s' plan sessionId) :
    s.retrievalSessions.get sessionId = none := by
  obtain ⟨hplan, hnonce, hsid, -⟩ := hopened
  obtain ⟨hget, hcreator, -, hlisted, howner, hprovider⟩ := checkOpen_ok hplan
  obtain ⟨-, hlength, hroot, rfl⟩ := sessionIdOf_ok hsid
  rw [Option.eq_none_iff_forall_ne_some]
  intro session hfound
  -- suppose there is one: it has the same identity
  have hsound := h _ _ hfound
  obtain ⟨owner', provider', -, hprovider', -, hlength', hroot', hpre, hhash⟩ := hsound.identity
  have hbytes := hmem _ (msg.preimage_eq howner hprovider)
  obtain ⟨-, hd, rfl, hsame⟩ := sessionIdPreimage_inj (hlength'.trans hlength.symm)
    (hroot'.trans hroot.symm) (hinj hpre hbytes hhash)
  -- Deal, owner and provider are the same, so the last nonce is not below that of the session.
  obtain ⟨deal, hdeal, hdealOwner⟩ := hsound.deal
  rw [hd, hget] at hdeal
  cases hdeal
  have htext : session.provider = msg.provider :=
    (hs.canonical hsound.registered).eq (hs.canonical (hs.listed hget _ hlisted))
      (hprovider'.trans hprovider.symm)
  have hle := hsound.nonce_le
  rw [hd, ← hdealOwner, ← hcreator, htext, hsame] at hle
  exact absurd hnonce (UInt64.not_lt.mpr hle)

end Fresh

/-! ### The steps of a session -/

/-- What a delivered message may do to the session stored under an id. -/
inductive SessionStep (env : Env β) (e : Event) (s s' : KeeperState β) (id : Bytes)
    (session : RetrievalSession) : Prop where
  /-- Nothing. -/
  | kept (hget : s'.retrievalSessions.get id = some session)
  /-- The owner confirmed. -/
  | confirmed {ctx : Ctx} {msg : MsgConfirmRetrievalSession}
      (he : e = .deliver ctx (.confirmRetrievalSession msg)) (hid : msg.sessionId = id)
      (hok : (confirmRetrievalSession env ctx msg).exec s = (.ok (), s'))
      (howner : msg.creator = session.owner) (hexp : isSessionExpired ctx session = false)
      (hmoved : Advanced env ctx id confirmStatus session s s')
  /-- The provider submitted proofs. -/
  | submitted {ctx : Ctx} {msg : MsgSubmitRetrievalSessionProof}
      (he : e = .deliver ctx (.submitRetrievalSessionProof msg)) (hid : msg.sessionId = id)
      (hok : (submitRetrievalSessionProof env ctx msg).exec s = (.ok (), s'))
      (hprovider : msg.creator = session.provider) (hexp : isSessionExpired ctx session = false)
      (hmoved : Advanced env ctx id submitStatus session s s')
  /-- The owner cancelled. -/
  | canceled {ctx : Ctx} {msg : MsgCancelRetrievalSession}
      (he : e = .deliver ctx (.cancelRetrievalSession msg)) (hid : msg.sessionId = id)
      (howner : msg.creator = session.owner) (hmoved : Canceled ctx id session s s')

/-- What a delivered message does to all sessions. -/
structure SessionsMoved (env : Env β) (e : Event) (s s' : KeeperState β) : Prop where
  kept : ∀ {id session}, s.retrievalSessions.get id = some session →
    SessionStep env e s s' id session
  opened : ∀ {id session'}, s.retrievalSessions.get id = none →
    s'.retrievalSessions.get id = some session' →
    ∃ ctx msg plan, e = .deliver ctx (.openRetrievalSession msg) ∧
      SessionOpened env ctx msg s s' plan id ∧
      session' = newSession ctx msg id plan.totalBytes (variableFee s.getParams msg.blobCount)
  nonces : ∀ k, lastNonce s.retrievalSessionNonces k ≤ lastNonce s'.retrievalSessionNonces k

section Step

variable {env : Env β} {ctx : Ctx} {s s' : KeeperState β} {id : Bytes} {session : RetrievalSession}

/-- Sessions that did not change have moved by admissible steps. -/
theorem SessionsMoved.of_eq {e : Event} (hsessions : s'.retrievalSessions = s.retrievalSessions)
    (hnonces : s'.retrievalSessionNonces = s.retrievalSessionNonces) :
      SessionsMoved env e s s' := by
  refine ⟨fun {id session} hget => .kept (by rw [hsessions, hget]),
    fun {id session'} hnone hsome => ?_, fun k => hnonces ▸ UInt64.le_refl _⟩
  rw [hsessions, hnone] at hsome
  cases hsome

/-- Finishing a session writes it under its id, and nothing else to the sessions. -/
theorem Finished.sessions (h : Finished env ctx id session s s') :
    ∃ session', session' = { session with lockedFee := session'.lockedFee } ∧
      SessionsKept { s with retrievalSessions := s.retrievalSessions.set id session' } s' := by
  cases h with
  | settled hstatus hfee hpaid =>
      exact ⟨{ session with lockedFee := 0 }, rfl, ⟨rfl, rfl, rfl, rfl⟩⟩
  | free hstatus hfee => exact ⟨session, rfl, ⟨rfl, rfl, rfl, rfl⟩⟩
  | pending hstatus => exact ⟨session, rfl, ⟨rfl, rfl, rfl, rfl⟩⟩

/-- Advancing changes the progress of one session and no other. -/
theorem Advanced.sessions {next : RetrievalSessionStatus → RetrievalSessionStatus}
    (hget : s.retrievalSessions.get id = some session)
    (h : Advanced env ctx id next session s s') :
    ∃ session', ProgressOnly session session' ∧
      SessionsKept { s with retrievalSessions := s.retrievalSessions.set id session' } s' := by
  cases h with
  | unchanged hstatus =>
      exact ⟨session, rfl, ⟨(KVStore.set_get hget).symm, rfl, rfl, rfl⟩⟩
  | moved hstatus hfinished =>
      obtain ⟨session', hsame, hkept⟩ := hfinished.sessions
      refine ⟨session', ?_, hkept⟩
      rw [ProgressOnly, hsame]

/-- Canceling changes the progress of one session and no other. -/
theorem Canceled.sessions (hget : s.retrievalSessions.get id = some session)
    (h : Canceled ctx id session s s') :
    ∃ session', ProgressOnly session session' ∧
      SessionsKept { s with retrievalSessions := s.retrievalSessions.set id session' } s' := by
  cases h with
  | unchanged hstatus =>
      exact ⟨session, rfl, ⟨(KVStore.set_get hget).symm, rfl, rfl, rfl⟩⟩
  | refunded hstatus hexp hfee hdeal hevidence =>
      rw [EvidenceOnly] at hevidence
      rw [hevidence]
      exact ⟨canceledSession ctx session, rfl, ⟨rfl, rfl, rfl, rfl⟩⟩
  | free hstatus hexp hfee hevidence =>
      rw [EvidenceOnly] at hevidence
      rw [hevidence]
      exact ⟨canceledSession ctx session, rfl, ⟨rfl, rfl, rfl, rfl⟩⟩

/-- After a step the session is stored with its identity. -/
theorem SessionStep.progress {e : Event} (hget : s.retrievalSessions.get id = some session)
    (h : SessionStep env e s s' id session) :
    ∃ session', s'.retrievalSessions.get id = some session' ∧ ProgressOnly session session' := by
  cases h with
  | kept hget' => exact ⟨session, hget', rfl⟩
  | confirmed he hid hok howner hexp hmoved =>
      obtain ⟨session', hsame, hkept⟩ := hmoved.sessions hget
      exact ⟨session', by rw [hkept.sessions, KVStore.get_set_self], hsame⟩
  | submitted he hid hok hprovider hexp hmoved =>
      obtain ⟨session', hsame, hkept⟩ := hmoved.sessions hget
      exact ⟨session', by rw [hkept.sessions, KVStore.get_set_self], hsame⟩
  | canceled he hid howner hmoved =>
      obtain ⟨session', hsame, hkept⟩ := hmoved.sessions hget
      exact ⟨session', by rw [hkept.sessions, KVStore.get_set_self], hsame⟩

/-- A message that writes back one stored session. -/
theorem SessionsMoved.of_set {e : Event} {session' : RetrievalSession}
    (hget : s.retrievalSessions.get id = some session)
    (hkept : SessionsKept { s with retrievalSessions := s.retrievalSessions.set id session' } s')
    (hstep : SessionStep env e s s' id session) : SessionsMoved env e s s' := by
  have hset := hkept.sessions
  refine ⟨fun {id' session₀} hget' => ?_, fun {id' session₀} hnone hsome => ?_,
    fun k => hkept.nonces ▸ UInt64.le_refl _⟩
  · by_cases hid : id' = id
    · subst hid
      rw [hget] at hget'
      cases hget'
      exact hstep
    · exact .kept (by rw [hset, KVStore.get_set_ne _ hid, hget'])
  · rw [hset] at hsome
    rcases KVStore.get_set_some hsome with ⟨rfl, -⟩ | ⟨-, hold⟩
    · rw [hget] at hnone
      cases hnone
    · rw [hnone] at hold
      cases hold

/-- An opening under a fresh id. The other sessions are kept, and the nonce of its key goes up. -/
theorem SessionOpened.moved {msg : MsgOpenRetrievalSession} {plan : OpenPlan}
    (hfresh : s.retrievalSessions.get id = none)
    (h : SessionOpened env ctx msg s s' plan id) :
    SessionsMoved env (.deliver ctx (.openRetrievalSession msg)) s s' := by
  have hopened := h
  obtain ⟨-, hnonce, -, s₁, hfees, rfl⟩ := h
  have hsessions : s₁.retrievalSessions = s.retrievalSessions := by rw [hfees.frame]
  have hnonces : s₁.retrievalSessionNonces = s.retrievalSessionNonces := by rw [hfees.frame]
  -- old sessions, new sessions, and nonces
  refine ⟨fun {id' session} hget => .kept ?_, fun {id' session'} hnone hsome => ?_, fun k => ?_⟩
  · have hne : id' ≠ id := by
      rintro rfl
      rw [hfresh] at hget
      cases hget
    simp only [storeSession, newSession, hsessions]
    rw [KVStore.get_set_ne _ hne, hget]
  · simp only [storeSession, newSession, hsessions] at hsome
    rcases KVStore.get_set_some hsome with ⟨rfl, rfl⟩ | ⟨-, hold⟩
    · exact ⟨ctx, msg, plan, rfl, hopened, rfl⟩
    · rw [hnone] at hold
      cases hold
  · simp only [storeSession, hnonces, lastNonce]
    rw [KVStore.get_set]
    split
    · rename_i hk
      subst hk
      exact UInt64.le_of_lt hnonce
    · exact UInt64.le_refl _

/-- A delivered message that succeeds moves sessions as `SessionsMoved` says. There is a case for
each message on sessions. -/
theorem handle_sessions {hashed : Set Bytes} {msg : Msg} {u : Unit} (hs : WellFormed env s)
    (hsound : SessionsSound env hashed s) (hinj : Set.InjOn env.keccak256 hashed)
    (hmem : HashesIn env hashed (.deliver ctx msg))
    (h : (handle env ctx msg).exec s = (.ok u, s')) :
    SessionsMoved env (.deliver ctx msg) s s' := by
  -- by the message on sessions
  by_cases hmsg : msg.isSession
  · cases msg with
    | openRetrievalSession msg =>
        obtain ⟨id, h⟩ := discard_ok.mp h
        obtain ⟨plan, hopened⟩ := openRetrievalSession_ok h
        exact hopened.moved (hsound.fresh hs hinj (hmem msg List.mem_cons_self) hopened)
    | confirmRetrievalSession msg =>
        obtain ⟨session, hget, howner, hexp, hmoved⟩ := confirmRetrievalSession_ok h
        obtain ⟨session', -, hkept⟩ := hmoved.sessions hget
        exact .of_set hget hkept (.confirmed rfl rfl h howner hexp hmoved)
    | cancelRetrievalSession msg =>
        obtain ⟨session, hget, howner, hmoved⟩ := cancelRetrievalSession_ok h
        obtain ⟨session', -, hkept⟩ := hmoved.sessions hget
        exact .of_set hget hkept (.canceled rfl rfl howner hmoved)
    | submitRetrievalSessionProof msg =>
        obtain ⟨session, hget, hprovider, hexp, -, hmoved⟩ := submitRetrievalSessionProof_ok h
        obtain ⟨session', -, hkept⟩ := hmoved.sessions hget
        exact .of_set hget hkept (.submitted rfl rfl h hprovider hexp hmoved)
    | _ => exact hmsg.elim
  · have hkept := (handle_frame h).sessions hmsg
    exact .of_eq hkept.sessions hkept.nonces

end Step

/-! ### Runs of messages and ends of blocks -/

/-- The event is a message or the end of a block. -/
def Event.isMessage : Event → Prop
  | .call _ _ => False
  | _ => True

section Run

variable {env : Env β} {s : KeeperState β} {hashed : Set Bytes} {e : Event}

/-- What a message, successful or dropped, or the end of a block does to the sessions. -/
theorem apply_sessions (hs : WellFormed env s) (hsound : SessionsSound env hashed s)
    (hinj : Set.InjOn env.keccak256 hashed) (hmem : HashesIn env hashed e) (he : e.isMessage) :
    SessionsMoved env e s (apply env s e) := by
  cases e with
  | deliver ctx msg =>
      rcases deliver_cases env ctx msg s with heq | hok
      · rw [heq]
        exact .of_eq rfl rfl
      · exact handle_sessions hs hsound hinj hmem hok
  | endBlock ctx =>
      rw [apply, (checkMissedProofs_spec env ctx s).frame]
      exact .of_eq rfl rfl
  | call ctx input => exact he.elim

/-- A session stays sound while deals and providers move and nonces grow. -/
theorem SessionSound.moved {s' : KeeperState β} {id : Bytes} {session session' : RetrievalSession}
    (h : SessionSound env hashed s id session) (hmoved : Moved env e s s')
    (hnonces : ∀ k, lastNonce s.retrievalSessionNonces k ≤ lastNonce s'.retrievalSessionNonces k)
    (hsame : ProgressOnly session session') : SessionSound env hashed s' id session' := by
  rw [hsame]
  obtain ⟨deal, hdeal, hdealOwner⟩ := h.deal
  obtain ⟨deal', hdeal', hstep⟩ := hmoved.deals.kept hdeal
  exact ⟨h.sessionId, h.identity, UInt64.le_trans h.nonce_le (hnonces _),
    ⟨deal', hdeal', hstep.frame.2.1.trans hdealOwner⟩, hmoved.providers.kept h.registered⟩

/-- A new session is sound. -/
theorem SessionOpened.sound {ctx : Ctx} {msg : MsgOpenRetrievalSession} {s' : KeeperState β}
    {plan : OpenPlan} {id : Bytes} (hs : WellFormed env s) (hmoved : Moved env e s s')
    (hmem : ∀ b, msg.preimage env.codec = some b → b ∈ hashed)
    (h : SessionOpened env ctx msg s s' plan id) :
    SessionSound env hashed s' id
      (newSession ctx msg id plan.totalBytes (variableFee s.getParams msg.blobCount)) := by
  obtain ⟨hplan, -, hsid, s₁, -, rfl⟩ := h
  obtain ⟨hdeal, hcreator, -, hlisted, howner, hprovider⟩ := checkOpen_ok hplan
  obtain ⟨hlength, hlength', hroot, rfl⟩ := sessionIdOf_ok hsid
  obtain ⟨deal', hdeal', hstep⟩ := hmoved.deals.kept hdeal
  refine ⟨rfl,
    ⟨plan.ownerAddr, plan.providerAddr, howner, hprovider, hlength, hlength', hroot, ?_, rfl⟩,
    ?_, ⟨deal', hdeal', hstep.frame.2.1.trans hcreator.symm⟩,
    hmoved.providers.kept (hs.listed hdeal _ hlisted)⟩
  · exact hmem _ (msg.preimage_eq howner hprovider)
  · -- Storing the session has stored its nonce.
    show msg.nonce ≤ lastNonce (s₁.retrievalSessionNonces.set (sessionNonceKey msg) msg.nonce)
      (sessionNonceKey msg)
    rw [lastNonce, KVStore.get_set_self]
    exact UInt64.le_refl _

/-- The invariant goes through every step. -/
theorem SessionsMoved.sound {s' : KeeperState β} (hs : WellFormed env s)
    (hsound : SessionsSound env hashed s) (hmem : HashesIn env hashed e)
    (hmoved : Moved env e s s') (h : SessionsMoved env e s s') : SessionsSound env hashed s' := by
  intro id session' hget'
  cases hget : s.retrievalSessions.get id with
  | some session =>
      obtain ⟨session₁, hget₁, hsame⟩ := (h.kept hget).progress hget
      rw [hget'] at hget₁
      cases hget₁
      exact (hsound id session hget).moved hmoved h.nonces hsame
  | none =>
      obtain ⟨ctx, msg, plan, rfl, hopened, rfl⟩ := h.opened hget hget'
      exact hopened.sound hs hmoved (hmem msg List.mem_cons_self)

/-- The messages of a run, and no collision among their session identities. -/
def MessagesOnly (env : Env β) (past : List Event) (e : Event) : Prop :=
  e.isMessage ∧ NoSessionCollision env (past ++ [e])

/-- A run of messages whose openings do not collide. -/
theorem messagesOnly_along {es : List Event} (hes : ∀ e ∈ es, e.isMessage)
    (hcollision : NoSessionCollision env es) : Along (MessagesOnly env) es := by
  rintro past e rest rfl
  refine ⟨hes e (by simp), hcollision.mono (sessionPreimages_mono ?_)⟩
  intro x hx
  simp only [List.mem_append, List.mem_cons] at hx ⊢
  tauto

/-- The set of a run of messages has the bytes that its last event may hash. -/
theorem hashesIn_snoc {past : List Event} (he : e.isMessage) :
    HashesIn env (sessionPreimages env (past ++ [e])) e := by
  intro msg hmsg b hb
  cases e with
  | deliver ctx m =>
      cases m with
      | openRetrievalSession m =>
          cases List.mem_singleton.mp hmsg
          exact ⟨ctx, msg, by simp, hb⟩
      | _ => cases hmsg
  | endBlock ctx => cases hmsg
  | call ctx input => exact he.elim

/-- The invariant holds after every run of messages and ends of blocks. -/
theorem run_sessionsSound (env : Env β) (params : Params) (b : β) {es : List Event}
    (hes : Along (MessagesOnly env) es) :
    SessionsSound env (sessionPreimages env es) (run (apply env) (genesis params b) es) := by
  refine run_history (MessagesOnly env)
    (fun past (s : KeeperState β) => SessionsSound env (sessionPreimages env past) s) ?_
    (fun past e hsound hok => ?_) hes
  · intro id session hget
    cases hget
  · have hs := run_wellFormed env params b past
    have hsound := hsound.mono (sessionPreimages_mono (List.subset_append_left past [e]))
    have hmem : HashesIn env (sessionPreimages env (past ++ [e])) e := hashesIn_snoc hok.1
    exact (apply_sessions hs hsound hok.2 hmem hok.1).sound hs hsound hmem (apply_moved hs e)

/-- What an event of such a run does to the sessions. -/
theorem run_sessionsMoved (env : Env β) (params : Params) (b : β) {es : List Event}
    (hes : Along (MessagesOnly env) (es ++ [e])) :
    SessionsMoved env e (run (apply env) (genesis params b) es)
      (apply env (run (apply env) (genesis params b) es) e) :=
  apply_sessions (run_wellFormed env params b es)
    ((run_sessionsSound env params b hes.left).mono
      (sessionPreimages_mono (List.subset_append_left es [e])))
    hes.last.2 (hashesIn_snoc hes.last.1) hes.last.1

end Run

end NilStore.Chain
