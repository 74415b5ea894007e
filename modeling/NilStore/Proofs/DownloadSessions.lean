import NilStore.Chain.Ledger
import NilStore.Gateway.DownloadSession

/-!
# `NilStore.Proofs.DownloadSessions`: a download session is consumed once

Handlers append chunks to a stored session and take it. With a session database the appends and the
take are transactions, and every order of their steps is safe. Without one an append reads the
session and stores it again in two steps, and what another handler has written in between is undone:
a chunk is lost, or a session that was taken comes back. `consumedOnce_of_undisturbed` says that
this is all that can go wrong: the session is consumed once in every run in which no handler writes
between the two steps of another one's append.

`SessionInv` carries the proof. As long as the session is there, it has the chunks of all appends
that have succeeded; once it is gone, exactly one handler has it.
-/

set_option autoImplicit false

namespace NilStore.Gateway

open NilStore.Lib NilStore.Chain

/-! ### What a run must keep -/

/-- The handler is a take that has returned the session. -/
def Handler.Took (h : Handler) (s : DownloadSession) : Prop :=
  h.call = .take ∧ h.point = .done (.session s)

/-- The chunk of an append that has returned success. -/
def Handler.appended (h : Handler) : Option DownloadChunk :=
  match h.call, h.point with
  | .append chunk, .done .stored => some chunk
  | _, _ => none

/-- The state after the events. -/
def sessionState (sessionDB : Bool) (store : SessionStore) (es : List SessionEvent) :
    SessionState :=
  run (sessionStep sessionDB) ⟨store, []⟩ es

/-- The session is stored under the id, in the database if there is one. It may have left the
cache. -/
def StoredIn (sessionDB : Bool) (initial : DownloadSession) (store : SessionStore) : Prop :=
  if sessionDB then store.bucket = some initial ∧ (store.cache = none ∨ store.cache = some initial)
  else store.cache = some initial ∧ store.bucket = none

/-- The session is consumed once: at most one take returns it, with the chunk of every append that
has succeeded, once each; and an append that is called after that fails and changes nothing. -/
structure ConsumedOnce (sessionDB : Bool) (initial : DownloadSession) (store : SessionStore)
    (es : List SessionEvent) : Prop where
  once : ∀ (i j : Nat) (h h' : Handler) (s s' : DownloadSession),
    (sessionState sessionDB store es).handlers[i]? = some h → h.Took s →
    (sessionState sessionDB store es).handlers[j]? = some h' → h'.Took s' → i = j
  complete : ∀ (i : Nat) (h : Handler) (s : DownloadSession),
    (sessionState sessionDB store es).handlers[i]? = some h → h.Took s →
    s.chunks.Perm
      (initial.chunks ++ (sessionState sessionDB store es).handlers.filterMap Handler.appended)
  closed : ∀ past mid j now rest, es = past ++ mid ++ .step j now :: rest →
    (∃ (i : Nat) (h : Handler) (s : DownloadSession),
      (sessionState sessionDB store past).handlers[i]? = some h ∧ h.Took s) →
    (sessionState sessionDB store past).handlers.length ≤ j →
    ∀ chunk point, (sessionState sessionDB store (past ++ mid)).handlers[j]? =
        some ⟨.append chunk, point⟩ →
      (sessionState sessionDB store (past ++ mid ++ [.step j now])).store =
          (sessionState sessionDB store (past ++ mid)).store ∧
        ((sessionState sessionDB store (past ++ mid ++ [.step j now])).handlers[j]?.bind
          Handler.appended) = none

/-- The session has not expired at any step. -/
def Unexpired (initial : DownloadSession) (es : List SessionEvent) : Prop :=
  ∀ i now, SessionEvent.step i now ∈ es → initial.expired now = false

/-- The next step of the handler writes the session in the cache or takes it out. -/
def Handler.Writes (h : Handler) : Prop :=
  (∃ s, h.point = .appendStore s) ∨ h.call = .take ∧ h.point = .start

/-- No handler writes while another one's append is between its two steps. -/
def Undisturbed (store : SessionStore) (es : List SessionEvent) : Prop :=
  Along (fun past e => ∀ i now, e = .step i now →
    ∀ h, (sessionState false store past).handlers[i]? = some h → h.Writes →
    ∀ j h', (sessionState false store past).handlers[j]? = some h' → j ≠ i →
      ∀ s, h'.point ≠ .appendStore s) es

/-! ### One step -/

/-- The session that appends extend and a take removes. -/
def SessionStore.current (sessionDB : Bool) (store : SessionStore) : Option DownloadSession :=
  if sessionDB then store.bucket else store.cache

/-- The session that a take has removed, also before it returns. -/
def Handler.taken (h : Handler) : Option DownloadSession :=
  match h.call, h.point with
  | .take, .takeDelete found => found
  | .take, .done (.session s) => some s
  | _, _ => none

/-- What a handler knows at its point: an append without a database has the current session, and no
handler has found an expired one. -/
def Handler.Sound (sessionDB : Bool) (initial : DownloadSession) (store : SessionStore)
    (h : Handler) : Prop :=
  match h.point with
  | .start => True
  | .appendStore s => sessionDB = false ∧ store.current sessionDB = some s ∧ ∃ c, h.call = .append c
  | .appendDrop => False
  | .loadView => sessionDB = true ∧ h.call = .load
  | .loadStore s => sessionDB = true ∧ h.call = .load ∧ s.expiresAt = initial.expiresAt
  | .loadDrop => False
  | .loadDropBucket => False
  | .takeDelete found => sessionDB = true ∧ h.call = .take ∧
      ∀ s, found = some s → s.expiresAt = initial.expiresAt
  | .done _ => True

/-- The sessions in the store expire with the initial one. -/
def SessionStore.Lasts (initial : DownloadSession) (store : SessionStore) : Prop :=
  (∀ s, store.cache = some s → s.expiresAt = initial.expiresAt) ∧
    ∀ s, store.bucket = some s → s.expiresAt = initial.expiresAt

section Step

variable {sessionDB : Bool} {initial : DownloadSession} {now : Nat} {store : SessionStore}

/-- A session with the initial expiry has not expired while the initial one has not. -/
theorem expired_eq_false (hnow : initial.expired now = false) {s : DownloadSession}
    (hs : s.expiresAt = initial.expiresAt) : s.expired now = false := by
  rw [DownloadSession.expired, hs]
  exact hnow

/-- What a step of a handler does to the session: nothing, an append, or a take. -/
inductive Effect (sessionDB : Bool) (store next : SessionStore) (h h' : Handler) : Prop where
  | quiet (hcurrent : next.current sessionDB = store.current sessionDB)
      (happended : h'.appended = h.appended) (htaken : h'.taken = h.taken)
  | append (s : DownloadSession) (chunk : DownloadChunk)
      (hcurrent : store.current sessionDB = some s)
      (hnext : next.current sessionDB = some (s.append chunk)) (happended : h.appended = none)
      (hchunk : h'.appended = some chunk) (htaken : h.taken = none) (htaken' : h'.taken = none)
      (hwrites : sessionDB = true ∨ h.Writes)
  | take (s : DownloadSession) (hcurrent : store.current sessionDB = some s)
      (hnext : next.current sessionDB = none) (happended : h.appended = none)
      (happended' : h'.appended = none) (htaken : h.taken = none) (htaken' : h'.taken = some s)
      (hwrites : sessionDB = true ∨ h.Writes)

/-- What every step of a handler keeps, and what it can do. -/
structure StepResult (sessionDB : Bool) (initial : DownloadSession) (store next : SessionStore)
    (h h' : Handler) : Prop where
  lasts : next.Lasts initial
  sound : h'.Sound sessionDB initial next
  effect : Effect sessionDB store next h h'

/-- The first step of an append keeps what every step must. With the database it is the whole
append, in one transaction; without it the session has been read and is still to be written back. -/
theorem appendStart_result (hnow : initial.expired now = false) (hlasts : store.Lasts initial)
    (chunk : DownloadChunk) :
    StepResult sessionDB initial store
      (appendStart sessionDB now store chunk).1 ⟨.append chunk, .start⟩
      ⟨.append chunk, (appendStart sessionDB now store chunk).2⟩ := by
  rw [appendStart]
  by_cases hlen : chunk.rangeLen = 0
  · rw [if_pos hlen]
    exact ⟨hlasts, trivial, .quiet rfl rfl rfl⟩
  · rw [if_neg hlen]
    cases sessionDB with
    | true =>
        rw [if_pos rfl]
        cases hbucket : store.bucket with
        | none => exact ⟨hlasts, trivial, .quiet rfl rfl rfl⟩
        -- the bucket and the cache are written together
        | some s =>
            have hs := hlasts.2 s hbucket
            simp only [expired_eq_false hnow hs]
            refine ⟨⟨?_, ?_⟩, trivial, .append s chunk hbucket rfl rfl rfl rfl rfl (Or.inl rfl)⟩
            · rintro _ ⟨rfl⟩
              exact hs
            · rintro _ ⟨rfl⟩
              exact hs
    | false =>
        rw [if_neg Bool.false_ne_true]
        cases hcache : store.cache with
        | none => exact ⟨hlasts, trivial, .quiet rfl rfl rfl⟩
        -- read, and written only in a later step
        | some s =>
            simp only [expired_eq_false hnow (hlasts.1 s hcache)]
            exact ⟨hlasts, ⟨rfl, hcache, chunk, rfl⟩, .quiet rfl rfl rfl⟩

/-- The first step of a load keeps what every step must. -/
theorem loadStart_result (hnow : initial.expired now = false) (hlasts : store.Lasts initial) :
    StepResult sessionDB initial store (loadStart sessionDB now store).1 ⟨.load, .start⟩
      ⟨.load, (loadStart sessionDB now store).2⟩ := by
  rw [loadStart]
  cases hcache : store.cache with
  | some s =>
      simp only [expired_eq_false hnow (hlasts.1 s hcache)]
      exact ⟨hlasts, trivial, .quiet rfl rfl rfl⟩
  | none =>
      cases sessionDB with
      | true => exact ⟨hlasts, ⟨rfl, rfl⟩, .quiet rfl rfl rfl⟩
      | false => exact ⟨hlasts, trivial, .quiet rfl rfl rfl⟩

/-- The first step of a take keeps what every step must. It removes the session from where it is
current, so no later take can find it there. -/
theorem takeStart_result (hnow : initial.expired now = false) (hlasts : store.Lasts initial) :
    StepResult sessionDB initial store (takeStart sessionDB now store).1 ⟨.take, .start⟩
      ⟨.take, (takeStart sessionDB now store).2⟩ := by
  rw [takeStart]
  cases sessionDB with
  | true =>
      rw [if_pos rfl]
      have hlasts' : SessionStore.Lasts initial { store with bucket := none } :=
        ⟨hlasts.1, by rintro s ⟨⟩⟩
      -- the database gives up the session, and the cache comes later
      refine ⟨hlasts', ⟨rfl, rfl, hlasts.2⟩, ?_⟩
      cases hbucket : store.bucket with
      | none => exact .quiet hbucket.symm rfl rfl
      | some s => exact .take s hbucket rfl rfl rfl rfl rfl (Or.inl rfl)
  | false =>
      rw [if_neg Bool.false_ne_true]
      have hlasts' : SessionStore.Lasts initial { store with cache := none } :=
        ⟨by rintro s ⟨⟩, hlasts.2⟩
      refine ⟨hlasts', trivial, ?_⟩
      cases hcache : store.cache with
      | none => exact .quiet hcache.symm rfl rfl
      | some s =>
          have hreply : takeReply now (some s) = .session s := by
            simp only [takeReply, expired_eq_false hnow (hlasts.1 s hcache)]
            rfl
          rw [hreply]
          exact .take s hcache rfl rfl rfl rfl rfl (Or.inr (Or.inr ⟨rfl, rfl⟩))

/-- What a step of a handler does, for each point where it may stand. The points that drop an
expired session are never reached, since the session lasts. -/
theorem handlerStep_result (hnow : initial.expired now = false) (hlasts : store.Lasts initial)
    {h : Handler} (hsound : h.Sound sessionDB initial store) :
    StepResult sessionDB initial store (handlerStep sessionDB now store h).1 h
      { h with point := (handlerStep sessionDB now store h).2 } := by
  obtain ⟨call, point⟩ := h
  cases point with
  | start =>
      cases call with
      | append chunk => exact appendStart_result hnow hlasts chunk
      | load => exact loadStart_result hnow hlasts
      | take => exact takeStart_result hnow hlasts
  -- the session that was read is written with the chunk
  | appendStore s =>
      obtain ⟨rfl, hcurrent, chunk, rfl⟩ := hsound
      have hs := hlasts.1 s hcurrent
      refine ⟨⟨?_, hlasts.2⟩, trivial,
        .append s chunk hcurrent rfl rfl rfl rfl rfl (Or.inr (Or.inl ⟨s, rfl⟩))⟩
      rintro _ ⟨rfl⟩
      exact hs
  | appendDrop => exact hsound.elim
  | loadView =>
      obtain ⟨hdb, hcall⟩ : sessionDB = true ∧ call = .load := hsound
      subst hdb hcall
      -- a load that missed the cache reads the bucket
      show StepResult _ _ _ (loadView now store).1 _ ⟨.load, (loadView now store).2⟩
      rw [loadView]
      cases hbucket : store.bucket with
      | none => exact ⟨hlasts, trivial, .quiet rfl rfl rfl⟩
      | some s =>
          have hs := hlasts.2 s hbucket
          simp only [expired_eq_false hnow hs]
          exact ⟨hlasts, ⟨rfl, rfl, hs⟩, .quiet rfl rfl rfl⟩
  | loadStore s =>
      obtain ⟨hdb, hcall, hs⟩ :
        sessionDB = true ∧ call = .load ∧ s.expiresAt = initial.expiresAt := hsound
      subst hdb hcall
      -- and puts what it found into the cache
      refine ⟨⟨?_, hlasts.2⟩, trivial, .quiet rfl rfl rfl⟩
      rintro _ ⟨rfl⟩
      exact hs
  | loadDrop => exact hsound.elim
  | loadDropBucket => exact hsound.elim
  | takeDelete found =>
      obtain ⟨hdb, hcall, hfound⟩ : sessionDB = true ∧ call = .take ∧
        ∀ s, found = some s → s.expiresAt = initial.expiresAt := hsound
      subst hdb hcall
      have hlasts' : SessionStore.Lasts initial { store with cache := none } :=
        ⟨by rintro s ⟨⟩, hlasts.2⟩
      refine ⟨hlasts', trivial, ?_⟩
      cases found with
      | none => exact .quiet rfl rfl rfl
      | some s =>
          have hreply : takeReply now (some s) = .session s := by
            simp only [takeReply, expired_eq_false hnow (hfound s rfl)]
            rfl
          show Effect _ _ _ _ ⟨.take, .done (takeReply now (some s))⟩
          rw [hreply]
          exact .quiet rfl rfl rfl
  | done reply => exact ⟨hlasts, trivial, .quiet rfl rfl rfl⟩

end Step

/-! ### A whole run -/

/-- One handler replaced. -/
theorem getElem?_set_cases {l : List Handler} {i j : Nat} {a h : Handler}
    (h' : (l.set i a)[j]? = some h) : (i = j ∧ h = a) ∨ (i ≠ j ∧ l[j]? = some h) := by
  rw [List.getElem?_set] at h'
  split at h'
  · rename_i hij
    split at h'
    · exact Or.inl ⟨hij, (Option.some.inj h').symm⟩
    · cases h'
  · rename_i hij
    exact Or.inr ⟨hij, h'⟩

/-- The replies change with the handler: a handler that had none before has its reply at the end. -/
theorem filterMap_set {α : Type} (f : Handler → Option α) {l : List Handler} {i : Nat}
    {h a : Handler} (hget : l[i]? = some h) (hnone : f h = none) :
    ((l.set i a).filterMap f).Perm (l.filterMap f ++ (f a).toList) := by
  -- by the list, up to the handler that moves
  induction l generalizing i with
  | nil => simp at hget
  | cons b rest ih =>
      cases i with
      | zero =>
          have hb : b = h := Option.some.inj hget
          subst hb
          rw [List.set_cons_zero, List.filterMap_cons_none hnone]
          cases ha : f a with
          | none => rw [List.filterMap_cons_none ha, Option.toList_none, List.append_nil]
          | some c =>
              rw [List.filterMap_cons_some ha, Option.toList_some]
              exact (List.perm_append_singleton c _).symm
      | succ i =>
          have hrest := ih hget
          rw [List.set_cons_succ]
          cases hb : f b with
          | none => rwa [List.filterMap_cons_none hb, List.filterMap_cons_none hb]
          | some c =>
              rw [List.filterMap_cons_some hb, List.filterMap_cons_some hb]
              exact hrest.cons c

/-- A replacement that does not change the readout of the handler. -/
theorem filterMap_set_same {α : Type} (f : Handler → Option α) {l : List Handler} {i : Nat}
    {h a : Handler} (hget : l[i]? = some h) (hsame : f a = f h) :
    (l.set i a).filterMap f = l.filterMap f := by
  induction l generalizing i with
  | nil => simp at hget
  | cons b rest ih =>
      cases i with
      | zero =>
          have hb : b = h := Option.some.inj hget
          subst hb
          rw [List.set_cons_zero, List.filterMap_cons, List.filterMap_cons, hsame]
      | succ i => rw [List.set_cons_succ, List.filterMap_cons, List.filterMap_cons, ih hget]

/-- The chunks of the appends that have succeeded. -/
def SessionState.appended (st : SessionState) : List DownloadChunk :=
  st.handlers.filterMap Handler.appended

/-- Either the session is there with all chunks, and no handler has it, or exactly one handler has
it. -/
inductive Held (sessionDB : Bool) (initial : DownloadSession) (st : SessionState) : Prop where
  | stored (s : DownloadSession) (hcurrent : st.store.current sessionDB = some s)
      (hchunks : s.chunks.Perm (initial.chunks ++ st.appended))
      (hnone : ∀ (j : Nat) (h : Handler), st.handlers[j]? = some h → h.taken = none)
  | taken (i : Nat) (h : Handler) (s : DownloadSession)
      (hcurrent : st.store.current sessionDB = none)
      (hget : st.handlers[i]? = some h) (htaken : h.taken = some s)
      (hchunks : s.chunks.Perm (initial.chunks ++ st.appended))
      (hnone : ∀ (j : Nat) (h' : Handler), st.handlers[j]? = some h' → j ≠ i → h'.taken = none)

/-- The invariant. -/
structure SessionInv (sessionDB : Bool) (initial : DownloadSession) (st : SessionState) : Prop where
  lasts : st.store.Lasts initial
  sound : ∀ (j : Nat) (h : Handler), st.handlers[j]? = some h → h.Sound sessionDB initial st.store
  held : Held sessionDB initial st

section Run

variable {sessionDB : Bool} {initial : DownloadSession} {st : SessionState}

/-- A handler stays sound while the session is not written, or when no append is between its
steps. -/
theorem Handler.Sound.mono {store next : SessionStore} {h : Handler}
    (hs : h.Sound sessionDB initial store)
    (hsafe : next.current sessionDB = store.current sessionDB ∨ sessionDB = true ∨
      ∀ s, h.point ≠ .appendStore s) : h.Sound sessionDB initial next := by
  obtain ⟨call, point⟩ := h
  cases point with
  | appendStore s =>
      obtain ⟨hdb, hcurrent, hcall⟩ := hs
      rcases hsafe with hsame | htrue | hno
      · exact ⟨hdb, hsame.trans hcurrent, hcall⟩
      · rw [hdb] at htrue
        cases htrue
      · exact absurd rfl (hno s)
  | start => exact hs
  | appendDrop => exact hs
  | loadView => exact hs
  | loadStore s => exact hs
  | loadDrop => exact hs
  | loadDropBucket => exact hs
  | takeDelete found => exact hs
  | done reply => exact hs

/-- A new call changes nothing yet: its handler stands at the start, and has neither appended nor
taken. -/
theorem SessionInv.call (hinv : SessionInv sessionDB initial st) (c : SessionCall) :
    SessionInv sessionDB initial (sessionStep sessionDB st (.call c)) := by
  -- the handlers are the old ones and the new one
  have hget : ∀ (j : Nat) (h : Handler), (st.handlers ++ [⟨c, .start⟩])[j]? = some h →
      st.handlers[j]? = some h ∨ h = ⟨c, .start⟩ := by
    intro j h hj
    rw [List.getElem?_append] at hj
    split at hj
    · exact Or.inl hj
    · exact Or.inr (by simpa using List.mem_of_getElem? hj)
  have hfresh : Handler.taken ⟨c, .start⟩ = none := by cases c <;> rfl
  have happended : (sessionStep sessionDB st (.call c)).appended = st.appended := by
    have hnone : Handler.appended ⟨c, .start⟩ = none := by cases c <;> rfl
    show (st.handlers ++ [(⟨c, .start⟩ : Handler)]).filterMap Handler.appended = _
    rw [List.filterMap_append, List.filterMap_cons_none hnone, List.filterMap_nil, List.append_nil]
    rfl
  refine ⟨hinv.lasts, ?_, ?_⟩
  · intro j h hj
    rcases hget j h hj with hold | rfl
    · exact hinv.sound j h hold
    · trivial
  -- the session is where it was
  · cases hinv.held with
    | stored s hcurrent hchunks hnone =>
        refine .stored s hcurrent (by rwa [happended]) ?_
        intro j h hj
        rcases hget j h hj with hold | rfl
        · exact hnone j h hold
        · exact hfresh
    | taken i h s hcurrent hi htaken hchunks hnone =>
        refine .taken i h s hcurrent ?_ htaken (by rwa [happended]) ?_
        · show (st.handlers ++ [⟨c, .start⟩])[i]? = some h
          rw [List.getElem?_append_left (List.getElem?_eq_some_iff.mp hi).1, hi]
        · intro j h' hj hne
          rcases hget j h' hj with hold | rfl
          · exact hnone j h' hold hne
          · exact hfresh

/-- A step of a handler keeps the invariant, when it does not write into another one's append.
Without the database an append reads first and writes later, and a write between the two would be
lost. -/
theorem SessionInv.step (hinv : SessionInv sessionDB initial st) {i now : Nat}
    (hnow : initial.expired now = false)
    (hsafe : sessionDB = true ∨ ∀ h, st.handlers[i]? = some h → h.Writes →
      ∀ (j : Nat) (h' : Handler), st.handlers[j]? = some h' → j ≠ i →
        ∀ s, h'.point ≠ .appendStore s) :
    SessionInv sessionDB initial (sessionStep sessionDB st (.step i now)) := by
  -- a step of a handler that does not exist
  cases hi : st.handlers[i]? with
  | none =>
      rw [sessionStep, hi]
      exact hinv
  | some h =>
      have hresult := handlerStep_result hnow hinv.lasts (hinv.sound i h hi)
      have hstep : sessionStep sessionDB st (.step i now) =
          ⟨(handlerStep sessionDB now st.store h).1, st.handlers.set i
            { h with point := (handlerStep sessionDB now st.store h).2 }⟩ := by
        rw [sessionStep, hi]
      rw [hstep]
      generalize (handlerStep sessionDB now st.store h).1 = next at hresult ⊢
      generalize Handler.mk h.call (handlerStep sessionDB now st.store h).2 = h' at hresult ⊢
      -- The other handlers are where they were.
      have hsound : (next.current sessionDB = st.store.current sessionDB ∨
          sessionDB = true ∨ h.Writes) →
          ∀ (j : Nat) (g : Handler), (st.handlers.set i h')[j]? = some g →
            g.Sound sessionDB initial next := by
        intro hcase j g hj
        rcases getElem?_set_cases hj with ⟨-, rfl⟩ | ⟨hne, hold⟩
        · exact hresult.sound
        · refine (hinv.sound j g hold).mono ?_
          rcases hcase with hsame | hdb | hwrites
          · exact Or.inl hsame
          · exact Or.inr (Or.inl hdb)
          · rcases hsafe with hdb | hsafe
            · exact Or.inr (Or.inl hdb)
            · exact Or.inr (Or.inr (hsafe h hi hwrites j g hold (Ne.symm hne)))
      have hlt : i < st.handlers.length := (List.getElem?_eq_some_iff.mp hi).1
      have hself : (st.handlers.set i h')[i]? = some h' := by
        rw [List.getElem?_set_self hlt]
      cases hresult.effect with
      | quiet hcurrent happended htaken =>
          refine ⟨hresult.lasts, hsound (Or.inl hcurrent), ?_⟩
          have hsame : SessionState.appended ⟨next, st.handlers.set i h'⟩ = st.appended :=
            filterMap_set_same _ hi happended
          -- nothing has moved, so the session is still stored or still taken
          cases hinv.held with
          | stored s hs hchunks hnone =>
              refine .stored s (hcurrent.trans hs) (by rwa [hsame]) ?_
              intro j g hj
              rcases getElem?_set_cases hj with ⟨-, rfl⟩ | ⟨-, hold⟩
              · rw [htaken]
                exact hnone i h hi
              · exact hnone j g hold
          | taken k g s hs hk hg hchunks hnone =>
              -- the handler that took the session may be the one that moves
              by_cases hki : i = k
              · subst hki
                have hgh : g = h := Option.some.inj (hk.symm.trans hi)
                subst hgh
                refine .taken i h' s (hcurrent.trans hs) hself (htaken.trans hg) (by rwa [hsame]) ?_
                intro j g' hj hne
                rcases getElem?_set_cases hj with ⟨hij, -⟩ | ⟨-, hold⟩
                · exact absurd hij.symm hne
                · exact hnone j g' hold hne
              · refine .taken k g s (hcurrent.trans hs) ?_ hg (by rwa [hsame]) ?_
                · show (st.handlers.set i h')[k]? = some g
                  rw [List.getElem?_set_ne hki, hk]
                · intro j g' hj hne
                  rcases getElem?_set_cases hj with ⟨rfl, rfl⟩ | ⟨-, hold⟩
                  · rw [htaken]
                    exact hnone i h hi hne
                  · exact hnone j g' hold hne
      -- one chunk more, in the session and among the appends
      | append s chunk hcurrent hnext hnoChunk hchunk htaken htaken' hwrites =>
          refine ⟨hresult.lasts, hsound (Or.inr hwrites), ?_⟩
          cases hinv.held with
          | taken k g s' hs hk hg hchunks hnone =>
              rw [hs] at hcurrent
              cases hcurrent
          | stored s' hs hchunks hnone =>
              obtain rfl : s' = s := Option.some.inj (hs.symm.trans hcurrent)
              have hmore : (SessionState.appended ⟨next, st.handlers.set i h'⟩).Perm
                  (st.appended ++ [chunk]) := by
                have hset := filterMap_set Handler.appended (a := h') hi hnoChunk
                rw [hchunk] at hset
                exact hset
              refine .stored (s'.append chunk) hnext ?_ ?_
              · show (s'.chunks ++ [chunk]).Perm _
                refine (hchunks.append_right [chunk]).trans ?_
                rw [List.append_assoc]
                exact hmore.symm.append_left _
              · intro j g hj
                rcases getElem?_set_cases hj with ⟨-, rfl⟩ | ⟨-, hold⟩
                · exact htaken'
                · exact hnone j g hold
      -- the session leaves the store with the handler that took it
      | take s hcurrent hnext hnoChunk hnoChunk' htaken htaken' hwrites =>
          refine ⟨hresult.lasts, hsound (Or.inr hwrites), ?_⟩
          cases hinv.held with
          | taken k g s' hs hk hg hchunks hnone =>
              rw [hs] at hcurrent
              cases hcurrent
          | stored s' hs hchunks hnone =>
              obtain rfl : s' = s := Option.some.inj (hs.symm.trans hcurrent)
              have hsame : SessionState.appended ⟨next, st.handlers.set i h'⟩ = st.appended :=
                filterMap_set_same _ hi (hnoChunk'.trans hnoChunk.symm)
              refine .taken i h' s' hnext hself htaken' (by rwa [hsame]) ?_
              intro j g hj hne
              rcases getElem?_set_cases hj with ⟨hij, -⟩ | ⟨-, hold⟩
              · exact absurd hij.symm hne
              · exact hnone j g hold

/-- The session is there at the start, and no handler has run. With the database it is in the
bucket, and perhaps in the cache; without it, in the cache. -/
theorem SessionInv.start {store : SessionStore} (h : StoredIn sessionDB initial store) :
    SessionInv sessionDB initial ⟨store, []⟩ := by
  have hnoHandlers : ∀ (j : Nat) (h : Handler), ([] : List Handler)[j]? = some h → False := by
    intro j h hj
    simp at hj
  refine ⟨?_, fun j h hj => (hnoHandlers j h hj).elim, .stored initial ?_ ?_ ?_⟩
  -- all copies in the store are the session itself
  · cases sessionDB with
    | true =>
        obtain ⟨hbucket, hcache⟩ : store.bucket = some initial ∧
          (store.cache = none ∨ store.cache = some initial) := h
        refine ⟨fun s hs => ?_, fun s hs => ?_⟩
        · rcases hcache with hnone | hsome
          · rw [hnone] at hs
            cases hs
          · rw [hsome] at hs
            cases hs
            rfl
        · rw [hbucket] at hs
          cases hs
          rfl
    | false =>
        obtain ⟨hcache, hbucket⟩ : store.cache = some initial ∧ store.bucket = none := h
        refine ⟨fun s hs => ?_, fun s hs => ?_⟩
        · rw [hcache] at hs
          cases hs
          rfl
        · rw [hbucket] at hs
          cases hs
  · cases sessionDB with
    | true => exact (show store.bucket = some initial ∧ _ from h).1
    | false => exact (show store.cache = some initial ∧ _ from h).1
  · rw [SessionState.appended, List.filterMap_nil, List.append_nil]
  · exact fun j h hj => (hnoHandlers j h hj).elim

/-- The invariant holds after every run. -/
theorem sessionInv_run {store : SessionStore} {es : List SessionEvent}
    (hstored : StoredIn sessionDB initial store) (hunexpired : Unexpired initial es)
    (hundisturbed : sessionDB = true ∨ Undisturbed store es) :
    SessionInv sessionDB initial (sessionState sessionDB store es) := by
  induction es using List.reverseRecOn with
  | nil => exact .start hstored
  | append_singleton es e ih =>
      have hinv := ih (fun i now he => hunexpired i now (List.mem_append_left _ he))
        (hundisturbed.imp_right Along.left)
      rw [sessionState, run_snoc]
      cases e with
      | call c => exact hinv.call c
      | step i now =>
          refine hinv.step (hunexpired i now (by simp)) ?_
          rcases hundisturbed with hdb | hundisturbed
          · exact Or.inl hdb
          · cases sessionDB with
            | true => exact Or.inl rfl
            | false => exact Or.inr (hundisturbed.last i now rfl)

/-- A handler that is done stays so, whatever the others do: no step leaves `done`. -/
theorem getElem?_step_done {i : Nat} {h : Handler} {reply : SessionReply}
    (hi : st.handlers[i]? = some h) (hdone : h.point = .done reply) (e : SessionEvent) :
    (sessionStep sessionDB st e).handlers[i]? = some h := by
  have hlt := (List.getElem?_eq_some_iff.mp hi).1
  -- a new call is at the end of the list
  cases e with
  | call c =>
      show (st.handlers ++ [⟨c, .start⟩])[i]? = some h
      rw [List.getElem?_append_left hlt, hi]
  | step j now =>
      cases hj : st.handlers[j]? with
      | none =>
          rw [sessionStep, hj]
          exact hi
      | some g =>
          rw [sessionStep, hj]
          show (st.handlers.set j _)[i]? = some h
          by_cases hji : j = i
          · subst hji
            obtain rfl : g = h := Option.some.inj (hj.symm.trans hi)
            rw [List.getElem?_set_self hlt, handlerStep, hdone]
            show some ({ g with point := .done reply } : Handler) = some g
            rw [← hdone]
          · rw [List.getElem?_set_ne hji, hi]

/-- When the session is gone, an append does not bring it back. With the database it finds no
bucket; without it, a pending write would have been in the way of the take. -/
theorem append_idle (hcurrent : st.store.current sessionDB = none) {now : Nat}
    {chunk : DownloadChunk}
    {point : Point} (hsound : Handler.Sound sessionDB initial st.store ⟨.append chunk, point⟩) :
    (handlerStep sessionDB now st.store ⟨.append chunk, point⟩).1 = st.store := by
  -- an append stands at its start, before its write, or is done
  cases point with
  | start =>
      show (appendStart sessionDB now st.store chunk).1 = st.store
      rw [appendStart]
      split
      · rfl
      · cases sessionDB with
        | true =>
            have hbucket : st.store.bucket = none := hcurrent
            rw [if_pos rfl, hbucket]
        | false =>
            have hcache : st.store.cache = none := hcurrent
            rw [if_neg Bool.false_ne_true, hcache]
  | appendStore s =>
      obtain ⟨-, hsome, -⟩ := hsound
      rw [hcurrent] at hsome
      cases hsome
  | appendDrop => exact hsound.elim
  | loadView => cases hsound.2
  | loadStore s => cases hsound.2.1
  | loadDrop => exact hsound.elim
  | loadDropBucket => exact hsound.elim
  | takeDelete found => cases hsound.2.1
  | done reply => rfl

/-- The handler that has returned the session is the one that has it. The store has it no more, its
chunks are those of all appends, and no other handler has it. -/
theorem SessionInv.took (hinv : SessionInv sessionDB initial st) {i : Nat} {h : Handler}
    {s : DownloadSession} (hi : st.handlers[i]? = some h) (htook : h.Took s) :
    st.store.current sessionDB = none ∧ s.chunks.Perm (initial.chunks ++ st.appended) ∧
      ∀ (j : Nat) (h' : Handler), st.handlers[j]? = some h' → j ≠ i → h'.taken = none := by
  have htaken : h.taken = some s := by
    obtain ⟨call, point⟩ := h
    obtain ⟨hcall, hpoint⟩ := htook
    cases hcall
    cases hpoint
    rfl
  -- the session is stored, or one handler has taken it
  cases hinv.held with
  | stored s' hcurrent hchunks hnone =>
      have h0 := hnone i h hi
      rw [htaken] at h0
      cases h0
  | taken k g s' hcurrent hk hg hchunks hnone =>
      by_cases hik : i = k
      · subst hik
        obtain rfl : g = h := Option.some.inj (hk.symm.trans hi)
        obtain rfl : s' = s := Option.some.inj (hg.symm.trans htaken)
        exact ⟨hcurrent, hchunks, hnone⟩
      · have h0 := hnone i h hi hik
        rw [htaken] at h0
        cases h0

/-- After the session was taken, the handlers that are called have not appended. Each of their steps
finds the store without the session. -/
theorem not_appended_after {store : SessionStore} {past mid : List SessionEvent}
    (hinv : ∀ es, es <+: past ++ mid →
      SessionInv sessionDB initial (sessionState sessionDB store es))
    (hunexpired : Unexpired initial (past ++ mid)) {i : Nat} {h : Handler} {s : DownloadSession}
    (hi : (sessionState sessionDB store past).handlers[i]? = some h) (htook : h.Took s) :
    (sessionState sessionDB store (past ++ mid)).handlers[i]? = some h ∧
      ∀ (j : Nat) (g : Handler), (sessionState sessionDB store past).handlers.length ≤ j →
        (sessionState sessionDB store (past ++ mid)).handlers[j]? = some g → g.appended = none := by
  -- by the steps after the take, the last one first
  induction mid using List.reverseRecOn with
  | nil =>
      rw [List.append_nil]
      refine ⟨hi, fun j g hj hget => ?_⟩
      have hlt := (List.getElem?_eq_some_iff.mp hget).1
      omega
  | append_singleton mid e ih =>
      rw [← List.append_assoc] at hinv hunexpired ⊢
      obtain ⟨hstays, hnone⟩ := ih (fun es hes => hinv es (hes.trans (List.prefix_append _ _)))
        (fun k now he => hunexpired k now (List.mem_append_left _ he))
      have hearly := hinv (past ++ mid) (List.prefix_append _ _)
      rw [sessionState, run_snoc]
      refine ⟨getElem?_step_done hstays htook.2 e, fun j g hj hget => ?_⟩
      -- a call adds a handler at its start
      cases e with
      | call c =>
          have hget : ((sessionState sessionDB store (past ++ mid)).handlers ++ [⟨c, .start⟩])[j]? =
            some g := hget
          rw [List.getElem?_append] at hget
          split at hget
          · exact hnone j g hj hget
          · obtain rfl : g = ⟨c, .start⟩ := by simpa using List.mem_of_getElem? hget
            cases c <;> rfl
      -- a step moves one handler
      | step k now =>
          change (sessionStep sessionDB (sessionState sessionDB store (past ++ mid))
            (.step k now)).handlers[j]? = some g at hget
          cases hk : (sessionState sessionDB store (past ++ mid)).handlers[k]? with
          | none =>
              rw [sessionStep, hk] at hget
              exact hnone j g hj hget
          | some f =>
              rw [sessionStep, hk] at hget
              rcases getElem?_set_cases hget with ⟨rfl, rfl⟩ | ⟨-, hold⟩
              · -- The session is gone, so the step is neither an append nor a take.
                have hresult := handlerStep_result (hunexpired k now (by simp)) hearly.lasts
                  (hearly.sound k f hk)
                have hgone := (hearly.took hstays htook).1
                cases hresult.effect with
                | quiet _ happended _ =>
                    rw [happended]
                    exact hnone k f hj hk
                | append s' chunk hcurrent =>
                    rw [hgone] at hcurrent
                    cases hcurrent
                | take s' hcurrent =>
                    rw [hgone] at hcurrent
                    cases hcurrent
              · exact hnone j g hj hold

end Run

/-- A session is consumed once, with every chunk, when the gateway has a session database or no
handler writes between the two steps of another one's append. The three parts follow from one
invariant, at the end of the run and at each earlier state. -/
theorem consumedOnce_of_undisturbed {sessionDB : Bool} {initial : DownloadSession}
    {store : SessionStore} {es : List SessionEvent} (hstored : StoredIn sessionDB initial store)
    (hunexpired : Unexpired initial es) (hundisturbed : sessionDB = true ∨ Undisturbed store es) :
    ConsumedOnce sessionDB initial store es := by
  have hinv := sessionInv_run hstored hunexpired hundisturbed
  have hearly : ∀ es', es' <+: es →
      SessionInv sessionDB initial (sessionState sessionDB store es') := by
    rintro es' ⟨rest, rfl⟩
    exact sessionInv_run hstored (fun i now he => hunexpired i now (List.mem_append_left _ he))
      (hundisturbed.imp_right Along.left)
  constructor
  · intro i j h h' s s' hi htook hj htook'
    by_contra hne
    have hnone := (hinv.took hi htook).2.2 j h' hj (Ne.symm hne)
    obtain ⟨call, point⟩ := h'
    obtain ⟨hcall, hpoint⟩ := htook'
    cases hcall
    cases hpoint
    cases hnone
  -- with the chunks of all appends
  · intro i h s hi htook
    exact (hinv.took hi htook).2.1
  -- an append after the take writes nothing, and has no effect later
  · rintro past mid j now rest rfl ⟨i, h, s, hi, htook⟩ hlate chunk point hj
    have hmid : ∀ es', es' <+: past ++ mid →
        SessionInv sessionDB initial (sessionState sessionDB store es') :=
      fun es' hes => hearly es' (hes.trans (List.prefix_append _ _))
    -- the state after this step is one of the run too
    have hnext : ∀ es', es' <+: past ++ (mid ++ [.step j now]) →
        SessionInv sessionDB initial (sessionState sessionDB store es') := by
      intro es' hes
      refine hearly es' (hes.trans ?_)
      rw [← List.append_assoc]
      exact ⟨rest, by simp⟩
    have hbefore : Unexpired initial (past ++ mid) :=
      fun k now he => hunexpired k now (List.mem_append_left _ he)
    have hafter : Unexpired initial (past ++ (mid ++ [.step j now])) := by
      intro k now' he
      refine hunexpired k now' ?_
      rw [← List.append_assoc] at he
      rcases List.mem_append.mp he with he | he
      · exact List.mem_append_left _ he
      · rw [List.mem_singleton.mp he]
        simp
    have hstays := (not_appended_after hmid hbefore hi htook).1
    have hgone := ((hmid _ List.prefix_rfl).took hstays htook).1
    constructor
    · rw [sessionState, run_snoc]
      show (sessionStep sessionDB (sessionState sessionDB store (past ++ mid))
        (.step j now)).store = _
      rw [sessionStep, hj]
      exact append_idle hgone ((hmid _ List.prefix_rfl).sound j _ hj)
    · have hnone := (not_appended_after hnext hafter hi htook).2 j
      rw [List.append_assoc]
      cases hget : (sessionState sessionDB store (past ++ (mid ++ [.step j now]))).handlers[j]? with
      | none => rfl
      | some g => exact hnone g hlate hget

/-! ### Two runs -/

/-- A session over the first blob of a file. -/
def sampleSession : DownloadSession where
  dealId := 0
  epochId := 1
  owner := ownerText
  provider := providerText
  filePath := "a.txt".toList
  rangeStart := 0
  rangeLen := 1
  createdAt := 100
  expiresAt := some 700
  chunks := []

/-- A chunk whose proof is told from others by its number. -/
def sampleChunk : DownloadChunk := ⟨0, 1, sampleProof 0⟩

/-- An append, and two takes between its steps and after them. -/
def resurrectingRun : List SessionEvent :=
  [.call (.append sampleChunk), .call .take, .call .take, .step 0 200, .step 1 200, .step 0 200,
    .step 2 200]

/-- The same handlers with a database. -/
theorem consumedOnce_resurrectingRun :
    ConsumedOnce true sampleSession ⟨some sampleSession, some sampleSession⟩ resurrectingRun := by
  refine consumedOnce_of_undisturbed ⟨rfl, Or.inr rfl⟩ ?_ (Or.inl rfl)
  intro i now h
  simp only [resurrectingRun, List.mem_cons, SessionEvent.step.injEq, reduceCtorEq,
    List.not_mem_nil, false_or, or_false] at h
  rcases h with ⟨-, rfl⟩ | ⟨-, rfl⟩ | ⟨-, rfl⟩ | ⟨-, rfl⟩ <;> rfl

/-- Without a database both takes succeed: the append puts the session back. -/
theorem resurrected :
    StoredIn false sampleSession ⟨some sampleSession, none⟩ ∧
      (∀ e ∈ resurrectingRun, ∀ i now, e = .step i now → now = 200) ∧
      sampleSession.expired 200 = false ∧
      ¬ConsumedOnce false sampleSession ⟨some sampleSession, none⟩ resurrectingRun := by
  refine ⟨⟨rfl, rfl⟩, ?_, rfl, ?_⟩
  · intro e he i now heq
    subst heq
    simp only [resurrectingRun, List.mem_cons, SessionEvent.step.injEq, reduceCtorEq,
      List.not_mem_nil, false_or, or_false] at he
    rcases he with ⟨-, rfl⟩ | ⟨-, rfl⟩ | ⟨-, rfl⟩ | ⟨-, rfl⟩ <;> rfl
  · intro h
    have hboth : (1 : Nat) = 2 := h.once 1 2 ⟨.take, .done (.session sampleSession)⟩
      ⟨.take, .done (.session (sampleSession.append sampleChunk))⟩ sampleSession
      (sampleSession.append sampleChunk) rfl ⟨rfl, rfl⟩ rfl ⟨rfl, rfl⟩
    omega

end NilStore.Gateway
