import NilStore.Chain.Ledger
import NilStore.Gateway.RetrievalRequest

/-!
# `NilStore.Proofs.RequestReplay`: a signed request is honoured once

The two checks judge the expiry apart. The signature is accepted until 30 seconds after it, while an
entry of the replay store counts only up to it. So a request is honoured once as long as whoever
presents it again comes before the expiry (`honouredBy_once`), and not after it (`honoured_twice`).

The proof follows the entry of the request. Once it is honoured, the entry under its key carries its
own expiry, and no other request replaces an entry that has not expired (`gatewayStep_keeps`).
-/

set_option autoImplicit false

namespace NilStore.Gateway

open NilStore.Lib NilStore.Chain

/-! ### Requests and times -/

/-- The request comes to the replay store with this owner and message: it presents them to a handler
that asks for a signature and consumes the nonce, the signature is accepted, and so is all else. -/
structure Admissible (env : RequestEnv) (a : Arrival) (m : Honoured) : Prop where
  presented : ∃ p, readRequest env a.endpoint a.request = .ok p ∧ (p.owner, p.message) = m ∧
    checkSignature env a m.1 p = .ok ()
  owned : a.dealOwner = .ok m.1
  guarded : a.guards = .ok ()
  signed : a.endpoint.requiresSig env = true
  consumes : a.endpoint.consumesNonce env = true

/-- The request comes to the replay store before the message expires. -/
def Arrival.inTime (a : Arrival) (m : Honoured) : Bool :=
  beforeInstant a.storedAt (expiryInstant m.2.expiresAt)

/-- The clock does not go back from one access to the replay store to the next. -/
def Clocked (es : List GatewayEvent) : Prop :=
  Along (fun past e => ∀ a b, e = .request a → .request b ∈ past → b.storedAt ≤ a.storedAt) es

/-- Whoever presents the request when it has been presented before comes before it expires. -/
def RepeatedInTime (env : RequestEnv) (m : Honoured) (es : List GatewayEvent) : Prop :=
  Along (fun past e => ∀ a b, e = .request a → Admissible env a m →
    .request b ∈ past → Admissible env b m → a.inTime m) es

/-- Requests in the order of a clock are clocked. -/
theorem clocked_of_pairwise {es : List GatewayEvent}
    (h : es.Pairwise fun e f => ∀ a b, e = .request b → f = .request a → b.storedAt ≤ a.storedAt) :
    Clocked es := by
  intro past e rest heq a b ha hb
  rw [heq] at h
  exact (List.pairwise_append.mp h).2.2 _ hb e List.mem_cons_self a b rfl ha

/-- The key of a message. -/
def Honoured.key (m : Honoured) : Str := replayKey m.2.dealId m.1 m.2.nonce

/-- What has not been reached later had not been reached before. -/
theorem beforeInstant_mono {now later : Nat} {sec : Int} (hle : now ≤ later)
    (h : beforeInstant later sec = true) : beforeInstant now sec = true := by
  simp only [beforeInstant, decide_eq_true_eq] at h ⊢
  omega

/-! ### One access to the store -/

section

variable {env : RequestEnv} {store store' : ReplayStore} {a : Arrival} {m : Honoured}

/-- A success writes the entry, where there was none that counted. -/
theorem checkAndStoreRequestReplay_ok {now : Nat} {dealId nonce expiresAt : UInt64} {owner : Str}
    (h : checkAndStoreRequestReplay env now dealId owner nonce expiresAt store = .ok store') :
    ((store.get (replayKey dealId owner nonce)).any (beforeInstant now)) = false ∧
      store' = store.set (replayKey dealId owner nonce) (expiryInstant expiresAt) := by
  simp only [checkAndStoreRequestReplay, except_bind_ok, rejectIf_eq_ok] at h
  obtain ⟨-, -, -, -, -, -, -, hnone, -, -, hstore⟩ := h
  refine ⟨by simpa using hnone, ?_⟩
  exact (Except.ok.inj hstore).symm

/-- What a handler has done when it answers. -/
theorem handleRequest_ok {honoured : Option Honoured}
    (h : handleRequest env store a = .ok (store', honoured)) :
    ∃ p, readRequest env a.endpoint a.request = .ok p ∧ a.dealOwner = .ok p.owner ∧
      checkSignature env a p.owner p = .ok () ∧ a.guards = .ok () ∧
      consumeNonce env a p store = .ok store' ∧
      honoured = if a.endpoint.requiresSig env ∧ a.endpoint.consumesNonce env then
        some (p.owner, p.message) else none := by
  simp only [handleRequest, except_bind_ok, rejectIf_eq_ok, not_or, not_not] at h
  obtain ⟨p, hread, dealOwner, howner, _, ⟨-, rfl⟩, _, hsig, _, hguards, _, hconsume, hret⟩ := h
  obtain ⟨rfl, rfl⟩ := Prod.mk.inj (Except.ok.inj hret)
  exact ⟨p, hread, howner, hsig, hguards, hconsume, rfl⟩

/-- A handler leaves the store alone, or writes an entry where none counted. -/
theorem consumeNonce_ok {p : Presented} (h : consumeNonce env a p store = .ok store') :
    (a.endpoint.consumesNonce env = false ∧ store' = store) ∨
      ((store.get (Honoured.key (p.owner, p.message))).any (beforeInstant a.storedAt) = false ∧
        store' = store.set (Honoured.key (p.owner, p.message))
          (expiryInstant p.message.expiresAt)) := by
  rw [consumeNonce] at h
  split at h
  · rename_i hconsumes
    rw [mapError_eq_ok] at h
    exact Or.inr (checkAndStoreRequestReplay_ok h)
  · rename_i hconsumes
    exact Or.inl ⟨by simpa using hconsumes, (Except.ok.inj h).symm⟩

/-- A request that is honoured was admissible, found no entry that counts, and has left its own. -/
theorem honouredAt_spec (h : m ∈ honouredAt env store (.request a)) :
    Admissible env a m ∧ (store.get (Honoured.key m)).any (beforeInstant a.storedAt) = false ∧
      (gatewayStep env store (.request a)).get (Honoured.key m) =
        some (expiryInstant m.2.expiresAt) := by
  simp only [honouredAt, gatewayStep] at h ⊢
  cases hhandle : handleRequest env store a with
  | error e => simp [hhandle] at h
  | ok r =>
      obtain ⟨store', honoured⟩ := r
      rw [hhandle] at h
      obtain ⟨p, hread, howner, hsig, hguards, hconsume, rfl⟩ := handleRequest_ok hhandle
      simp only [Option.mem_toList] at h
      split at h
      · rename_i hboth
        cases Option.mem_some.mp h
        refine ⟨⟨⟨p, hread, rfl, hsig⟩, howner, hguards, hboth.1, hboth.2⟩, ?_⟩
        rcases consumeNonce_ok hconsume with ⟨hnot, -⟩ | ⟨hnone, rfl⟩
        · simp [hnot] at hboth
        · exact ⟨hnone, KVStore.get_set_self _ _ _⟩
      · simp at h

/-- An entry that has not expired stays. -/
theorem gatewayStep_keeps {k : Str} {sec : Int} (hget : store.get k = some sec)
    (hnow : beforeInstant a.storedAt sec = true) :
    (gatewayStep env store (.request a)).get k = some sec := by
  simp only [gatewayStep]
  cases hhandle : handleRequest env store a with
  | error e => exact hget
  | ok r =>
      obtain ⟨store', honoured⟩ := r
      show store'.get k = some sec
      obtain ⟨p, -, -, -, -, hconsume, -⟩ := handleRequest_ok hhandle
      rcases consumeNonce_ok hconsume with ⟨-, rfl⟩ | ⟨hnone, rfl⟩
      · exact hget
      · by_cases hk : k = Honoured.key (p.owner, p.message)
        · -- under the same key the entry would have blocked the request
          subst hk
          simp [hget, hnow] at hnone
        · rw [KVStore.get_set_ne _ hk]
          exact hget

/-- An event honours a request at most once. -/
theorem count_honouredAt_le (e : GatewayEvent) : (honouredAt env store e).count m ≤ 1 := by
  refine List.count_le_length.trans ?_
  cases e with
  | restart => simp [honouredAt]
  | request a =>
      simp only [honouredAt]
      cases handleRequest env store a with
      | error e => simp
      | ok r =>
          obtain ⟨store', honoured⟩ := r
          cases honoured <;> simp

end

/-! ### Runs -/

section

variable {env : RequestEnv} {store : ReplayStore} {m : Honoured} {es : List GatewayEvent}

/-- The last event of a run adds what it honours. -/
theorem honouredBy_snoc (e : GatewayEvent) :
    honouredBy env store (es ++ [e]) =
      honouredBy env store es ++ honouredAt env (run (gatewayStep env) store es) e := by
  simp [honouredBy, trace_append, trace]

/-- Once the request is honoured, it has been admissible, and its entry is there until it
expires. -/
structure HonouredInv (env : RequestEnv) (store : ReplayStore) (m : Honoured)
    (es : List GatewayEvent) : Prop where
  once : (honouredBy env store es).count m ≤ 1
  admissible : m ∈ honouredBy env store es → ∃ b, .request b ∈ es ∧ Admissible env b m
  entry : m ∈ honouredBy env store es → (∃ b, .request b ∈ es ∧ b.inTime m = false) ∨
    (run (gatewayStep env) store es).get (Honoured.key m) = some (expiryInstant m.2.expiresAt)

/-- The step lemma: one more event keeps what the store knows of the honoured requests. An entry is
written when a request is honoured, and goes only with its time. -/
theorem HonouredInv.snoc {e : GatewayEvent} (hinv : HonouredInv env store m es)
    (hclock : ∀ a b, e = .request a → .request b ∈ es → b.storedAt ≤ a.storedAt)
    (hrepeat : ∀ a b, e = .request a → Admissible env a m → .request b ∈ es → Admissible env b m →
      a.inTime m) :
    HonouredInv env store m (es ++ [e]) := by
  cases e with
  | restart =>
      have hsame : honouredBy env store (es ++ [.restart]) = honouredBy env store es := by
        rw [honouredBy_snoc]
        exact List.append_nil _
      have hstate : run (gatewayStep env) store (es ++ [.restart]) =
          run (gatewayStep env) store es :=
        run_snoc _ _ _ _
      constructor
      · rw [hsame]
        exact hinv.once
      · intro h
        obtain ⟨b, hb, hadm⟩ := hinv.admissible (hsame ▸ h)
        exact ⟨b, List.mem_append_left _ hb, hadm⟩
      · intro h
        rw [hstate]
        refine (hinv.entry (hsame ▸ h)).imp_left ?_
        rintro ⟨b, hb, hlate⟩
        exact ⟨b, List.mem_append_left _ hb, hlate⟩
  -- a request is honoured for the first time, or not at all
  | request a =>
      by_cases hnew : m ∈ honouredAt env (run (gatewayStep env) store es) (.request a)
      · obtain ⟨hadm, hnone, hentry⟩ := honouredAt_spec hnew
        -- had it been honoured before, its entry would be there and block it
        have hfirst : m ∉ honouredBy env store es := by
          intro hold
          obtain ⟨b, hb, hbadm⟩ := hinv.admissible hold
          -- it would have to be in time, and so would the entry
          have hin := hrepeat a b rfl hadm hb hbadm
          rcases hinv.entry hold with ⟨c, hc, hlate⟩ | hget
          · have hin' := beforeInstant_mono (hclock a c rfl hc) hin
            rw [Arrival.inTime, hin'] at hlate
            cases hlate
          · rw [hget, Option.any_some, ← Arrival.inTime, hin] at hnone
            cases hnone
        constructor
        · rw [honouredBy_snoc, List.count_append,
            List.count_eq_zero_of_not_mem hfirst, Nat.zero_add]
          exact count_honouredAt_le _
        · intro _
          exact ⟨a, by simp, hadm⟩
        · intro _
          rw [run_snoc]
          exact Or.inr hentry
      -- this event does not honour it: what was known of it stays
      · have hcount : (honouredAt env (run (gatewayStep env) store es) (.request a)).count m = 0 :=
          List.count_eq_zero_of_not_mem hnew
        have hold : m ∈ honouredBy env store (es ++ [.request a]) →
            m ∈ honouredBy env store es := by
          rw [honouredBy_snoc, List.mem_append]
          exact fun h => h.resolve_right hnew
        constructor
        · rw [honouredBy_snoc, List.count_append, hcount]
          exact hinv.once
        · intro h
          obtain ⟨b, hb, hadm⟩ := hinv.admissible (hold h)
          exact ⟨b, List.mem_append_left _ hb, hadm⟩
        · intro h
          rw [run_snoc]
          rcases hinv.entry (hold h) with ⟨b, hb, hlate⟩ | hget
          · exact Or.inl ⟨b, List.mem_append_left _ hb, hlate⟩
          · cases hin : a.inTime m with
            | false => exact Or.inl ⟨a, by simp, hin⟩
            | true => exact Or.inr (gatewayStep_keeps hget hin)

/-- The run lemma: in every run with a clock the store knows the honoured requests that can still be
repeated. -/
theorem honouredInv (hclock : Clocked es) (hrepeat : RepeatedInTime env m es) :
    HonouredInv env store m es := by
  induction es using List.reverseRecOn with
  | nil =>
      exact ⟨by simp [honouredBy, trace], by simp [honouredBy, trace], by simp [honouredBy, trace]⟩
  | append_singleton es e ih =>
      exact (ih hclock.left hrepeat.left).snoc hclock.last hrepeat.last

/-- **A signed request is honoured at most once** when it is not presented again after it has
expired. The store forgets an entry at the instant of its expiry, and the handler takes the request
for thirty more seconds, so a repetition in between passes both checks. -/
theorem honouredBy_once (hclock : Clocked es) (hrepeat : RepeatedInTime env m es) :
    (honouredBy env store es).count m ≤ 1 :=
  (honouredInv hclock hrepeat).once

end

/-! ### Twice, and once -/

/-- A request for the first 1000 bytes of a file, which expires at 1000 seconds. -/
def sampleRequest : RetrievalRequest where
  dealId := 0
  filePath := "f".toList
  rangeStart := 0
  rangeLen := 1000
  nonce := 1
  expiresAt := 1000

/-- The Keccak-256 of the type, the path, the struct and the digest of the request. -/
def requestHashes : List Bytes :=
  [[0x31, 0xf9, 0xa2, 0x6d, 0xbf, 0xbc, 0x7b, 0x46, 0xef, 0x65, 0x1d, 0x3c, 0x04, 0x5b, 0xd2, 0x53,
     0x40, 0x46, 0xf2, 0xd6, 0x21, 0x51, 0xf9, 0xac, 0xe4, 0xa5, 0xf2, 0xce, 0x05, 0xfd, 0x7f,
     0xb0],
    [0xd1, 0xe8, 0xae, 0xb7, 0x95, 0x00, 0x49, 0x6e, 0xf3, 0xdc, 0x2e, 0x57, 0xba, 0x74, 0x6a, 0x83,
     0x15, 0xd0, 0x48, 0xb7, 0xa6, 0x64, 0xa2, 0xbf, 0x94, 0x8d, 0xb4, 0xfa, 0x91, 0x96, 0x04,
     0x83],
    [0xb4, 0x6b, 0x7f, 0xa0, 0xfa, 0xb0, 0x35, 0x7a, 0x9e, 0x4e, 0xf6, 0x25, 0x04, 0x6b, 0x98, 0x69,
     0xb6, 0x6c, 0x28, 0xc3, 0x55, 0xfa, 0x3f, 0xb8, 0xf8, 0x5a, 0x30, 0xb6, 0x23, 0xec, 0xc8,
     0x95],
    [0xe5, 0xa1, 0x4d, 0xa2, 0xb6, 0x52, 0x30, 0xaf, 0x1d, 0x2b, 0xf2, 0x9e, 0x62, 0x90, 0xfa, 0x28,
     0x80, 0xf2, 0xd8, 0x5b, 0xd1, 0x2c, 0x17, 0xc5, 0x91, 0xad, 0xaf, 0x78, 0x83, 0x87, 0x1a,
     0xbd]]

/-- The `i`-th of the sample digests. -/
def requestHash (i : Nat) : Bytes := requestHashes.getD i []

/-- What these hashes are of. -/
def requestPreimages : List Bytes :=
  [utf8 ("RetrievalRequest(uint64 deal_id,string file_path,uint64 range_start,uint64 range_len," ++
      "uint64 nonce,uint64 expires_at)").toList,
    utf8 "f".toList,
    requestHash 0 ++ paddedBigBytes 0 ++ requestHash 1 ++ paddedBigBytes 0 ++ paddedBigBytes 1000 ++
      paddedBigBytes 1 ++ paddedBigBytes 1000,
    digestPreimage (domainHashes.getD 3 []) (requestHash 2)]

/-- The digests of the sample request. -/
def requestKeccak : HashTable where
  entries := domainPreimages.zip domainHashes ++ requestPreimages.zip requestHashes
  lengths := by decide +kernel

/-- The signature of the EVM account over the digest. -/
def requestSignature : Bytes :=
  [0xc2, 0x6f, 0x13, 0xbb, 0xb6, 0xa8, 0x04, 0x23, 0x25, 0xbd, 0x5b, 0xdc, 0x7a, 0x27, 0xa2, 0xea,
  0xae, 0x4d, 0xcd, 0x01, 0xde, 0x70, 0x10, 0x6a, 0xc2, 0xe4, 0x21, 0xe2, 0x4d, 0x4f, 0x3c, 0xcd,
  0x05, 0x19, 0x09, 0x02, 0x12, 0xd0, 0xa6, 0xf3, 0x3f, 0x8e, 0x2d, 0x59, 0x60, 0x55, 0xe2, 0x7f,
  0xb9, 0xaf, 0xf5, 0x97, 0xbf, 0xe7, 0xda, 0x85, 0x6c, 0xac, 0x56, 0x42, 0x90, 0x93, 0x0c, 0xb7,
  0x00]

/-- The gateway of the sample requests. -/
def requestEnv : RequestEnv where
  keccak256 := requestKeccak.hash
  sigToAddress := fun digest sig =>
    if digest = requestHash 3 ∧ sig = requestSignature then .ok signerAddr
    else .error "invalid signature"
  bech32Encode := fun hrp raw =>
    if hrp = "nil".toList ∧ raw = signerAddr then .ok signerText else .error "unknown address"
  hexErrorText := fun _ => "encoding/hex: invalid byte"
  marshalTime := fun sec =>
    if -62167219200 ≤ sec ∧ sec < 253402300800 then .ok ()
    else .error "Time.MarshalJSON: year outside of range [0,9999]"
  chainIdSetting := none
  requireRetrievalReqSig := true

/-- The request as it arrives at `GatewayFetch`. -/
def sampleHttp : HttpRequest where
  cid := "0x".toList ++ List.replicate 96 '0'
  header := fun name =>
    (([("X-Nil-Req-Sig", "0x".toList ++ hexEncode requestSignature),
      ("X-Nil-Req-Nonce", "1".toList), ("X-Nil-Req-Expires-At", "1000".toList),
      ("X-Nil-Req-Range-Start", "0".toList), ("X-Nil-Req-Range-Len", "1000".toList)] :
        List (String × Str)).lookup name).getD []
  query := fun name =>
    (([("deal_id", "0".toList), ("owner", signerText), ("file_path", "f".toList)] :
        List (String × Str)).lookup name).getD []

/-- It arrives at a second, and passes all else. -/
def arrivalAt (sec : Nat) : Arrival where
  endpoint := .fetch
  request := sampleHttp
  dealOwner := .ok signerText
  guards := .ok ()
  verifiedAt := sec * 10 ^ 9
  storedAt := sec * 10 ^ 9

/-- Twice before it expires, with a restart in between. -/
def earlyRun : List GatewayEvent :=
  [.request (arrivalAt 980), .restart, .request (arrivalAt 990)]

/-- The sample request, repeated in time, is honoured once. -/
theorem honouredBy_once_earlyRun :
    (honouredBy requestEnv .empty earlyRun).count (signerText, sampleRequest) ≤ 1 := by
  have hmem : ∀ a, GatewayEvent.request a ∈ earlyRun → a = arrivalAt 980 ∨ a = arrivalAt 990 := by
    intro a h
    simpa [earlyRun] using h
  refine honouredBy_once ?_ ?_
  · exact clocked_of_pairwise (by simp [earlyRun, arrivalAt])
  · intro past e rest heq a b ha _ _ _
    rcases hmem a (by rw [heq, ha]; simp) with rfl | rfl
    · decide
    · decide

/-- **Twice within the half minute after the expiry** the same request is honoured both times. -/
theorem honoured_twice :
    Clocked [.request (arrivalAt 1010), .request (arrivalAt 1010)] ∧
      (honouredBy requestEnv .empty [.request (arrivalAt 1010), .request (arrivalAt 1010)]).count
        (signerText, sampleRequest) = 2 := by
  constructor
  · exact clocked_of_pairwise (by simp)
  · decide +kernel

end NilStore.Gateway
