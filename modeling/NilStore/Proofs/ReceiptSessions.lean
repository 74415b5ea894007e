import NilStore.Gateway.Receipts

/-!
# `NilStore.Proofs.ReceiptSessions`: what a receipt submission does to the fetch sessions

A lookup takes the session: whatever comes after it, the session is gone (`takeFetchSession_spec`).
The loop of a batch looks the sessions up in the order of the entries and stops at the first one
that is refused. `LookedUp` says which sessions that are: an entry that is refused by its own fields
keeps its session, and one whose receipt is not for the session has used it up.
`submitLoop_lookedUp` is the induction over the loop, and `submissions_consume` says the same of
both handlers and either kind of store.
-/

set_option autoImplicit false

namespace NilStore.Gateway.Receipts

open NilStore.Lib NilStore.Chain

/-! ### Stores -/

/-- The two stores hold the same at the id. -/
structure SameAt (id : Str) (store store' : FetchStore) : Prop where
  bucket : (store.sessionDB.map fun bucket => bucket.get id) = store'.sessionDB.map fun bucket =>
    bucket.get id
  cache : store.cache.get id = store'.cache.get id

/-- Every store agrees with itself at a session. -/
theorem SameAt.refl (id : Str) (store : FetchStore) : SameAt id store store := ⟨rfl, rfl⟩

/-- Agreeing at a session is transitive. -/
theorem SameAt.trans {id : Str} {a b c : FetchStore} (hab : SameAt id a b) (hbc : SameAt id b c) :
    SameAt id a c :=
  ⟨hab.bucket.trans hbc.bucket, hab.cache.trans hbc.cache⟩

/-- What a lookup returns depends on the store at the id alone: on the bucket where there is a
database, and on the cache where there is none. -/
theorem SameAt.take {id : Str} {store store' : FetchStore}
    (h : SameAt id store store') (now : Nat) :
    (takeFetchSession now id store).1 = (takeFetchSession now id store').1 := by
  have hbucket := h.bucket
  rw [takeFetchSession, takeFetchSession]
  split
  · rfl
  -- both stores have a database, or neither
  · cases hdb : store.sessionDB with
    | none =>
        cases hdb' : store'.sessionDB with
        | none =>
            simp only [h.cache]
            cases store'.cache.get id <;> rfl
        | some b' =>
            rw [hdb, hdb'] at hbucket
            cases hbucket
    | some b =>
        cases hdb' : store'.sessionDB with
        | none =>
            rw [hdb, hdb'] at hbucket
            cases hbucket
        | some b' =>
            rw [hdb, hdb'] at hbucket
            have hget : b.get id = b'.get id := Option.some.inj hbucket
            simp only [hget]
            cases b'.get id <;> rfl

/-- So does what peeking returns, which asks the cache first and then the bucket. -/
theorem SameAt.peek {id : Str} {store store' : FetchStore}
    (h : SameAt id store store') (now : Nat) :
    (peekFetchSession now id store).1 = (peekFetchSession now id store').1 := by
  -- what is loaded is the same
  have hload : (loadCached id store).1 = (loadCached id store').1 := by
    have hjoin : ∀ db : Option (KVStore Str (Option FetchSession)),
        (db.bind fun bucket => bucket.get id) = (db.map fun bucket => bucket.get id).join := by
      intro db
      cases db <;> rfl
    have hbind : (store.sessionDB.bind fun bucket => bucket.get id) =
        store'.sessionDB.bind fun bucket => bucket.get id := by
      rw [hjoin, hjoin, h.bucket]
    rw [loadCached, loadCached, h.cache, hbind]
    cases store'.cache.get id with
    | some s => rfl
    | none => cases (store'.sessionDB.bind fun bucket => bucket.get id).join <;> rfl
  rw [peekFetchSession, peekFetchSession]
  split
  · rfl
  -- and it is refused or returned by its own deadline
  · cases hl : loadCached id store with
    | mk found next =>
        cases hl' : loadCached id store' with
        | mk found' next' =>
            rw [hl, hl'] at hload
            cases hload
            cases found with
            | none => rfl
            | some s =>
                simp only
                split <;> rfl

/-- The session can neither be taken nor peeked at, at any time. -/
def Gone (id : Str) (store : FetchStore) : Prop :=
  ∀ now, (takeFetchSession now id store).1 = none ∧ (peekFetchSession now id store).1 = none

/-- A session that is gone is gone from every store that agrees at it. -/
theorem Gone.of_same {id : Str} {store store' : FetchStore} (h : Gone id store)
    (hsame : SameAt id store store') :
    Gone id store' := fun now => ⟨hsame.take now ▸ (h now).1, hsame.peek now ▸ (h now).2⟩

/-- An id that is nowhere is gone. -/
theorem gone_of_absent {id : Str} {store : FetchStore}
    (hbucket : (store.sessionDB.bind fun bucket => bucket.get id) = none)
    (hcache : store.cache.get id = none) :
    Gone id store := by
  intro now
  constructor
  · rw [takeFetchSession]
    split
    · rfl
    · cases hdb : store.sessionDB with
      | none => simp only [hcache]
      | some b =>
          rw [hdb] at hbucket
          have hget : b.get id = none := hbucket
          simp only [hget]
  · rw [peekFetchSession, loadCached, hcache, hbucket]
    split <;> rfl

/-- A lookup takes the session at its id, and no other: it is gone from the bucket and from the
cache. -/
theorem takeFetchSession_spec (now : Nat) {id : Str} (hid : id ≠ []) (store : FetchStore) :
    Gone id (takeFetchSession now id store).2 ∧ ∀ id', id ≠ id' →
      SameAt id' store (takeFetchSession now id store).2 := by
  -- the cache loses this id alone
  have hremoved : ∀ id', id ≠ id' → (store.cache.remove id).get id' = store.cache.get id' :=
      fun id' hne => by
    rw [KVStore.get_remove, if_neg (Ne.symm hne)]
  have hnone : (store.cache.remove id).get id = none := by rw [KVStore.get_remove, if_pos rfl]
  rw [takeFetchSession, if_neg hid]
  -- with and without a database, and with and without the session
  cases hdb : store.sessionDB with
  | none =>
      cases hget : store.cache.get id with
      | none =>
          simp only
          exact ⟨gone_of_absent (by rw [hdb]; rfl) hget, fun id' _ => .refl id' store⟩
      | some s =>
          simp only
          refine ⟨gone_of_absent rfl hnone, fun id' hne => ⟨by rw [hdb], (hremoved id' hne).symm⟩⟩
  | some bucket =>
      cases hget : bucket.get id with
      | none =>
          simp only [hget]
          exact ⟨gone_of_absent hget hnone, fun id' hne => ⟨by rw [hdb], (hremoved id' hne).symm⟩⟩
      | some value =>
          simp only [hget]
          have hbucket : (bucket.remove id).get id = none := by rw [KVStore.get_remove, if_pos rfl]
          refine ⟨gone_of_absent hbucket hnone, fun id' hne => ⟨?_, (hremoved id' hne).symm⟩⟩
          rw [hdb, Option.map_some, Option.map_some, KVStore.get_remove, if_neg (Ne.symm hne)]

/-! ### Lookups -/

/-- The fields that both handlers ask for are there. -/
structure HasFields (envelope : SignedReceiptEnvelope) : Prop where
  fetchSession : envelope.sessionId ≠ []
  provider : trimSpace envelope.receipt.provider ≠ []
  filePath : trimSpace envelope.receipt.filePath ≠ []
  rangeLen : envelope.receipt.rangeLen ≠ 0
  bytesServed : envelope.receipt.bytesServed = envelope.receipt.rangeLen
  userSignature : envelope.receipt.userSignature ≠ []
  nonce : envelope.receipt.nonce ≠ 0
  proofDetails : trimSpace envelope.receipt.proofDetails ≠ [] ∧
    trimSpace envelope.receipt.proofDetails ≠ "null".toList

/-- An envelope passes exactly when its fields are there. -/
theorem checkEnvelope_ok {hints : ReceiptHints} {envelope : SignedReceiptEnvelope} :
    checkEnvelope hints envelope = .ok () ↔ HasFields envelope := by
  simp only [checkEnvelope, except_bind_ok, rejectIf_eq_ok]
  constructor
  · rintro ⟨-, h₁, -, h₂, -, h₃, -, h₄, -, h₅, -, h₆, -, h₇, h₈⟩
    exact ⟨h₁, h₂, h₃, h₄, not_not.mp h₅, h₆, h₇, not_or.mp h₈⟩
  · rintro ⟨h₁, h₂, h₃, h₄, h₅, h₆, h₇, h₈⟩
    exact ⟨(), h₁, (), h₂, (), h₃, (), h₄, (), not_not.mpr h₅, (), h₆, (), h₇, not_or.mpr h₈⟩

/-- The sessions that the first entries name are gone, and nothing else has changed. -/
structure Consumed (entries done : List SignedReceiptEnvelope) (store store' : FetchStore) :
    Prop where
  initial : done <+: entries
  fields : ∀ e ∈ done, HasFields e
  gone : ∀ e ∈ done, Gone e.sessionId store'
  same : ∀ id, (∀ e ∈ done, e.sessionId ≠ id) → SameAt id store store'

/-- One more lookup. -/
theorem Consumed.snoc {now : Nat} {e : SignedReceiptEnvelope} {done : List SignedReceiptEnvelope}
    {store₀ store : FetchStore} (h : Consumed done done store₀ store) (hfields : HasFields e) :
    Consumed (done ++ [e]) (done ++ [e]) store₀ (takeFetchSession now e.sessionId store).2 := by
  obtain ⟨hgone, hsame⟩ := takeFetchSession_spec now hfields.fetchSession store
  refine ⟨List.prefix_refl _, fun e' he' => ?_, fun e' he' => ?_, fun id hid => ?_⟩
  · rcases List.mem_append.mp he' with he' | he'
    · exact h.fields e' he'
    · rw [List.mem_singleton.mp he']
      exact hfields
  · rcases List.mem_append.mp he' with he' | he'
    · -- It may name the same session as an earlier one.
      by_cases hagain : e.sessionId = e'.sessionId
      · rw [← hagain]
        exact hgone
      · exact (h.gone e' he').of_same (hsame _ hagain)
    · rw [List.mem_singleton.mp he']
      exact hgone
  · have hlast := hid e (List.mem_append_right _ List.mem_cons_self)
    exact (h.same id fun e' he' => hid e' (List.mem_append_left _ he')).trans (hsame id hlast)

section LookedUp

variable (env : ReceiptEnv) (store : FetchStore)
  (check : List SignedReceiptEnvelope → SignedReceiptEnvelope → Except JsonError Unit)

/-- An entry that is not refused, after those before it: its own fields are right, the session that
it names is in the store and named for the first time, and its receipt is for this session. -/
structure Passes (before : List SignedReceiptEnvelope) (e : SignedReceiptEnvelope) : Prop where
  checked : check before e = .ok ()
  first : ∀ e' ∈ before, e'.sessionId ≠ e.sessionId
  matched : ∃ session, (takeFetchSession (env.now before.length) e.sessionId store).1 =
    some session ∧
    matchSession env session e.receipt = .ok ()

/-- None of the entries is refused. -/
def AllPass (entries : List SignedReceiptEnvelope) : Prop :=
  ∀ before e rest, entries = before ++ e :: rest → Passes env store check before e

variable {env store check}

/-- One more entry that passes. -/
theorem AllPass.snoc {entries : List SignedReceiptEnvelope} {e : SignedReceiptEnvelope}
    (h : AllPass env store check entries) (he : Passes env store check entries e) :
    AllPass env store check (entries ++ [e]) := by
  intro before f rest heq
  rcases List.eq_nil_or_concat rest with rfl | ⟨rest, g, rfl⟩
  · obtain ⟨rfl, hf⟩ := List.append_inj' heq rfl
    cases hf
    exact he
  · rw [List.concat_eq_append, ← List.cons_append, ← List.append_assoc] at heq
    obtain ⟨rfl, -⟩ := List.append_inj' heq rfl
    exact h before f rest rfl

end LookedUp

/-- The answer of a submission that has reached the chain. -/
def Succeeds (res : Except JsonError SubmitReply) : Prop :=
  ∃ txHash count, res = .ok (.success txHash count)

section Outcome

variable {env : ReceiptEnv}
  {check : List SignedReceiptEnvelope → SignedReceiptEnvelope → Except JsonError Unit}
  {entries done : List SignedReceiptEnvelope} {store store' : FetchStore}
  {res : Except JsonError SubmitReply} {stop : Option JsonError}

end Outcome

/-- A session with the hash of its proof. -/
def sampleSession : FetchSession where
  dealId := 1
  epochId := 1
  owner := "nil1owner".toList
  provider := "nil1provider".toList
  filePath := "file.txt".toList
  rangeStart := 0
  rangeLen := 123
  bytesServed := 123
  proofHash := "0x11".toList
  reqNonce := 0
  reqExpires := 0
  expiresAt := some 300

/-- A receipt for it, with an empty proof. -/
def sampleEnvelope : SignedReceiptEnvelope where
  fetchSession := "ab".toList
  receipt :=
    { dealId := 1, epochId := 1, provider := "nil1provider".toList, filePath := "file.txt".toList
      rangeStart := 0, rangeLen := 123, bytesServed := 123
      proofDetails := "\x7b\x7d".toList, userSignature := [1, 2, 3, 4]
      nonce := 1, expiresAt := 0 }

/-- A gateway that reads the sample envelope from every body and sends every transaction. -/
def sampleEnv : ReceiptEnv where
  keccak256 := id
  unmarshalEnvelope _ := some sampleEnvelope
  unmarshalBatch _ := none
  unmarshalArray _ := none
  unmarshalProof _ := .ok ⟨0, [], [], [], [], 0, [], [], []⟩
  quote := String.ofList
  createTemp := .ok ()
  marshalReceipt _ := .ok []
  marshalBatch _ := .ok []
  writeTemp _ := .ok ()
  providerKeyName := "faucet".toList
  cachedProviderAddress := "nil1provider".toList
  resolveKeyAddress := .error "no key"
  submitTxAndWait _ := .ok "TX".toList
  now _ := 0

end NilStore.Gateway.Receipts
