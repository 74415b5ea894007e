import NilStore.Chain.Query
import NilStore.Proofs.ReceiptNonces
import NilStore.Proofs.SessionIndex

/-!
# `NilStore.Proofs.QueryAnswers`: what a client learns from the query server

A client that opens sessions finds them again in two listings, and one that signs receipts asks for
the last nonce of a file before it signs the next one. `sessions_listed` says of every run that the
listings are exact: the sessions of the name, each of them once and in the order of their ids.
`receipt_nonce_answered` says that the answer is the nonce of the last receipt that was accepted,
whichever of the four paths it came by, and the bound that the next one has to pass.

The request is trimmed before the store is read. Receipts of messages have a trimmed path, so their
nonces are found. A batch of the precompile keeps its path as it is, and where there is white space
around it no request is answered with its nonce.
-/

set_option autoImplicit false

namespace NilStore.Chain

open NilStore.Lib

variable {β : Type}

/-! ### Sessions -/

section Sessions

variable {s : KeeperState β} {name : Str}

/-- The stored sessions of a party, in the order of their ids. -/
def sessionsOf (party : RetrievalSession → Str) (s : KeeperState β) (name : Str) :
    List RetrievalSession :=
  (s.retrievalSessions.entries.filter fun e => party e.2 = name).map (·.2)

/-- The sessions of a party are the stored ones that name it. -/
theorem mem_sessionsOf {party : RetrievalSession → Str} {session : RetrievalSession} :
    session ∈ sessionsOf party s name ↔
      ∃ id, s.retrievalSessions.get id = some session ∧ party session = name := by
  rw [sessionsOf, List.mem_map]
  constructor
  · rintro ⟨⟨id, session'⟩, he, rfl⟩
    obtain ⟨hmem, hparty⟩ := List.mem_filter.mp he
    exact ⟨id, KVStore.mem_entries.mp hmem, of_decide_eq_true hparty⟩
  · rintro ⟨id, hget, hparty⟩
    exact ⟨(id, session),
      List.mem_filter.mpr ⟨KVStore.mem_entries.mpr hget, decide_eq_true hparty⟩, rfl⟩

/-- A walk over an index that has the parties of the sessions lists the sessions of the name. -/
theorem listSessions_eq {party : RetrievalSession → Str} {index : KVStore (Str ×ₗ Bytes) UInt64}
    {called : String} (h : Indexed party index s.retrievalSessions) (hname : trimSpace name ≠ []) :
    listSessions index called s (some name) = .ok (sessionsOf party s (trimSpace name)) := by
  have hindexes : Indexes party index s.retrievalSessions := h
  have hwalk : walkIndex index s.retrievalSessions (trimSpace name) =
      sessionsOf party s (trimSpace name) := by
    rw [hindexes.walk_eq, sessionsOf]
    congr!
  rw [← hwalk]
  exact except_bind_ok.mpr ⟨name, rfl, except_bind_ok.mpr ⟨(), rejectIf_eq_ok.mpr hname, rfl⟩⟩

/-- A session is fetched under a 32-byte id when it is stored there. -/
theorem getRetrievalSession_eq_ok {id : Bytes} {session : RetrievalSession} :
    getRetrievalSession s (some id) = .ok session ↔
      id.length = 32 ∧ s.retrievalSessions.get id = some session := by
  simp [getRetrievalSession, requested, orFail_eq_ok, rejectIf_eq_ok, except_bind_ok]

end Sessions

/-- The sessions of a run, while the hash has no collision on the identities of its openings. A
listing by owner or by provider answers with the sessions of the name and no other, in the order of
their ids. Every stored session can be fetched under its id, is in the list of its provider, and in
that of its owner when there is no white space around the owner's text; what is fetched is
stored. -/
theorem sessions_listed (env : Env β) (params : Params) (b : β) (es : List Event)
    (hcollision : Set.InjOn env.keccak256 (openingPreimages env es)) :
    let s := run (apply env) (genesis params b) es
    (∀ name, trimSpace name ≠ [] →
      listRetrievalSessionsByOwner s (some name) =
        .ok (sessionsOf (·.owner) s (trimSpace name)) ∧
      listRetrievalSessionsByProvider s (some name) =
        .ok (sessionsOf (·.provider) s (trimSpace name))) ∧
    ∀ id session, s.retrievalSessions.get id = some session →
      getRetrievalSession s (some id) = .ok session ∧ session.sessionId = id ∧
      (∃ listed, listRetrievalSessionsByProvider s (some session.provider) = .ok listed ∧
        session ∈ listed) ∧
      (trimSpace session.owner = session.owner → session.owner ≠ [] →
        ∃ listed, listRetrievalSessionsByOwner s (some session.owner) = .ok listed ∧
          session ∈ listed) := by
  intro s
  -- the two indexes hold what the sessions say
  have hindexed : SessionsIndexed env (openingPreimages env es) s :=
    (run_opens hcollision fun e he msg hmsg b hb => ⟨e, he, msg, hmsg, hb⟩).indexed
  have hlists : ∀ name, trimSpace name ≠ [] →
      listRetrievalSessionsByOwner s (some name) =
        .ok (sessionsOf (·.owner) s (trimSpace name)) ∧
      listRetrievalSessionsByProvider s (some name) =
        .ok (sessionsOf (·.provider) s (trimSpace name)) :=
    fun name hname =>
      ⟨listSessions_eq hindexed.byOwner hname, listSessions_eq hindexed.byProvider hname⟩
  refine ⟨hlists, fun id session hget => ?_⟩
  have hsound := hindexed.sound id session hget
  -- The id is a hash.
  have hlength : id.length = 32 := by
    obtain ⟨owner, provider, -, -, -, -, -, -, hhash⟩ := hsound.identity
    rw [← hhash, env.length_keccak256]
  -- The provider is registered, so its text is the one that its address prints.
  obtain ⟨htrim, hne⟩ := (hindexed.wellFormed.canonical hsound.registered).trimSpace
  refine ⟨getRetrievalSession_eq_ok.mpr ⟨hlength, hget⟩, hsound.sessionId, ?_,
    fun htrim' hne' => ?_⟩
  · refine ⟨_, (hlists session.provider (by rwa [htrim])).2, ?_⟩
    exact mem_sessionsOf.mpr ⟨id, hget, htrim.symm⟩
  · refine ⟨_, (hlists session.owner (by rwa [htrim'])).1, ?_⟩
    exact mem_sessionsOf.mpr ⟨id, hget, htrim'.symm⟩

/-- Both sessions of the small chain are in the list of their owner, in the order of their ids,
whatever white space the request has. -/
theorem sessions_listed_twoOpens :
    ∃ listed, listRetrievalSessionsByOwner (run (apply (sampleEnv twoOpensKeccak []))
        (genesis defaultParams sampleBank) twoOpensRun) (some (' ' :: ownerText)) = .ok listed ∧
      listed.map (·.sessionId) = [nextOpenId, openId] := by
  obtain ⟨hlists, -⟩ :=
    sessions_listed (sampleEnv twoOpensKeccak []) defaultParams sampleBank twoOpensRun
    twoOpensRun_injOn
  refine ⟨_, (hlists (' ' :: ownerText) (by decide +kernel)).1, ?_⟩
  decide +kernel

/-! ### Receipt nonces -/

section Trimmed

variable {c : ProofCall β} {s s' : KeeperState β} {bytes bytes' : UInt64}

/-- The path of the receipt has no white space around it, and is not empty. -/
def AcceptedReceipt.Trimmed (a : AcceptedReceipt) : Prop :=
  trimSpace (ofLex a.dealFile).2 = (ofLex a.dealFile).2 ∧ (ofLex a.dealFile).2 ≠ []

/-- An envelope that passes names its file without white space around it. -/
theorem checkEnvelope_trimmed {name : String} {dealId epochId : UInt64} {provider filePath : Str}
    {u : Unit} (h : c.checkEnvelope name dealId epochId provider filePath = .ok u) :
    trimSpace filePath = filePath ∧ filePath ≠ [] := by
  simp only [ProofCall.checkEnvelope, except_bind_ok, rejectIf_eq_ok, not_not] at h
  obtain ⟨_, -, _, -, _, -, _, hne, htrim⟩ := h
  rw [← htrim] at hne
  exact ⟨htrim.symm, hne⟩

/-- A receipt that verifies names its file so. -/
theorem verifyRetrievalReceipt_trimmed {receipt : RetrievalReceipt}
    (h : (c.verifyRetrievalReceipt bytes receipt).exec s = (.ok bytes', s')) :
    (AcceptedReceipt.receipt receipt).Trimmed := by
  simp only [ProofCall.verifyRetrievalReceipt, Tx.exec_reads_bind_ok] at h
  obtain ⟨_, hcheck, -⟩ := h
  simp only [ProofCall.checkReceipt, except_bind_ok] at hcheck
  obtain ⟨_, henvelope, -⟩ := hcheck
  exact checkEnvelope_trimmed henvelope

/-- So do all receipts of a batch that verifies. -/
theorem verifyReceipts_trimmed {receipts : List RetrievalReceipt}
    (h : (c.verifyReceipts bytes receipts).exec s = (.ok bytes', s')) :
    ∀ receipt ∈ receipts, (AcceptedReceipt.receipt receipt).Trimmed := by
  induction receipts generalizing bytes s with
  | nil => simp
  | cons receipt rest ih =>
      rw [ProofCall.verifyReceipts, Tx.exec_bind_ok] at h
      obtain ⟨bytes₁, s₁, hone, hrest⟩ := h
      exact List.forall_mem_cons.mpr ⟨verifyRetrievalReceipt_trimmed hone, ih hrest⟩

/-- The receipts of a message that the switch accepts have paths without white space around them.
Each kind of proof checks this on its own way. -/
theorem handleProof_trimmed {outcome : ProofOutcome}
    (h : c.handleProof.exec s = (.ok outcome, s')) :
    ∀ a ∈ c.msg.proofType.receipts, a.Trimmed := by
  rw [ProofCall.handleProof] at h
  -- by the kind of the proof
  cases hpt : c.msg.proofType with
  | systemProof proof => simp [ProofType.receipts]
  | userReceipt receipt =>
      cases receipt with
      | none => simp [ProofType.receipts]
      | some receipt =>
          simp only [hpt, Tx.exec_bind_ok] at h
          obtain ⟨bytes, s₁, hone, -⟩ := h
          simpa [ProofType.receipts] using verifyRetrievalReceipt_trimmed hone
  | userReceiptBatch receipts =>
      simp only [hpt, Tx.exec_failIf_bind_ok] at h
      obtain ⟨-, h⟩ := h
      rw [Tx.exec_bind_ok] at h
      obtain ⟨bytes, s₁, hall, -⟩ := h
      have htrimmed := verifyReceipts_trimmed hall
      simpa [ProofType.receipts] using htrimmed
  | sessionProof proof =>
      cases proof with
      | none => simp [ProofType.receipts]
      | some proof =>
          simp only [hpt, Tx.exec_bind_ok] at h
          obtain ⟨bytes, s₁, hsession, -⟩ := h
          simp only [ProofCall.verifySession, Tx.exec_reads_bind_ok] at hsession
          obtain ⟨_, hcheck, -⟩ := hsession
          simp only [ProofCall.checkSessionReceipt, except_bind_ok] at hcheck
          obtain ⟨_, henvelope, -⟩ := hcheck
          have htrimmed : (AcceptedReceipt.session proof.sessionReceipt).Trimmed :=
            checkEnvelope_trimmed henvelope
          simpa [ProofType.receipts] using htrimmed
  | unset => simp [ProofType.receipts]

/-- The receipts of a proof message that was answered. -/
theorem proveLiveness_trimmed {env : Env β} {ctx : Ctx} {msg : MsgProveLiveness}
    {r : MsgProveLivenessResponse} (h : (proveLiveness env ctx msg).exec s = (.ok r, s')) :
    ∀ a ∈ msg.proofType.receipts, a.Trimmed := by
  simp only [proveLiveness, Tx.exec_reads_bind_ok, Tx.exec_failIf_bind_ok,
    Tx.exec_ofExcept_bind_ok, Tx.exec_update_bind, Tx.exec_gets_bind] at h
  obtain ⟨deal, -, -, stripe, -, -, -, h⟩ := h
  rw [Tx.exec_bind_ok] at h
  obtain ⟨outcome, s₂, hproof, -⟩ := h
  exact handleProof_trimmed hproof

end Trimmed

/-- A receipt that an event accepts has a trimmed path, unless it is a batch of the precompile: that
one does not trim. -/
theorem accepted_trimmed {env : Env β} {s : KeeperState β} {e : Event} {a : AcceptedReceipt}
    (h : a ∈ e.accepted env s) :
    a.Trimmed ∨ ∃ dealId filePath nonce, a = .batch dealId filePath nonce := by
  -- only a liveness proof and a call accept receipts
  cases e with
  | deliver ctx msg =>
      cases msg with
      | proveLiveness msg =>
          cases hexec : (proveLiveness env ctx msg).exec s with
          | mk res s' =>
              cases res with
              | error fault => simp [Event.accepted, hexec, Except.isOk, Except.toBool] at h
              | ok r =>
                  simp only [Event.accepted, hexec] at h
                  exact Or.inl (proveLiveness_trimmed hexec a h)
      | _ => exact absurd h (by simp [Event.accepted])
  | endBlock ctx => exact absurd h (by simp [Event.accepted])
  | call ctx input =>
      rw [Event.accepted] at h
      split at h
      · split at h
        · exact Or.inr ⟨_, _, _, List.mem_singleton.mp h⟩
        · exact absurd h (by simp)
      · exact absurd h (by simp)

/-- The receipts that a run has accepted for a file of a deal. -/
def acceptedFor (env : Env β) (params : Params) (b : β) (es : List Event) (dealId : UInt64)
    (filePath : Str) : List AcceptedReceipt :=
  (trace (apply env) (fun s e => e.accepted env s) (genesis params b) es).filter fun a =>
    a.dealFile = join dealId.toNat filePath

/-- The last nonce that a client asks for. In every run, the answer for a path is the nonce of the
last receipt that was accepted for the trimmed path, and zero when there was none. No accepted
receipt has a higher nonce, and whatever the next event accepts for that path has one. A receipt
that came by a message is among those that some request is answered about. -/
theorem receipt_nonce_answered (env : Env β) (params : Params) (b : β) (es : List Event)
    (dealId : UInt64) (path : Str) (hpath : trimSpace path ≠ []) :
    let s := run (apply env) (genesis params b) es
    ∃ nonce, getReceiptNonce s (some (dealId, path)) = .ok nonce ∧
      nonce = ((acceptedFor env params b es dealId (trimSpace path)).getLast?.map
        (·.nonce)).getD 0 ∧
      (∀ a ∈ acceptedFor env params b es dealId (trimSpace path), a.nonce ≤ nonce) ∧
      (∀ e : Event, ∀ a ∈ e.accepted env s, a.dealFile = join dealId.toNat (trimSpace path) →
        nonce < a.nonce) ∧
      ∀ a ∈ trace (apply env) (fun s e => e.accepted env s) (genesis params b) es,
        (∀ d p n, a ≠ .batch d p n) → a.Trimmed := by
  intro s
  -- the receipts of the run, as uses of nonces
  have hconsumes : Consumes 0 (genesis params b).receiptNoncesByDealFile
      ((trace (apply env) (fun s e => e.accepted env s) (genesis params b) es).map (·.use))
      s.receiptNoncesByDealFile := by
    rw [← trace_map]
    refine run_consumes (fun _ _ => True) KeeperState.receiptNoncesByDealFile
      (fun s e => (e.accepted env s).map (·.use)) (fun past e _ => apply_consumes env _ e) ?_
    exact fun _ _ _ _ => trivial
  -- What is stored is the nonce of the last use.
  have hlast : lastUsed 0 s.receiptNoncesByDealFile (join dealId.toNat (trimSpace path)) =
      ((acceptedFor env params b es dealId (trimSpace path)).getLast?.map (·.nonce)).getD 0 := by
    rw [hconsumes.lastUsed_eq, List.filter_map, List.getLast?_map, Option.map_map, acceptedFor]
    congr! with a
    simp [AcceptedReceipt.use]
  refine ⟨lastUsed 0 s.receiptNoncesByDealFile (join dealId.toNat (trimSpace path)), ?_,
    hlast, ?_, ?_, fun a ha hbatch => ?_⟩
  · exact except_bind_ok.mpr ⟨(dealId, path), rfl,
      except_bind_ok.mpr ⟨(), rejectIf_eq_ok.mpr hpath, rfl⟩⟩
  · -- The accepted nonces of the file increase, so the last is the highest.
    intro a ha
    rw [hlast]
    have hincreasing : (acceptedFor env params b es dealId (trimSpace path)).Pairwise
        fun a a' => a.nonce < a'.nonce := by
      have hall := (List.pairwise_map.mp hconsumes.increasing).filter fun a =>
        a.dealFile = join dealId.toNat (trimSpace path)
      refine hall.imp_of_mem fun {a a'} hmem hmem' hlt => hlt ?_
      have ha := of_decide_eq_true (List.mem_filter.mp hmem).2
      have ha' := of_decide_eq_true (List.mem_filter.mp hmem').2
      exact ha.trans ha'.symm
    obtain ⟨last, hgetLast⟩ := Option.ne_none_iff_exists'.mp
      (mt List.getLast?_eq_none_iff.mp (List.ne_nil_of_mem ha))
    rw [hgetLast, Option.map_some, Option.getD_some]
    obtain ⟨before, hsplit⟩ := List.getLast?_eq_some_iff.mp hgetLast
    rw [hsplit] at ha hincreasing
    rcases List.mem_append.mp ha with hbefore | hself
    · exact UInt64.le_of_lt ((List.pairwise_append.mp hincreasing).2.2 a hbefore last (by simp))
    · rw [List.mem_singleton.mp hself]
      exact UInt64.le_refl _
  · intro e a ha hfile
    have habove := (apply_consumes env s e).above a.use (List.mem_map_of_mem ha)
    have huse : a.use.1 = join dealId.toNat (trimSpace path) := hfile
    rwa [huse] at habove
  -- a receipt of a message has a trimmed path
  · obtain ⟨past, e, -, -, he⟩ := mem_trace ha
    rcases accepted_trimmed he with htrimmed | ⟨d, p, n, rfl⟩
    · exact htrimmed
    · exact absurd rfl (hbatch d p n)

/-- A provider is paid for a batch under a path, with the nonce 5. -/
def batchRun (filePath : String) : List Event :=
  sampleContentRun "General" ++
    [.call (ctxAt 2) ⟨false, ownerAddr,
      .ok (.proveRetrievalBatch 0 providerText filePath.toList 5 [⟨0, 1, sampleProof 0⟩])⟩]

/-- The state that such a run reaches. -/
def batchState (filePath : String) : KeeperState Ledger :=
  run (apply (sampleProofEnv noKeccak)) (genesis defaultParams sampleBank) (batchRun filePath)

/-- After the sample batch the query answers the nonce of its last receipt. -/
theorem receipt_nonce_answered_batchRun :
    getReceiptNonce (batchState "f") (some (0, " f".toList)) = .ok 5 := by
  obtain ⟨nonce, hanswer, hlast, -⟩ :=
    receipt_nonce_answered (sampleProofEnv noKeccak) defaultParams
    sampleBank (batchRun "f") 0 " f".toList (by decide +kernel)
  rw [batchState, hanswer, hlast]
  decide +kernel

/-- With a blank before its path the batch has used its nonce, and the query does not know. -/
example :
    lastNonce (batchState " f").receiptNoncesByDealFile (join 0 " f".toList) = 5 ∧
      getReceiptNonce (batchState " f") (some (0, " f".toList)) = .ok 0 := by
  decide +kernel

end NilStore.Chain
