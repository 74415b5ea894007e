import NilStore.Lib.Logs
import NilStore.Proofs.Footprints

/-!
# `NilStore.Proofs.ProofLog`: the summaries of proofs are a log

`recordProofSummary` and `recordEvidenceSummary` store a summary under the next value of a counter.
The first is called for a liveness proof that succeeds, the second for an open session that its
owner cancels after its time. `proof_log` says of every run that the store is the log of these
events: numbered from zero without a gap, in the order of the blocks, and never changed afterwards.
-/

set_option autoImplicit false

namespace NilStore.Chain

open NilStore.Lib

variable {β : Type}

/-- The summary that is stored for a session without an answer. -/
def nonResponseSummary (ctx : Ctx) (reporter : Str) (session : RetrievalSession)
    (s : KeeperState β) : Proof where
  id := s.proofCount
  creator := session.provider
  commitment := "evidence:" ++ "retrieval_non_response" ++ " deal=" ++ toString session.dealId ++
    " provider=" ++ fmtS session.provider ++ " session=" ++ fmtS (hexEncode session.sessionId) ++
    " reporter=" ++ fmtS reporter
  valid := false
  blockHeight := ctx.blockHeight

/-- The summaries that an event stores. -/
def Event.summaries (env : Env β) (s : KeeperState β) : Event → List Proof
  | .deliver ctx (.proveLiveness msg) =>
      match s.deals.get msg.dealId.toNat, (proveLiveness env ctx msg).exec s with
      | some deal, (.ok r, _) => if r.success then [livenessSummary ctx msg deal s] else []
      | _, _ => []
  | .deliver ctx (.cancelRetrievalSession msg) =>
      match s.retrievalSessions.get msg.sessionId, (cancelRetrievalSession ctx msg).exec s with
      | some session, (.ok _, _) =>
          if session.status = .open then [nonResponseSummary ctx msg.creator session s] else []
      | _, _ => []
  | _ => []

/-- What a walk over the proofs visits. -/
def walkProofs (s : KeeperState β) : List Proof := s.proofs.entries.map (·.2)

/-! ### Steps -/

section Steps

variable {env : Env β} {ctx : Ctx} {s s' : KeeperState β}

/-- The summaries that an event has stored. -/
def Recorded (ps : List Proof) (s s' : KeeperState β) : Prop :=
  ∀ xs, IsLog s.proofs s.proofCount xs → IsLog s'.proofs s'.proofCount (xs ++ ps)

/-- A log that did not change has recorded nothing. -/
theorem Recorded.of_eq (hproofs : s'.proofs = s.proofs) (hcount : s'.proofCount = s.proofCount) :
    Recorded [] s s' := by
  intro xs h
  rw [hproofs, hcount, List.append_nil]
  exact h

/-- A step that changes nothing has recorded nothing. -/
theorem Recorded.refl (s : KeeperState β) : Recorded [] s s := .of_eq rfl rfl

/-- One summary written at the end of the log. -/
theorem Recorded.one {p : Proof} (hproofs : s'.proofs = s.proofs.set s.proofCount p)
    (hcount : s'.proofCount = s.proofCount + 1) : Recorded [p] s s' := by
  intro xs h
  rw [hproofs, hcount]
  exact h.append p

/-- What a cancellation stores: a summary of the failure when the session was still open, and
nothing else. -/
theorem cancelRetrievalSession_recorded {msg : MsgCancelRetrievalSession} {u : Unit}
    (h : (cancelRetrievalSession ctx msg).exec s = (.ok u, s')) :
    ∃ session, s.retrievalSessions.get msg.sessionId = some session ∧
      Recorded
        (if session.status = .open then [nonResponseSummary ctx msg.creator session s] else [])
        s s' := by
  simp only [cancelRetrievalSession, Tx.exec_reads_bind_ok] at h
  obtain ⟨session, hsession, h⟩ := h
  refine ⟨session, (partySession_ok hsession).1, ?_⟩
  -- a session that is over is left as it is
  rw [Tx.exec_ite] at h
  by_cases hover : session.status = .completed ∨ session.status = .canceled
  · simp only [if_pos hover, Tx.exec_pure, Prod.mk.injEq, true_and] at h
    subst h
    have hstatus : session.status ≠ .open := by
      rcases hover with hover | hover <;> rw [hover] <;> decide
    rw [if_neg hstatus]
    exact .of_eq rfl rfl
  · simp only [if_neg hover, Tx.exec_failIf_bind_ok, Tx.exec_update_bind] at h
    obtain ⟨-, h⟩ := h
    rw [Tx.exec_bind_ok] at h
    obtain ⟨_, s₂, hrefund, hlast⟩ := h
    -- Neither the refund nor the session itself touches the summaries.
    have hkeep : s'.proofs = s₂.proofs ∧ s'.proofCount = s₂.proofCount := by
      cases hlast
      exact ⟨rfl, rfl⟩
    generalize hs₁ : (if session.status = .open then recordNonResponse ctx msg.creator session
      else id) s = s₁ at hrefund
    have hsame : s₂.proofs = s₁.proofs ∧ s₂.proofCount = s₁.proofCount := by
      unfold refundFee at hrefund
      split at hrefund
      · simp only [Tx.exec_reads_bind_ok, Tx.exec_update, Prod.mk.injEq] at hrefund
        obtain ⟨deal, -, -, rfl⟩ := hrefund
        exact ⟨rfl, rfl⟩
      · cases hrefund
        exact ⟨rfl, rfl⟩
    subst hs₁
    split
    · rename_i hopen
      rw [if_pos hopen] at hsame
      exact .one (hkeep.1.trans hsame.1) (hkeep.2.trans hsame.2)
    · rename_i hclosed
      rw [if_neg hclosed] at hsame
      exact .of_eq (hkeep.1.trans hsame.1) (hkeep.2.trans hsame.2)

/-- What a liveness proof stores. -/
theorem proveLiveness_recorded {msg : MsgProveLiveness} {r : MsgProveLivenessResponse}
    (h : (proveLiveness env ctx msg).exec s = (.ok r, s')) :
    ∃ deal, s.deals.get msg.dealId.toNat = some deal ∧
      Recorded (if r.success then [livenessSummary ctx msg deal s] else []) s s' := by
  by_cases hr : r.success = true
  · obtain ⟨deal, hget, -, hproofs, hcount⟩ := proveLiveness_records h hr
    refine ⟨deal, hget, ?_⟩
    rw [if_pos hr]
    exact .one hproofs hcount
  · obtain ⟨deal, stripe, hget, -, -, -, ⟨-, hrejected⟩ | ⟨htrue, -⟩⟩ := proveLiveness_ok h
    · refine ⟨deal, hget, ?_⟩
      rw [if_neg hr]
      exact .of_eq (by rw [hrejected.frame]) (by rw [hrejected.frame])
    · exact absurd htrue hr

/-- A liveness proof records its own summary, and nothing where it is refused. -/
theorem deliver_liveness_recorded (env : Env β) (ctx : Ctx) (msg : MsgProveLiveness)
    (s : KeeperState β) :
    Recorded (Event.summaries env s (.deliver ctx (.proveLiveness msg))) s
      (apply env s (.deliver ctx (.proveLiveness msg))) := by
  rw [Event.summaries]
  cases hexec : (proveLiveness env ctx msg).exec s with
  | mk res s' =>
      cases res with
      | error fault =>
          have happly : apply env s (.deliver ctx (.proveLiveness msg)) = s :=
            Tx.commitOrRollback_of_error (Tx.exec_bind_error.mpr (Or.inl hexec))
          rw [happly]
          cases s.deals.get msg.dealId.toNat <;> exact Recorded.refl s
      | ok r =>
          have happly : apply env s (.deliver ctx (.proveLiveness msg)) = s' :=
            Tx.commitOrRollback_of_ok (a := ()) (discard_ok.mpr ⟨r, hexec⟩)
          obtain ⟨deal, hget, hrecorded⟩ := proveLiveness_recorded hexec
          rw [happly, hget]
          exact hrecorded

/-- A cancellation records nothing. -/
theorem deliver_cancel_recorded (env : Env β) (ctx : Ctx) (msg : MsgCancelRetrievalSession)
    (s : KeeperState β) :
    Recorded (Event.summaries env s (.deliver ctx (.cancelRetrievalSession msg))) s
      (apply env s (.deliver ctx (.cancelRetrievalSession msg))) := by
  rw [Event.summaries]
  cases hexec : (cancelRetrievalSession ctx msg).exec s with
  | mk res s' =>
      cases res with
      | error fault =>
          have happly : apply env s (.deliver ctx (.cancelRetrievalSession msg)) = s :=
            Tx.commitOrRollback_of_error hexec
          rw [happly]
          cases s.retrievalSessions.get msg.sessionId <;> exact Recorded.refl s
      | ok u =>
          have happly : apply env s (.deliver ctx (.cancelRetrievalSession msg)) = s' :=
            Tx.commitOrRollback_of_ok hexec
          obtain ⟨session, hget, hrecorded⟩ := cancelRetrievalSession_recorded hexec
          rw [happly, hget]
          exact hrecorded

/-- What an event stores: the summaries that it carries, at the end of the log. -/
theorem apply_recorded (env : Env β) (s : KeeperState β) (e : Event) :
    Recorded (e.summaries env s) s (apply env s e) := by
  -- the end of a block and the calls store none
  cases e with
  | endBlock ctx =>
      have hkept := endBlock_footprint env ctx s
      exact .of_eq hkept.proofs hkept.proofCount
  | call ctx input =>
      cases hrun : (Precompile.run env ctx input).exec s with
      | mk res s' =>
          have happly : apply env s (.call ctx input) = s' := by rw [apply, hrun]
          rw [happly]
          rcases Precompile.call_footprint hrun with hkept | ⟨_, _, _, _, _, _, -, -, hkept, -⟩
          · exact .of_eq hkept.proofs hkept.proofCount
          · exact .of_eq hkept.proofs hkept.proofCount
  | deliver ctx msg =>
      cases msg with
      | proveLiveness msg => exact deliver_liveness_recorded env ctx msg s
      | cancelRetrievalSession msg => exact deliver_cancel_recorded env ctx msg s
      | _ =>
          rcases deliver_cases env ctx _ s with hsame | hok
          · exact .of_eq (by rw [hsame]) (by rw [hsame])
          · obtain ⟨hproofs, hcount⟩ := (handle_footprint hok).proofs id
            exact .of_eq hproofs hcount

/-- An event stores one summary at most, with the number of the counter and the height of its
block. -/
theorem summaries_cases (env : Env β) (s : KeeperState β) (e : Event) :
    e.summaries env s = [] ∨
      ∃ p, e.summaries env s = [p] ∧ p.id = s.proofCount ∧ p.blockHeight = e.ctx.blockHeight := by
  -- a liveness proof, a cancellation, or any other event
  cases e with
  | endBlock ctx => exact Or.inl rfl
  | call ctx input => exact Or.inl rfl
  | deliver ctx msg =>
      cases msg with
      | proveLiveness msg =>
          rw [Event.summaries]
          split
          · split
            · exact Or.inr ⟨_, rfl, rfl, rfl⟩
            · exact Or.inl rfl
          · exact Or.inl rfl
      | cancelRetrievalSession msg =>
          rw [Event.summaries]
          split
          · split
            · exact Or.inr ⟨_, rfl, rfl, rfl⟩
            · exact Or.inl rfl
          · exact Or.inl rfl
      | _ => exact Or.inl rfl

end Steps

/-! ### Whole runs -/

/-- The summaries of a run from genesis. -/
def proofSummaries (env : Env β) (params : Params) (b : β) (es : List Event) : List Proof :=
  trace (apply env) (fun s e => e.summaries env s) (genesis params b) es

section Run

variable {env : Env β} {params : Params} {b : β} {es : List Event}

/-- The last event of a run adds its summaries at the end. -/
theorem proofSummaries_snoc (env : Env β) (params : Params) (b : β) (es : List Event) (e : Event) :
    proofSummaries env params b (es ++ [e]) =
      proofSummaries env params b es ++ e.summaries env (run (apply env) (genesis params b) es) :=
  trace_snoc _ _ _ _ _

/-- After every run, the store of proofs is the log of the summaries. -/
theorem run_proofs_isLog (env : Env β) (params : Params) (b : β) (es : List Event) :
    IsLog (run (apply env) (genesis params b) es).proofs
      (run (apply env) (genesis params b) es).proofCount (proofSummaries env params b es) := by
  have hstart : IsLog (genesis params b).proofs (genesis params b).proofCount [] := IsLog.empty
  exact run_isLog hstart (fun s e xs h => apply_recorded env s e xs h) es

/-- The number of a summary is its position. -/
theorem proofSummaries_id {i : Nat} {p : Proof}
    (h : (proofSummaries env params b es)[i]? = some p) :
    p.id = i := by
  induction es using List.reverseRecOn with
  | nil => cases h
  | append_singleton es e ih =>
      have hcount := (run_proofs_isLog env params b es).length
      rw [proofSummaries_snoc] at h
      rcases summaries_cases env (run (apply env) (genesis params b) es) e
        with hnil | ⟨q, hone, hid, -⟩
      · rw [hnil, List.append_nil] at h
        exact ih h
      · rw [hone, List.getElem?_append] at h
        split at h
        · exact ih h
        · rename_i hlast
          obtain ⟨hpos, rfl⟩ := List.getElem?_eq_some_iff.mp h
          rw [List.length_singleton] at hpos
          simp only [List.getElem_singleton, hid, hcount]
          omega

/-- In blocks of consecutive heights, the summaries are in the order of their heights, and none is
from a later block than the open one. -/
theorem proofSummaries_sorted {h₀ : Nat} (hblocks : Blocks h₀ es) :
    (proofSummaries env params b es).Pairwise (fun p q => p.blockHeight ≤ q.blockHeight) ∧
      ∀ p ∈ proofSummaries env params b es, p.blockHeight ≤ openHeight h₀ es := by
  -- by the run; a new summary has the height of the open block
  induction es using List.reverseRecOn with
  | nil => exact ⟨List.Pairwise.nil, nofun⟩
  | append_singleton es e ih =>
      obtain ⟨hsorted, hle⟩ := ih hblocks.left
      have hheight : e.ctx.blockHeight = openHeight h₀ es := hblocks.last
      have hmono : openHeight h₀ es ≤ openHeight h₀ (es ++ [e]) := by
        simp only [openHeight, List.countP_append]
        omega
      rw [proofSummaries_snoc]
      rcases summaries_cases env (run (apply env) (genesis params b) es) e
        with hnil | ⟨q, hone, -, hq⟩
      · rw [hnil, List.append_nil]
        exact ⟨hsorted, fun p hp => (hle p hp).trans hmono⟩
      · rw [hone, List.pairwise_append]
        refine ⟨⟨hsorted, List.pairwise_singleton _ _, fun p hp q' hq' => ?_⟩, fun p hp => ?_⟩
        · obtain rfl := List.mem_singleton.mp hq'
          rw [hq, hheight]
          exact hle p hp
        · rcases List.mem_append.mp hp with hp | hp
          · exact (hle p hp).trans hmono
          · obtain rfl := List.mem_singleton.mp hp
            rw [hq, hheight]
            exact hmono

end Run

/-- The proofs of a whole run are a log. The counter is their number, the proof under a number is
the summary that was stored at that position and carries that number, and it stays whatever happens
next. A walk over the store visits the log from its beginning, and where blocks come one after the
other it is in the order of their heights. -/
theorem proof_log (env : Env β) (params : Params) (b : β) (es : List Event) :
    (run (apply env) (genesis params b) es).proofCount = (proofSummaries env params b es).length ∧
    walkProofs (run (apply env) (genesis params b) es) = proofSummaries env params b es ∧
    (∀ id p, (run (apply env) (genesis params b) es).proofs.get id = some p ↔
      p.id = id ∧ p ∈ proofSummaries env params b es) ∧
    (∀ more id p, (run (apply env) (genesis params b) es).proofs.get id = some p →
      (run (apply env) (genesis params b) (es ++ more)).proofs.get id = some p) ∧
    ∀ h₀, Blocks h₀ es →
      (proofSummaries env params b es).Pairwise fun p q => p.blockHeight ≤ q.blockHeight := by
  have hlog := run_proofs_isLog env params b es
  refine ⟨hlog.length, hlog.values, fun id p => ?_, fun more id p hget => ?_,
    fun h₀ hblocks => (proofSummaries_sorted hblocks).1⟩
  -- the store under a number is the log at that position
  · rw [hlog.get id]
    constructor
    · intro h
      exact ⟨proofSummaries_id h, List.mem_of_getElem? h⟩
    · rintro ⟨rfl, hmem⟩
      obtain ⟨i, hi⟩ := List.mem_iff_getElem?.mp hmem
      rw [proofSummaries_id hi, hi]
  · -- The longer run puts out the shorter one's log first.
    rw [hlog.get id] at hget
    rw [(run_proofs_isLog env params b (es ++ more)).get id]
    unfold proofSummaries at hget ⊢
    rw [trace_append, List.getElem?_append_left (List.getElem?_eq_some_iff.mp hget).1, hget]

end NilStore.Chain
