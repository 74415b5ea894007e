import NilStore.Proofs.PrecompileSteps

/-!
# `NilStore.Proofs.Frames`: which messages write which stores

Receipt nonces are written by proofs of liveness only, EVM nonces by signed messages only, and
sessions, their indexes and their nonces by the messages of sessions only. `handle_frame` says so
of every message that succeeds. The calls of the precompile that open or confirm sessions keep the
nonces of receipts and of signatures (`NoncesKept.serves`).
-/

set_option autoImplicit false

namespace NilStore.Chain

open NilStore.Lib

variable {β : Type}

/-- Receipt nonces and EVM nonces are as they were. -/
def NoncesKept (s s' : KeeperState β) : Prop :=
  s'.receiptNoncesByDealFile = s.receiptNoncesByDealFile ∧ s'.evmNonces = s.evmNonces

/-- The session messages keep the receipt nonces. -/
theorem NoncesKept.serves : ServesSessions (NoncesKept (β := β)) where
  refl _ := ⟨rfl, rfl⟩
  trans _ _ _ hab hbc := ⟨hbc.1.trans hab.1, hbc.2.trans hab.2⟩
  bank _ _ := ⟨rfl, rfl⟩
  escrow _ _ _ _ _ := ⟨rfl, rfl⟩
  sessions _ _ _ _ _ := ⟨rfl, rfl⟩
  heat _ _ := ⟨rfl, rfl⟩

/-- Sessions, their indexes and their nonces are as they were. -/
structure SessionsKept (s s' : KeeperState β) : Prop where
  sessions : s'.retrievalSessions = s.retrievalSessions
  byOwner : s'.retrievalSessionsByOwner = s.retrievalSessionsByOwner
  byProvider : s'.retrievalSessionsByProvider = s.retrievalSessionsByProvider
  nonces : s'.retrievalSessionNonces = s.retrievalSessionNonces

/-- A step that changes nothing keeps the sessions. -/
theorem SessionsKept.refl (s : KeeperState β) : SessionsKept s s := ⟨rfl, rfl, rfl, rfl⟩

namespace Msg

/-- The message carries an EVM signature. -/
def isSigned : Msg → Prop
  | .createDealFromEvm _ => True
  | .updateDealContentFromEvm _ => True
  | _ => False

/-- The message is one of the four of sessions. -/
def isSession : Msg → Prop
  | .openRetrievalSession _ => True
  | .confirmRetrievalSession _ => True
  | .cancelRetrievalSession _ => True
  | .submitRetrievalSessionProof _ => True
  | _ => False

end Msg

/-- The stores that a message leaves alone. -/
structure Frame (msg : Msg) (s s' : KeeperState β) : Prop where
  receiptNonces : (∀ m, msg ≠ .proveLiveness m) →
    s'.receiptNoncesByDealFile = s.receiptNoncesByDealFile
  evmNonces : ¬msg.isSigned → s'.evmNonces = s.evmNonces
  sessions : ¬msg.isSession → SessionsKept s s'

/-- The message leaves all of them alone. -/
theorem Frame.of_kept {msg : Msg} {s s' : KeeperState β} (hnonces : NoncesKept s s')
    (hsessions : SessionsKept s s') : Frame msg s s' :=
  ⟨fun _ => hnonces.1, fun _ => hnonces.2, fun _ => hsessions⟩

/-- A message of sessions keeps the nonces. -/
theorem Frame.of_session {msg : Msg} {s s' : KeeperState β} (hmsg : msg.isSession)
    (hnonces : NoncesKept s s') : Frame msg s s' :=
  ⟨fun _ => hnonces.1, fun _ => hnonces.2, fun hno => absurd hmsg hno⟩

section Handle

variable {env : Env β} {ctx : Ctx} {s s' : KeeperState β}

/-- A message that succeeds writes within its frame: the nonces of the bridge are written by the two
messages of the bridge, and those of the sessions by the session messages. -/
theorem handle_frame {msg : Msg} {u : Unit} (h : (handle env ctx msg).exec s = (.ok u, s')) :
    Frame msg s s' := by
  -- one case for each message, by the frame of its handler
  cases msg with
  | updateParams msg =>
      obtain ⟨-, -, rfl⟩ := updateParams_ok h
      exact .of_kept ⟨rfl, rfl⟩ ⟨rfl, rfl, rfl, rfl⟩
  | registerProvider msg =>
      obtain ⟨addr, endpoints, -, rfl⟩ := registerProvider_ok h
      exact .of_kept ⟨rfl, rfl⟩ ⟨rfl, rfl, rfl, rfl⟩
  | createDeal msg =>
      obtain ⟨r, h⟩ := discard_ok.mp h
      obtain ⟨payer, deal, -, -, -, hframe⟩ := createDeal_ok h
      rw [hframe]
      exact .of_kept ⟨rfl, rfl⟩ ⟨rfl, rfl, rfl, rfl⟩
  | updateDealContent msg =>
      obtain ⟨payer, deal, root, -, -, hframe⟩ := updateDealContent_ok h
      rw [hframe]
      exact .of_kept ⟨rfl, rfl⟩ ⟨rfl, rfl, rfl, rfl⟩
  | createDealFromEvm msg =>
      obtain ⟨r, h⟩ := discard_ok.mp h
      obtain ⟨intent, evmAddr, deal, -, -, -, -, -, hframe⟩ := createDealFromEvm_ok h
      rw [hframe]
      exact ⟨fun _ => rfl, fun hno => absurd trivial hno, fun _ => ⟨rfl, rfl, rfl, rfl⟩⟩
  | updateDealContentFromEvm msg =>
      obtain ⟨intent, evmAddr, deal, root, -, -, -, -, hframe⟩ := updateDealContentFromEvm_ok h
      rw [hframe]
      exact ⟨fun _ => rfl, fun hno => absurd trivial hno, fun _ => ⟨rfl, rfl, rfl, rfl⟩⟩
  | openRetrievalSession msg =>
      obtain ⟨id, h⟩ := discard_ok.mp h
      exact .of_session trivial ((keeps_openRetrievalSession NoncesKept.serves msg s).of_exec h)
  | confirmRetrievalSession msg =>
      exact .of_session trivial ((keeps_confirmRetrievalSession NoncesKept.serves msg s).of_exec h)
  | cancelRetrievalSession msg =>
      refine .of_session trivial ?_
      obtain ⟨session, -, -, hmoved⟩ := cancelRetrievalSession_ok h
      cases hmoved with
      | unchanged => exact ⟨rfl, rfl⟩
      | refunded hstatus hexp hfee hget hevidence =>
          rw [EvidenceOnly] at hevidence
          rw [hevidence]
          exact ⟨rfl, rfl⟩
      | free hstatus hexp hfee hevidence =>
          rw [EvidenceOnly] at hevidence
          rw [hevidence]
          exact ⟨rfl, rfl⟩
  | submitRetrievalSessionProof msg =>
      refine .of_session trivial ?_
      obtain ⟨session, -, -, -, -, hmoved⟩ := submitRetrievalSessionProof_ok h
      cases hmoved with
      | unchanged => exact ⟨rfl, rfl⟩
      | moved hstatus hfinished =>
          cases hfinished <;> exact ⟨rfl, rfl⟩
  | proveLiveness msg =>
      obtain ⟨r, h⟩ := discard_ok.mp h
      refine ⟨fun hne => absurd rfl (hne msg), fun _ => ?_, fun _ => ?_⟩
      · obtain ⟨deal, stripe, -, -, -, -, ⟨-, hrejected⟩ | ⟨-, hproved⟩⟩ := proveLiveness_ok h
        · rw [hrejected.frame]
        · rw [hproved.frame]
      · obtain ⟨deal, stripe, -, -, -, -, ⟨-, hrejected⟩ | ⟨-, hproved⟩⟩ := proveLiveness_ok h
        · rw [hrejected.frame]
          exact ⟨rfl, rfl, rfl, rfl⟩
        · rw [hproved.frame]
          exact ⟨rfl, rfl, rfl, rfl⟩
  | signalSaturation msg =>
      obtain ⟨r, h⟩ := discard_ok.mp h
      obtain ⟨deal, -, -, -, rfl⟩ := signalSaturation_ok h
      exact .of_kept ⟨rfl, rfl⟩ ⟨rfl, rfl, rfl, rfl⟩
  | startSlotRepair msg =>
      obtain ⟨deal, slot, pending, -, -, -, -, -, -, -, -, rfl⟩ := startSlotRepair_ok h
      exact .of_kept ⟨rfl, rfl⟩ ⟨rfl, rfl, rfl, rfl⟩
  | completeSlotRepair msg =>
      obtain ⟨deal, slot, -, rfl⟩ := completeSlotRepair_ok h
      exact .of_kept ⟨rfl, rfl⟩ ⟨rfl, rfl, rfl, rfl⟩
  | addCredit msg =>
      obtain ⟨r, h⟩ := discard_ok.mp h
      obtain ⟨payer, deal, amount, b, -, -, -, -, -, -, rfl⟩ := addCredit_ok h
      exact .of_kept ⟨rfl, rfl⟩ ⟨rfl, rfl, rfl, rfl⟩
  | withdrawRewards msg =>
      obtain ⟨r, h⟩ := discard_ok.mp h
      obtain ⟨addr, b₁, b₂, -, -, -, -, -, rfl⟩ := withdrawRewards_ok h
      exact .of_kept ⟨rfl, rfl⟩ ⟨rfl, rfl, rfl, rfl⟩

end Handle

end NilStore.Chain
