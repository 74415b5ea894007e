import NilStore.Proofs.SessionSteps
import Mathlib.Data.Rat.Floor

/-!
# `NilStore.Proofs.Fees`: params in force, and the fees they set

Genesis and `UpdateParams` store only params that `Params.Validate` accepts, so the params in
force are valid after every event (`run_params`). Valid fees are amounts of the bond denom and not
negative (`Params.validate_ok`), and the part of a retrieval fee that is burned is the fee's share
in basis points, rounded up (`settleBurn_eq_ceil`).
-/

set_option autoImplicit false

namespace NilStore.Chain

open NilStore.Lib

variable {β : Type}

/-! ### Valid params -/

/-- The characters of a denom are no white space. -/
theorem isSpace_of_isDenomChar {c : Char} (h : isDenomChar c = true) : isSpace c = false := by
  have hcases : c.isAlphanum = true ∨ c = '/' ∨ c = ':' ∨ c = '.' ∨ c = '_' ∨ c = '-' := by
    simpa [isDenomChar, or_assoc] using h
  rcases hcases with h | rfl | rfl | rfl | rfl | rfl
  · -- A letter or a digit is between `0` and `z`.
    have hrange : 48 ≤ c.toNat ∧ c.toNat ≤ 122 := by
      simp only [Char.isAlphanum, Char.isAlpha, Char.isUpper, Char.isLower, Char.isDigit,
        Bool.or_eq_true, Bool.and_eq_true, decide_eq_true_eq, UInt32.le_iff_toNat_le] at h
      have h0 : '0'.val.toNat = 48 := rfl
      have h9 : '9'.val.toNat = 57 := rfl
      have hA : 'A'.val.toNat = 65 := rfl
      have hZ : 'Z'.val.toNat = 90 := rfl
      have ha : 'a'.val.toNat = 97 := rfl
      have hz : 'z'.val.toNat = 122 := rfl
      have hval : c.val.toNat = c.toNat := rfl
      omega
    simp only [isSpace, Bool.or_eq_false_iff, Bool.and_eq_false_iff, decide_eq_false_iff_not,
      beq_eq_false_iff_ne]
    omega
  all_goals decide

/-- A valid denomination has no white space around it. -/
theorem trimSpace_of_validDenom {d : Str} (h : validDenom d = true) : trimSpace d = d := by
  cases d with
  | nil => rfl
  | cons c rest =>
      simp only [validDenom, Bool.and_eq_true, List.all_eq_true] at h
      refine trimSpace_eq_self fun x hx => isSpace_of_isDenomChar ?_
      rcases List.mem_cons.mp hx with rfl | hx
      · simp [isDenomChar, Char.isAlphanum, h.1.1.1]
      · exact h.2 x hx

/-- A fee that passes its check is an amount of the bond denom. -/
theorem validateBondCoin_ok {name : String} {coin : Coin}
    (h : validateBondCoin name coin = .ok ()) :
    coin = bondCoin coin.amount ∧ 0 ≤ coin.amount := by
  simp only [validateBondCoin, except_bind_ok, rejectIf_eq_ok, not_not] at h
  obtain ⟨-, hvalid, hdenom⟩ := h
  rw [Coin.isValid, Bool.and_eq_true, decide_eq_true_eq] at hvalid
  rw [trimSpace_of_validDenom hvalid.1] at hdenom
  refine ⟨?_, hvalid.2⟩
  cases coin
  exact congrArg (Coin.mk · _) hdenom

/-- What `Params.Validate` promises of the fees. -/
structure Params.Valid (params : Params) : Prop where
  creationFee : params.dealCreationFee = bondCoin params.dealCreationFee.amount
  baseFee : params.baseRetrievalFee = bondCoin params.baseRetrievalFee.amount
  baseFee_nonneg : 0 ≤ params.baseRetrievalFee.amount
  burnBps_le : params.retrievalBurnBps.toNat ≤ 10000

/-- Parameters that pass validation meet all its conditions. -/
theorem Params.validate_ok {params : Params} (h : params.validate = .ok ()) : params.Valid := by
  simp only [Params.validate, except_bind_ok, rejectIf_eq_ok] at h
  obtain ⟨_, -, _, -, _, hcreation, _, hbase, _, -, hbps⟩ := h
  obtain ⟨hbase, hnonneg⟩ := validateBondCoin_ok hbase
  exact ⟨(validateBondCoin_ok hcreation).1, hbase, hnonneg,
    UInt64.le_iff_toNat_le.mp (UInt64.not_lt.mp hbps)⟩

/-! ### The share that is burned -/

section Burn

variable {params : Params} {fee : Int}

/-- The burned part of a fee is its share in basis points, rounded up. -/
theorem settleBurn_eq_ceil (hp : params.Valid) (hfee : 0 ≤ fee) :
    settleBurn params fee = ⌈(fee * params.retrievalBurnBps.toNat : ℚ) / 10000⌉ := by
  have hceil := Rat.ceil_intCast_div_natCast (fee * params.retrievalBurnBps.toNat) 10000
  push_cast at hceil
  rw [hceil, settleBurn, setUint64]
  have hbps := hp.burnBps_le
  have hshare : fee * params.retrievalBurnBps.toNat ≤ fee * 10000 :=
    Int.mul_le_mul_of_nonneg_left (by omega) hfee
  split
  · omega
  · rename_i hzero
    have : params.retrievalBurnBps.toNat = 0 := by
      rw [UInt64.lt_iff_toNat_lt] at hzero
      exact Nat.eq_zero_of_not_pos hzero
    rw [this]
    simp

/-- The burned part of a fee is a part of it. -/
theorem settleBurn_bounds (hp : params.Valid) (hfee : 0 ≤ fee) :
    0 ≤ settleBurn params fee ∧ settleBurn params fee ≤ fee := by
  have hbps := hp.burnBps_le
  have hnonneg : 0 ≤ fee * (params.retrievalBurnBps.toNat : Int) := Int.mul_nonneg hfee (by omega)
  rw [settleBurn, setUint64]
  split <;> omega

/-- The fee for blobs is not negative. -/
theorem variableFee_nonneg (params : Params) (blobCount : UInt64) :
    0 ≤ variableFee params blobCount := by
  rw [variableFee, setUint64]
  split
  · rename_i h
    exact Int.mul_nonneg h.2.le (by omega)
  · exact le_rfl

end Burn

/-! ### Params in force -/

section Sessions

variable {env : Env β} {ctx : Ctx} {id : Bytes} {session : RetrievalSession} {s s' : KeeperState β}

/-- Finishing a session leaves the parameters alone. -/
theorem Finished.params (h : Finished env ctx id session s s') : s'.params = s.params := by
  cases h <;> rfl

/-- Advancing a session leaves the parameters alone. -/
theorem Advanced.params {next : RetrievalSessionStatus → RetrievalSessionStatus}
    (h : Advanced env ctx id next session s s') : s'.params = s.params := by
  cases h with
  | unchanged hstatus => rfl
  | moved hstatus hfinished => exact hfinished.params

/-- Canceling a session leaves the parameters alone. -/
theorem Canceled.params (h : Canceled ctx id session s s') : s'.params = s.params := by
  cases h with
  | unchanged hstatus => rfl
  | refunded hstatus hexp hfee hget hevidence =>
      rw [EvidenceOnly] at hevidence
      rw [hevidence]
      rfl
  | free hstatus hexp hfee hevidence =>
      rw [EvidenceOnly] at hevidence
      rw [hevidence]
      rfl

end Sessions

section Run

variable {env : Env β} {s s' : KeeperState β}

/-- No message but `UpdateParams` changes the params, and that one checks them. So the params of a
reachable state are the first ones, or some that passed the check. -/
theorem handle_params {ctx : Ctx} {msg : Msg} {u : Unit}
    (h : (handle env ctx msg).exec s = (.ok u, s')) :
    s'.params = s.params ∨ ∃ params, s'.params = some params ∧ params.validate = .ok () := by
  -- one case for each message, by the frame of its handler
  cases msg with
  | updateParams msg =>
      obtain ⟨-, hvalid, rfl⟩ := updateParams_ok h
      exact Or.inr ⟨msg.params, rfl, hvalid⟩
  | registerProvider msg =>
      obtain ⟨addr, endpoints, -, rfl⟩ := registerProvider_ok h
      exact Or.inl rfl
  | createDeal msg =>
      obtain ⟨r, h⟩ := discard_ok.mp h
      obtain ⟨payer, deal, -, -, -, hframe⟩ := createDeal_ok h
      exact Or.inl (by rw [hframe])
  | updateDealContent msg =>
      obtain ⟨payer, deal, root, -, -, hframe⟩ := updateDealContent_ok h
      exact Or.inl (by rw [hframe])
  | createDealFromEvm msg =>
      obtain ⟨r, h⟩ := discard_ok.mp h
      obtain ⟨intent, evmAddr, deal, -, -, -, -, -, hframe⟩ := createDealFromEvm_ok h
      exact Or.inl (by rw [hframe])
  | updateDealContentFromEvm msg =>
      obtain ⟨intent, evmAddr, deal, root, -, -, -, -, hframe⟩ := updateDealContentFromEvm_ok h
      exact Or.inl (by rw [hframe])
  | openRetrievalSession msg =>
      obtain ⟨id, h⟩ := discard_ok.mp h
      obtain ⟨plan, hopened⟩ := openRetrievalSession_ok h
      obtain ⟨-, -, -, s₁, hfees, rfl⟩ := hopened
      exact Or.inl (by rw [storeSession, hfees.frame])
  | confirmRetrievalSession msg =>
      obtain ⟨session, -, -, -, hmoved⟩ := confirmRetrievalSession_ok h
      exact Or.inl hmoved.params
  | cancelRetrievalSession msg =>
      obtain ⟨session, -, -, hmoved⟩ := cancelRetrievalSession_ok h
      exact Or.inl hmoved.params
  | submitRetrievalSessionProof msg =>
      obtain ⟨session, -, -, -, -, hmoved⟩ := submitRetrievalSessionProof_ok h
      exact Or.inl hmoved.params
  | proveLiveness msg =>
      obtain ⟨r, h⟩ := discard_ok.mp h
      obtain ⟨deal, stripe, -, -, -, -, ⟨-, hrejected⟩ | ⟨-, hproved⟩⟩ := proveLiveness_ok h
      · exact Or.inl (by rw [hrejected.frame])
      · exact Or.inl (by rw [hproved.frame])
  | signalSaturation msg =>
      obtain ⟨r, h⟩ := discard_ok.mp h
      obtain ⟨deal, -, -, -, rfl⟩ := signalSaturation_ok h
      exact Or.inl rfl
  | startSlotRepair msg =>
      obtain ⟨deal, slot, pending, -, -, -, -, -, -, -, -, rfl⟩ := startSlotRepair_ok h
      exact Or.inl rfl
  | completeSlotRepair msg =>
      obtain ⟨deal, slot, -, rfl⟩ := completeSlotRepair_ok h
      exact Or.inl rfl
  | addCredit msg =>
      obtain ⟨r, h⟩ := discard_ok.mp h
      obtain ⟨payer, deal, amount, b, -, -, -, -, -, -, rfl⟩ := addCredit_ok h
      exact Or.inl rfl
  | withdrawRewards msg =>
      obtain ⟨r, h⟩ := discard_ok.mp h
      obtain ⟨addr, b₁, b₂, -, -, -, -, -, rfl⟩ := withdrawRewards_ok h
      exact Or.inl rfl

/-- The params in force are valid after every run of messages and ends of blocks. -/
theorem run_params (env : Env β) {params : Params} (hparams : params.validate = .ok ()) (b : β)
    {es : List Event} (hes : ∀ e ∈ es, e.isMessage) :
    (run (apply env) (genesis params b) es).getParams.validate = .ok () := by
  have hgenesis : (genesis params b).getParams.validate = .ok () := hparams
  refine run_invariant (fun e : Event => e.isMessage)
    (fun s : KeeperState β => s.getParams.validate = .ok ()) hgenesis (fun s e hs he => ?_) hes
  have hkept : ∀ s' : KeeperState β, s'.params = s.params → s'.getParams.validate = .ok () := by
    intro s' heq
    rw [KeeperState.getParams, heq]
    exact hs
  cases e with
  | deliver ctx msg =>
      rcases deliver_cases env ctx msg s with heq | hok
      · exact hkept _ (by rw [heq])
      · rcases handle_params hok with heq | ⟨params', heq, hvalid⟩
        · exact hkept _ heq
        · rw [KeeperState.getParams, heq]
          exact hvalid
  | endBlock ctx => exact hkept _ (by rw [apply, (checkMissedProofs_spec env ctx s).frame])
  | call ctx input => exact he.elim

end Run

end NilStore.Chain
