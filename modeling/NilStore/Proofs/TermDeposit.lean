import Mathlib.Data.Rat.Floor
import NilStore.Chain.Ledger

/-!
# `NilStore.Proofs.TermDeposit`: what growing a deal costs

`UpdateDealContent` and `UpdateDealContentFromEvm` charge the price per byte and block, times the
bytes that are added, times the blocks of the deal, rounded up. Both take the two factors through
`int64`, where a factor of `2 ^ 63` or more is negative, and charge nothing when the product is not
positive.

`factorsFit_iff` says for which factors that is the exact product, and `deposit_exact_iff` that
this is when the two handlers charge what they should.
-/

set_option autoImplicit false

namespace NilStore.Chain

open NilStore.Lib

variable {β : Type}

/-! ### Rounding and wrapping -/

/-- The decimals of `LegacyDec`, rounded up, are the ceiling. -/
theorem ceilDec_eq (units : Int) : ceilDec units = ⌈(units : ℚ) / 10 ^ 18⌉ := by
  have hfloor := Rat.floor_intCast_div_natCast (-units) (10 ^ 18)
  simp only [Int.cast_neg, Nat.cast_pow, Nat.cast_ofNat, neg_div] at hfloor
  rw [ceilDec, ← hfloor, Int.floor_neg, neg_neg]

/-- The ceiling is positive when the units are. -/
theorem ceilDec_pos {units : Int} (h : 0 < units) : 0 < ceilDec units := by
  rw [ceilDec]
  omega

/-- Rounding up a number that is not positive gives none that is. -/
theorem ceilDec_nonpos {units : Int} (h : units ≤ 0) : ceilDec units ≤ 0 := by
  rw [ceilDec]
  omega

/-- Of units that are negative, only a fraction of one rounds up to zero. -/
theorem ceilDec_eq_zero_iff {units : Int} (h : units ≤ 0) :
    ceilDec units = 0 ↔ -units < 10 ^ 18 := by
  rw [ceilDec]
  omega

/-- Rounding up keeps apart what is one unit apart. -/
theorem ceilDec_lt {units more : Int} (h : units + 10 ^ 18 ≤ more) :
    ceilDec units < ceilDec more := by
  rw [ceilDec, ceilDec]
  omega

/-- What `int64` makes of a number. -/
def wrap64 (x : Int) : Int := Int.bmod x (2 ^ 64)

/-- The cast of a difference is the difference, wrapped. -/
theorem newInt64_sub (a b : UInt64) : newInt64 (a - b) = wrap64 ((a.toNat : Int) - b.toNat) := by
  show (a.toBitVec - b.toBitVec).toInt = _
  rw [BitVec.toInt_sub, BitVec.toInt_eq_toNat_bmod, BitVec.toInt_eq_toNat_bmod, Int.sub_bmod_bmod,
    Int.bmod_sub_bmod]
  rfl

/-- The four places in which a difference of two counters can be, and what is made of it there. -/
theorem wrap64_cases {x : Int} (hlo : -2 ^ 64 < x) (hhi : x < 2 ^ 64) :
    (2 ^ 63 ≤ x ∧ wrap64 x = x - 2 ^ 64) ∨ (-2 ^ 63 ≤ x ∧ x < 2 ^ 63 ∧ wrap64 x = x) ∨
      (x < -2 ^ 63 ∧ wrap64 x = x + 2 ^ 64) := by
  rw [wrap64, Int.bmod_def]
  push_cast
  split <;> omega

/-! ### The two factors -/

/-- The bytes and the blocks come through `int64` as they are, or without effect: the deal has no
blocks, both are `2 ^ 63`, or the deal ends before it starts and the price is too low to notice. -/
def FactorsFit (price bytes blocks : Int) : Prop :=
  blocks = 0 ∨ (bytes < 2 ^ 63 ∧ 0 ≤ blocks ∧ blocks < 2 ^ 63) ∨
    (bytes = 2 ^ 63 ∧ blocks = 2 ^ 63) ∨
    (bytes < 2 ^ 63 ∧ -2 ^ 63 ≤ blocks ∧ blocks < 0 ∧ price * bytes * -blocks < 10 ^ 18)

/-- The charge on the wrapped factors is the exact one when the factors fit. Two wrapped factors may
give a positive product again, and there is one sum at which it is the right one. -/
theorem factorsFit_iff {price bytes blocks : Int} (hprice : 0 < price) (hbytes : 0 < bytes)
    (hbytes' : bytes < 2 ^ 64) (hlo : -2 ^ 64 < blocks) (hhi : blocks < 2 ^ 64) :
    max 0 (ceilDec (price * wrap64 bytes * wrap64 blocks)) = ceilDec (price * bytes * blocks) ↔
      FactorsFit price bytes blocks := by
  rw [FactorsFit]
  have hpb : 0 < price * bytes := mul_pos hprice hbytes
  -- by the size: wrapped, or not
  rcases wrap64_cases (by omega) hbytes' with ⟨hlarge, hwrap⟩ | ⟨-, hsmall, hwrap⟩ | ⟨hneg, -⟩
  · have hpw : price * wrap64 bytes < 0 := mul_neg_of_pos_of_neg hprice (by omega)
    -- by the length of the deal: wrapped above, not, or wrapped below
    rcases wrap64_cases hlo hhi with ⟨hover, hwrap'⟩ | ⟨hge, hlt, hwrap'⟩ | ⟨hunder, hwrap'⟩
    · -- Both factors are negative: the product is positive, but that of other numbers.
      have hpos : 0 < price * wrap64 bytes * wrap64 blocks :=
        mul_pos_of_neg_of_neg hpw (by omega)
      have hdiff : price * bytes * blocks = price * wrap64 bytes * wrap64 blocks +
          price * (2 ^ 64 * (bytes + blocks - 2 ^ 64)) := by
        rw [hwrap, hwrap']
        ring
      rw [max_eq_right (ceilDec_pos hpos).le]
      constructor
      · intro heq
        by_contra hfit
        have hsum : 1 ≤ bytes + blocks - 2 ^ 64 := by omega
        have hmore : 2 ^ 64 ≤ price * (2 ^ 64 * (bytes + blocks - 2 ^ 64)) := by nlinarith
        exact absurd heq (ceilDec_lt (by omega)).ne
      · intro hfit
        have hsum : bytes + blocks - 2 ^ 64 = 0 := by omega
        rw [hdiff, hsum, mul_zero, mul_zero, add_zero]
    -- the size is wrapped, so the sign of the product is the wrong one
    · rcases lt_trichotomy blocks 0 with hneg | rfl | hpos
      · have hprod : 0 < price * wrap64 bytes * wrap64 blocks :=
          mul_pos_of_neg_of_neg hpw (by omega)
        have hexact := ceilDec_nonpos (mul_neg_of_pos_of_neg hpb hneg).le
        have hcharge := ceilDec_pos hprod
        omega
      · have hzero : wrap64 0 = 0 := rfl
        rw [hzero, mul_zero, mul_zero]
        simp [ceilDec]
      · have hprod : price * wrap64 bytes * wrap64 blocks < 0 :=
          mul_neg_of_neg_of_pos hpw (by omega)
        have hexact := ceilDec_pos (mul_pos hpb hpos)
        have hcharge := ceilDec_nonpos hprod.le
        omega
    · have hprod : price * wrap64 bytes * wrap64 blocks < 0 :=
        mul_neg_of_neg_of_pos hpw (by omega)
      have hcharge := ceilDec_nonpos hprod.le
      have hmore : (2 : Int) ^ 63 ≤ price * bytes * -blocks := by nlinarith
      have hexact : ceilDec (price * bytes * blocks) ≠ 0 := by
        intro hzero
        have hlt := (ceilDec_eq_zero_iff (mul_neg_of_pos_of_neg hpb (by omega)).le).mp hzero
        rw [mul_neg] at hmore
        omega
      omega
  -- the size is as it is
  · rw [hwrap]
    rcases wrap64_cases hlo hhi with ⟨hover, hwrap'⟩ | ⟨hge, hlt, hwrap'⟩ | ⟨hunder, hwrap'⟩
    · have hexact := ceilDec_pos (mul_pos hpb (show 0 < blocks by omega))
      have hcharge := ceilDec_nonpos
        (mul_neg_of_pos_of_neg hpb (show wrap64 blocks < 0 by omega)).le
      omega
    · rw [hwrap']
      rcases lt_or_ge blocks 0 with hneg | hpos
      · -- The deal ends before it starts. Nothing is charged, and nothing is due if the sum is low.
        have hprod := (mul_neg_of_pos_of_neg hpb hneg).le
        have hzero := ceilDec_eq_zero_iff hprod
        rw [max_eq_left (ceilDec_nonpos hprod), eq_comm, hzero, ← mul_neg]
        omega
      · have hprod : 0 ≤ price * bytes * blocks := mul_nonneg hpb.le hpos
        have hcharge : 0 ≤ ceilDec (price * bytes * blocks) := by
          rw [ceilDec]
          omega
        rw [max_eq_right hcharge]
        simp only [true_iff]
        omega
    · have hexact := ceilDec_nonpos
        (mul_neg_of_pos_of_neg hpb (show blocks < 0 by omega)).le
      have hcharge := ceilDec_pos (mul_pos hpb (show 0 < wrap64 blocks by omega))
      omega
  · omega

/-! ### The deposit -/

/-- What growing a deal costs: price per byte and block, times the bytes that are added, times the
blocks of the deal, rounded up. The price is in units of `10 ^ -18`. -/
def exactDeposit (params : Params) (deal : Deal) (newSize : UInt64) : Int :=
  if deal.size < newSize then
    ⌈(params.storagePrice : ℚ) / 10 ^ 18 * ((newSize.toNat : ℚ) - deal.size.toNat) *
      ((deal.endBlock.toNat : ℚ) - deal.startBlock.toNat)⌉
  else 0

/-- The deal does not grow, or the bytes have no price, or the factors of the charge fit. -/
def DepositFits (params : Params) (deal : Deal) (newSize : UInt64) : Prop :=
  newSize ≤ deal.size ∨ params.storagePrice = 0 ∨
    FactorsFit params.storagePrice ((newSize.toNat : Int) - deal.size.toNat)
      ((deal.endBlock.toNat : Int) - deal.startBlock.toNat)

/-- The exact deposit in units of `LegacyDec`. -/
theorem exactDeposit_eq {params : Params} {deal : Deal} {newSize : UInt64}
    (h : deal.size < newSize) :
    exactDeposit params deal newSize =
      ceilDec (params.storagePrice * ((newSize.toNat : Int) - deal.size.toNat) *
        ((deal.endBlock.toNat : Int) - deal.startBlock.toNat)) := by
  rw [exactDeposit, if_pos h, ceilDec_eq]
  push_cast
  congr 1
  ring

/-- What is paid is the exact deposit when it fits. Nothing is paid for a size that does not
grow. -/
theorem depositPaid_eq_iff {params : Params} {deal : Deal} {newSize : UInt64}
    (hprice : 0 ≤ params.storagePrice) :
    depositPaid params deal newSize = exactDeposit params deal newSize ↔
      DepositFits params deal newSize := by
  rw [DepositFits, depositPaid, termDeposit]
  by_cases hgrow : deal.size < newSize
  · have hnle : ¬newSize ≤ deal.size := UInt64.not_le.mpr hgrow
    rcases hprice.eq_or_lt with hzero | hpos
    · -- Without a price, both are zero.
      rw [if_neg (by simp [← hzero]), exactDeposit_eq hgrow, ← hzero]
      simp [ceilDec]
    · have hlt := UInt64.lt_iff_toNat_lt.mp hgrow
      have hsize := newSize.toNat_lt
      have hend := deal.endBlock.toNat_lt
      have hstart := deal.startBlock.toNat_lt
      have hne : params.storagePrice ≠ 0 := hpos.ne'
      -- the two differences as the code takes them
      rw [if_pos ⟨hgrow, hpos⟩, exactDeposit_eq hgrow, newInt64_sub, newInt64_sub,
        factorsFit_iff hpos (by omega) (by omega) (by omega) (by omega)]
      simp only [hnle, hne, false_or]
  · have hle : newSize ≤ deal.size := UInt64.not_lt.mp hgrow
    rw [if_neg fun h => hgrow h.1, exactDeposit, if_neg hgrow]
    simp [hle]

/-- An amount has gone from an account to the module, and the escrow of the deal has grown by it. -/
structure Deposited (env : Env β) (payer : Bytes) (key : Nat) (deal : Deal) (amount : Int)
    (s s' : KeeperState β) : Prop where
  moved : ∀ a d, env.bank.balance s'.bank a d = env.bank.balance s.bank a d -
    debit payer (bondCoin amount) a d + debit env.moduleAddr (bondCoin amount) a d
  escrow : ∃ deal', s'.deals.get key = some deal' ∧
    deal'.escrowBalance = deal.escrowBalance + amount

/-- A content update moves what the handler charges. -/
theorem ContentUpdated.deposited {env : Env β} {ctx : Ctx} {s s' : KeeperState β} {payer : Bytes}
    {key : Nat} {owner : Str} {size : UInt64} {deal : Deal} {root : Bytes}
    (h : ContentUpdated env ctx s s' payer key owner size deal root) :
    Deposited env payer key deal (depositPaid s.getParams deal size) s s' := by
  constructor
  · intro a d
    have hbank := h.bank
    rw [DepositPaid] at hbank
    split at hbank
    · rename_i hpos
      rw [depositPaid, max_eq_right hpos.le]
      exact env.bank.balance_toModule hbank a d
    · rename_i hnpos
      have hnone : ∀ addr, debit addr (bondCoin 0) a d = 0 := by
        intro addr
        rw [debit]
        split <;> rfl
      rw [← hbank, depositPaid, max_eq_left (not_lt.mp hnpos), hnone, hnone, sub_zero, add_zero]
  · exact ⟨_, by rw [h.deals, KVStore.get_set_self], rfl⟩

/-- It moves the exact deposit when that fits. -/
theorem ContentUpdated.deposited_iff {env : Env β} {ctx : Ctx} {s s' : KeeperState β}
    {payer : Bytes} {key : Nat} {owner : Str} {size : UInt64} {deal : Deal} {root : Bytes}
    (h : ContentUpdated env ctx s s' payer key owner size deal root)
    (hprice : 0 ≤ s.getParams.storagePrice) :
    Deposited env payer key deal (exactDeposit s.getParams deal size) s s' ↔
      DepositFits s.getParams deal size := by
  rw [← depositPaid_eq_iff hprice]
  constructor
  · rintro ⟨-, deal', hget, hescrow⟩
    -- The escrow tells what was paid.
    obtain ⟨deal'', hget'', hescrow'⟩ := h.deposited.escrow
    obtain rfl : deal' = deal'' := Option.some.inj (hget.symm.trans hget'')
    omega
  · intro heq
    rw [← heq]
    exact h.deposited

/-- The price of accepted params is not negative. -/
theorem storagePrice_nonneg {params : Params} (h : params.validate = .ok ()) :
    0 ≤ params.storagePrice := by
  simp only [Params.validate, except_bind_ok, rejectIf_eq_ok, not_lt] at h
  obtain ⟨_, -, _, hprice, -⟩ := h
  exact hprice

/-- **The term deposit is exact**, in both entry points, exactly when it fits. The exact deposit is
the price of the added bytes over the blocks of the deal, rounded up; the code takes both factors
through `int64`, and it fits when nothing is lost there. -/
theorem deposit_exact_iff (env : Env β) (ctx : Ctx) (s s' : KeeperState β)
    (hparams : s.getParams.validate = .ok ()) :
    (∀ msg u, (updateDealContent env ctx msg).exec s = (.ok u, s') →
      ∃ payer deal, env.codec.accAddressFromBech32 msg.creator = some payer ∧
        s.deals.get msg.dealId.toNat = some deal ∧ deal.owner = msg.creator ∧
        (Deposited env payer msg.dealId.toNat deal (exactDeposit s.getParams deal msg.size) s s' ↔
          DepositFits s.getParams deal msg.size)) ∧
    ∀ msg u, (updateDealContentFromEvm env ctx msg).exec s = (.ok u, s') →
      ∃ intent payer deal, msg.intent = some intent ∧
        s.deals.get intent.dealId.toNat = some deal ∧
        deal.owner = env.codec.accAddressString payer ∧
        (Deposited env payer intent.dealId.toNat deal
            (exactDeposit s.getParams deal intent.sizeBytes) s s' ↔
          DepositFits s.getParams deal intent.sizeBytes) := by
  have hprice := storagePrice_nonneg hparams
  constructor
  · intro msg u h
    obtain ⟨payer, deal, root, haddr, hupdated, -⟩ := updateDealContent_ok h
    exact ⟨payer, deal, haddr, hupdated.get, hupdated.owner, hupdated.deposited_iff hprice⟩
  · intro msg u h
    obtain ⟨intent, payer, deal, root, hintent, -, -, hupdated, -⟩ := updateDealContentFromEvm_ok h
    exact ⟨intent, payer, deal, hintent, hupdated.get, hupdated.owner,
      hupdated.deposited_iff hprice⟩

/-! ### On a small chain -/

/-- The default params, with a price of one for each byte and block. -/
def pricedParams : Params := { defaultParams with storagePrice := 10 ^ 18 }

/-- One provider, and a deal of 100 blocks. -/
def pricedState : KeeperState Ledger :=
  run (apply (sampleEnv noKeccak [])) (genesis pricedParams sampleBank)
    [.deliver (ctxAt 1) (registerMsg providerText), .deliver (ctxAt 1) (createMsg 100 "General")]

/-- The owner commits content of a size. -/
def sizedMsg (size : UInt64) : MsgUpdateDealContent := ⟨ownerText, 0, List.replicate 96 '0', size⟩

/-- A byte for 100 blocks costs 100. -/
theorem deposit_exact_oneByte :
    ∃ payer deal s', pricedState.deals.get 0 = some deal ∧
      ((updateDealContent (sampleEnv noKeccak []) (ctxAt 2) (sizedMsg 1)).exec pricedState).2 = s' ∧
      Deposited (sampleEnv noKeccak []) payer 0 deal (exactDeposit pricedState.getParams deal 1)
        pricedState s' := by
  have hvalid : pricedState.getParams.validate = .ok () := by decide +kernel
  have hout : ((updateDealContent (sampleEnv noKeccak []) (ctxAt 2) (sizedMsg 1)).exec
      pricedState).1 = .ok () := by decide +kernel
  obtain ⟨s', hexec⟩ := Tx.exists_exec_eq hout
  obtain ⟨payer, deal, -, hget, -, hiff⟩ :=
    (deposit_exact_iff (sampleEnv noKeccak []) (ctxAt 2) pricedState s' hvalid).1 _ _ hexec
  refine ⟨payer, deal, s', hget, by rw [hexec], hiff.mpr (Or.inr (Or.inr (Or.inr (Or.inl ?_))))⟩
  have hshape : (pricedState.deals.get 0).map (fun deal =>
      (deal.size, deal.startBlock, deal.endBlock)) = some (0, 1, 101) := by decide +kernel
  have hget : pricedState.deals.get 0 = some deal := hget
  rw [hget, Option.map_some, Option.some.injEq] at hshape
  simp only [Prod.mk.injEq] at hshape
  rw [hshape.1, hshape.2.1, hshape.2.2]
  decide

/-- Content of `2 ^ 63` bytes is free. As an `int64` its size is negative, and a negative charge is
none. -/
theorem deposit_not_charged :
    ((updateDealContent (sampleEnv noKeccak []) (ctxAt 2) (sizedMsg 9223372036854775808)).exec
      pricedState).1 = .ok () ∧
    ∃ deal, pricedState.deals.get 0 = some deal ∧
      ∀ payer, ¬Deposited (sampleEnv noKeccak []) payer 0 deal
        (exactDeposit pricedState.getParams deal 9223372036854775808) pricedState
        ((updateDealContent (sampleEnv noKeccak []) (ctxAt 2)
          (sizedMsg 9223372036854775808)).exec pricedState).2 := by
  -- the deal before and the escrow after
  have hshape : (pricedState.deals.get 0).map (fun deal =>
      (deal.size, deal.startBlock, deal.endBlock, deal.escrowBalance)) =
        some (0, 1, 101, 1000) := by
    decide +kernel
  have hescrow : (((updateDealContent (sampleEnv noKeccak []) (ctxAt 2)
      (sizedMsg 9223372036854775808)).exec pricedState).2.deals.get 0).map (·.escrowBalance) =
        some 1000 := by decide +kernel
  have hprice : pricedState.getParams.storagePrice = 10 ^ 18 := by decide +kernel
  cases hget : pricedState.deals.get 0 with
  | none =>
      rw [hget] at hshape
      cases hshape
  | some deal =>
      rw [hget, Option.map_some, Option.some.injEq] at hshape
      simp only [Prod.mk.injEq] at hshape
      refine ⟨by decide +kernel, deal, rfl, fun payer hdeposited => ?_⟩
      obtain ⟨deal', hget', hsum⟩ := hdeposited.escrow
      rw [hget', Option.map_some, Option.some.injEq] at hescrow
      have hgrow : deal.size < 9223372036854775808 := by
        rw [hshape.1]
        decide
      -- a hundred blocks for each of the bytes
      rw [hescrow, hshape.2.2.2, exactDeposit_eq hgrow, hprice, hshape.1, hshape.2.1,
        hshape.2.2.1] at hsum
      exact absurd hsum (by decide)

end NilStore.Chain
