import Mathlib.Algebra.Order.Floor.Div
import NilStore.Proofs.BatchRule

/-!
# `NilStore.Proofs.BandwidthPayment`: what served bytes are charged

`ProveLiveness` adds up the bytes of its receipts or chunks, and the precompile does the same for
its chunks in a loop of its own. Both look for an overflow at each step, so the sum is that over the
natural numbers (`Counted`). Then both round up to KiB by another addition, which nothing checks:
from 1023 bytes below `2 ^ 64` on it wraps, and the bytes are charged one unit. The counter of the
bytes that a deal has served is added to without a check as well.

`bandwidth_exact_iff` says for every accepted proof and every accepted batch when the payment is the
number of KiB, rounded up, and the counter has grown by the bytes: when neither addition wraps.
-/

set_option autoImplicit false

namespace NilStore.Chain

open NilStore.Lib

variable {β : Type}

/-! ### Counting -/

/-- The bytes that were served for a deal so far. -/
def KeeperState.servedTotal (s : KeeperState β) (dealId : Nat) : UInt64 :=
  ((s.dealHeatStates.get dealId).getD ⟨0, 0, 0, 0⟩).bytesServedTotal

/-- Counting raises the total of the deal. -/
theorem servedTotal_incrementHeat (ctx : Ctx) (dealId : Nat) (bytes : UInt64) (failed : Bool)
    (s : KeeperState β) :
    (incrementHeat ctx dealId bytes failed s).servedTotal dealId =
      s.servedTotal dealId + bytes := by
  rw [incrementHeat, KeeperState.servedTotal, KVStore.get_set_self]
  rfl

/-- On top of `bytes`, `served` bytes were counted without a wrap, and they were added to the total
of the deal. -/
structure Counted (dealId : Nat) (served : Nat) (bytes bytes' : UInt64) (s s' : KeeperState β) :
    Prop where
  bytes : bytes'.toNat = bytes.toNat + served
  total : s'.servedTotal dealId = s.servedTotal dealId + UInt64.ofNat served

section Count

variable {dealId served served' : Nat} {bytes bytes₁ bytes' : UInt64} {s s₁ s' : KeeperState β}

/-- Nothing served counts nothing. -/
theorem Counted.refl (dealId : Nat) (bytes : UInt64) (s : KeeperState β) :
    Counted dealId 0 bytes bytes s s :=
  ⟨rfl, (UInt64.add_zero _).symm⟩

/-- What two receipts count adds up. -/
theorem Counted.trans (h : Counted dealId served bytes bytes₁ s s₁)
    (h' : Counted dealId served' bytes₁ bytes' s₁ s') :
    Counted dealId (served + served') bytes bytes' s s' := by
  constructor
  · rw [h'.bytes, h.bytes, Nat.add_assoc]
  · rw [h'.total, h.total, UInt64.ofNat_add, UInt64.add_assoc]

/-- The overflow test of a step is exact. -/
theorem toNat_add_of_not_gt {a b : UInt64} (h : ¬a > a + b) :
    (a + b).toNat = a.toNat + b.toNat := by
  have hle : a.toNat ≤ (a + b).toNat := UInt64.le_iff_toNat_le.mp (UInt64.not_lt.mp h)
  have ha := a.toNat_lt
  have hb := b.toNat_lt
  rw [UInt64.toNat_add] at hle ⊢
  omega

/-- One step: it passes the overflow test and counts. -/
theorem Counted.step (ctx : Ctx) {more : UInt64} (h : ¬bytes > bytes + more) :
    Counted dealId more.toNat bytes (bytes + more) s (incrementHeat ctx dealId more false s) := by
  constructor
  · exact toNat_add_of_not_gt h
  · rw [servedTotal_incrementHeat, UInt64.ofNat_toNat]

end Count

section Switch

variable {c : ProofCall β} {bytes bytes' : UInt64} {s s' : KeeperState β}

/-- A receipt that verifies serves some bytes, and they are counted once, for its own deal. -/
theorem verifyRetrievalReceipt_counted {receipt : RetrievalReceipt}
    (h : (c.verifyRetrievalReceipt bytes receipt).exec s = (.ok bytes', s')) :
    receipt.bytesServed ≠ 0 ∧
      Counted c.deal.id receipt.bytesServed.toNat bytes bytes' s s' := by
  simp only [ProofCall.verifyRetrievalReceipt, Tx.exec_reads_bind_ok, Tx.exec_update_bind,
    Tx.exec_failIf_bind_ok, Tx.exec_pure, Prod.mk.injEq, Except.ok.injEq] at h
  obtain ⟨_, hcheck, hwrap, rfl, rfl⟩ := h
  simp only [ProofCall.checkReceipt, except_bind_ok, rejectIf_eq_ok, not_not] at hcheck
  obtain ⟨_, -, _, hlen, _, hserved, -⟩ := hcheck
  refine ⟨hserved ▸ hlen, ?_, ?_⟩
  · exact toNat_add_of_not_gt hwrap
  · -- The nonce is written between, which is no heat.
    exact (Counted.step (s := { s with receiptNoncesByDealFile := _ }) c.ctx hwrap).total

/-- The bytes of a batch of receipts. -/
theorem verifyReceipts_counted {receipts : List RetrievalReceipt}
    (h : (c.verifyReceipts bytes receipts).exec s = (.ok bytes', s')) :
    (∀ receipt ∈ receipts, receipt.bytesServed ≠ 0) ∧
      Counted c.deal.id (receipts.map (·.bytesServed.toNat)).sum bytes bytes' s s' := by
  induction receipts generalizing bytes s with
  | nil =>
      rw [ProofCall.verifyReceipts, Tx.exec_pure] at h
      cases h
      exact ⟨by simp, .refl _ _ _⟩
  | cons receipt rest ih =>
      rw [ProofCall.verifyReceipts, Tx.exec_bind_ok] at h
      obtain ⟨bytes₁, s₁, hone, hrest⟩ := h
      obtain ⟨hserved, hcounted⟩ := verifyRetrievalReceipt_counted hone
      obtain ⟨hall, hcounted'⟩ := ih hrest
      exact ⟨List.forall_mem_cons.mpr ⟨hserved, hall⟩, hcounted.trans hcounted'⟩

/-- The bytes of the chunks of a session. -/
theorem verifyChunks_counted {receipt : DownloadSessionReceipt} {chunks : List SessionChunkProof}
    {seen : List UInt32}
    (h : (c.verifyChunks receipt seen bytes chunks).exec s = (.ok bytes', s')) :
    (∀ chunk ∈ chunks, chunk.rangeLen ≠ 0) ∧
      Counted c.deal.id (chunks.map (·.rangeLen.toNat)).sum bytes bytes' s s' := by
  induction chunks generalizing seen bytes s with
  | nil =>
      rw [ProofCall.verifyChunks, Tx.exec_pure] at h
      cases h
      exact ⟨by simp, .refl _ _ _⟩
  | cons chunk rest ih =>
      simp only [ProofCall.verifyChunks, Tx.exec_ofExcept_bind_ok, Tx.exec_failIf_bind_ok,
        Tx.exec_update_bind] at h
      obtain ⟨_, hcheck, hwrap, hrest⟩ := h
      simp only [ProofCall.checkChunk, except_bind_ok, rejectIf_eq_ok] at hcheck
      obtain ⟨_, hlen, -⟩ := hcheck
      obtain ⟨hall, hcounted⟩ := ih hrest
      exact ⟨List.forall_mem_cons.mpr ⟨hlen, hall⟩, (Counted.step c.ctx hwrap).trans hcounted⟩

/-- A list of lengths that are not zero does not add up to zero. -/
theorem sum_toNat_pos {ι : Type} {f : ι → UInt64} {l : List ι} (hne : l ≠ [])
    (hpos : ∀ a ∈ l, f a ≠ 0) : 0 < (l.map fun a => (f a).toNat).sum := by
  obtain ⟨a, rest, rfl⟩ := List.exists_cons_of_ne_nil hne
  have hfirst : (f a).toNat ≠ 0 := fun h0 => hpos a List.mem_cons_self (UInt64.toNat_inj.mp h0)
  rw [List.map_cons, List.sum_cons]
  omega

/-- The bytes that a proof message serves, over the natural numbers. -/
def ProofType.servedBytes : ProofType → Nat
  | .userReceipt (some receipt) => receipt.bytesServed.toNat
  | .userReceiptBatch receipts => ((receipts.getD []).map (·.bytesServed.toNat)).sum
  | .sessionProof (some proof) => (proof.chunks.map (·.rangeLen.toNat)).sum
  | _ => 0

/-- The switch: a proof with receipts serves at least one byte, and its bytes are counted. -/
theorem handleProof_counted {outcome : ProofOutcome}
    (h : c.handleProof.exec s = (.ok outcome, s')) (hne : ∀ p, c.msg.proofType ≠ .systemProof p) :
    ∃ bytes, outcome = .served bytes ∧ 0 < c.msg.proofType.servedBytes ∧
      Counted c.deal.id c.msg.proofType.servedBytes 0 bytes s s' := by
  rw [ProofCall.handleProof] at h
  -- one case for each kind of proof; a system proof is excluded
  cases hpt : c.msg.proofType with
  | systemProof proof => exact absurd hpt (hne proof)
  | userReceipt receipt =>
      cases receipt with
      | none => simp [hpt] at h
      | some receipt =>
          simp only [hpt, Tx.exec_bind_ok, Tx.exec_pure, Prod.mk.injEq, Except.ok.injEq] at h
          obtain ⟨bytes, s₁, hone, rfl, rfl⟩ := h
          obtain ⟨hserved, hcounted⟩ := verifyRetrievalReceipt_counted hone
          have hpos : receipt.bytesServed.toNat ≠ 0 := fun h0 => hserved (UInt64.toNat_inj.mp h0)
          exact ⟨bytes, rfl, Nat.pos_of_ne_zero hpos, hcounted⟩
  | userReceiptBatch receipts =>
      simp only [hpt, Tx.exec_failIf_bind_ok] at h
      -- neither the batch nor any of its receipts is empty
      obtain ⟨hnil, h⟩ := h
      simp only [Tx.exec_bind_ok, Tx.exec_pure, Prod.mk.injEq, Except.ok.injEq] at h
      obtain ⟨bytes, s₁, hall, rfl, rfl⟩ := h
      obtain ⟨hserved, hcounted⟩ := verifyReceipts_counted hall
      exact ⟨bytes, rfl, sum_toNat_pos hnil hserved, hcounted⟩
  | sessionProof proof =>
      cases proof with
      | none => simp [hpt] at h
      | some proof =>
          simp only [hpt, Tx.exec_bind_ok, Tx.exec_pure, Prod.mk.injEq, Except.ok.injEq] at h
          obtain ⟨bytes, s₁, hsession, rfl, rfl⟩ := h
          simp only [ProofCall.verifySession, Tx.exec_reads_bind_ok] at hsession
          obtain ⟨_, hreceipt, hsession⟩ := hsession
          rw [Tx.exec_bind_ok] at hsession
          obtain ⟨total, s₂, hchunks, hsession⟩ := hsession
          simp only [Tx.exec_failIf_bind_ok, Tx.exec_update_bind, Tx.exec_pure, Prod.mk.injEq,
            Except.ok.injEq] at hsession
          obtain ⟨-, rfl, rfl⟩ := hsession
          obtain ⟨hserved, hcounted⟩ := verifyChunks_counted hchunks
          have hnil : proof.chunks ≠ [] := by
            -- The receipt counts its chunks, and not zero of them.
            intro hnil
            simp only [ProofCall.checkSessionReceipt, except_bind_ok, rejectIf_eq_ok,
              not_not] at hreceipt
            obtain ⟨_, -, _, -, _, hcount, _, -, _, -, _, -, _, -, _, -, hlength⟩ := hreceipt
            rw [hnil] at hlength
            exact hcount hlength.symm
          exact ⟨total, rfl, sum_toNat_pos hnil hserved, ⟨hcounted.bytes, hcounted.total⟩⟩
  | unset => simp [hpt] at h

end Switch

/-! ### Paying -/

/-- What an accepted proof or batch did: the bytes were charged to the deal's escrow and credited to
the provider, on top of its storage reward, and counted. -/
structure BytesPaid (key : Nat) (deal : Deal) (provider : Str) (reward : Int) (served : Nat)
    (s s' : KeeperState β) : Prop where
  bytes : ∃ bytes : UInt64, bytes.toNat = served ∧ 0 < served ∧
    s'.deals.get key =
      some { deal with escrowBalance := deal.escrowBalance - bandwidthPayment bytes } ∧
    s'.rewardsOf provider = s.rewardsOf provider + (reward + bandwidthPayment bytes)
  total : s'.servedTotal deal.id = s.servedTotal deal.id + UInt64.ofNat served

/-- The bytes were paid exactly: one unit for each KiB, rounded up, was charged to the escrow and
credited to the provider, on top of its storage reward, and the total of the deal grew by them. -/
structure PaidExactly (key : Nat) (deal : Deal) (provider : Str) (reward : Int) (served : Nat)
    (s s' : KeeperState β) : Prop where
  escrow : s'.deals.get key = some
    { deal with escrowBalance := deal.escrowBalance - ((served ⌈/⌉ 1024 : Nat) : Int) }
  rewards : s'.rewardsOf provider =
    s.rewardsOf provider + (reward + ((served ⌈/⌉ 1024 : Nat) : Int))
  total : (s'.servedTotal deal.id).toNat = (s.servedTotal deal.id).toNat + served

/-- Neither the rounding nor the total wraps. -/
def FitsCounters (deal : Deal) (served : Nat) (s : KeeperState β) : Prop :=
  served ≤ 2 ^ 64 - 1024 ∧ (s.servedTotal deal.id).toNat + served < 2 ^ 64

/-- The payment is exact when the rounding does not wrap, and one unit otherwise. The source adds
1024 before it divides; from `2 ^ 64 - 1023` bytes on, the sum wraps to less than a unit. -/
theorem bandwidthPayment_eq_iff {bytes : UInt64} (h : 0 < bytes.toNat) :
    bandwidthPayment bytes = ((bytes.toNat ⌈/⌉ 1024 : Nat) : Int) ↔
      bytes.toNat ≤ 2 ^ 64 - 1024 := by
  have hlt := bytes.toNat_lt
  have hunits : ((bytes + 1024 - 1) / 1024).toNat = (bytes.toNat + 1023) % 2 ^ 64 / 1024 := by
    rw [UInt64.toNat_div, UInt64.toNat_sub, UInt64.toNat_add]
    show ((2 ^ 64 - 1 + (bytes.toNat + 1024) % 2 ^ 64) % 2 ^ 64) / 1024 = _
    omega
  have hpay : bandwidthPayment bytes =
      (((if (bytes + 1024 - 1) / 1024 = 0 then 1 else (bytes + 1024 - 1) / 1024 : UInt64).toNat :
        Nat) : Int) := rfl
  rw [hpay, Nat.ceilDiv_eq_add_pred_div, Int.natCast_inj]
  -- a quotient of zero is paid as one unit
  split
  · rename_i hzero
    have hzero : (bytes.toNat + 1023) % 2 ^ 64 / 1024 = 0 := by
      rw [← hunits, hzero]
      rfl
    show 1 = _ ↔ _
    omega
  · rename_i hpos
    have hpos : (bytes.toNat + 1023) % 2 ^ 64 / 1024 ≠ 0 := by
      rw [← hunits]
      exact fun h0 => hpos (UInt64.toNat_inj.mp h0)
    rw [hunits]
    omega

/-- What was charged is exact when neither addition wraps. -/
theorem BytesPaid.exactly_iff {key : Nat} {deal : Deal} {provider : Str} {reward : Int}
    {served : Nat} {s s' : KeeperState β} (h : BytesPaid key deal provider reward served s s') :
    PaidExactly key deal provider reward served s s' ↔ FitsCounters deal served s := by
  -- the two counters that can wrap are the rounding and the total
  obtain ⟨⟨bytes, rfl, hpos, hdeal, hrewards⟩, htotal⟩ := h
  have hpay := bandwidthPayment_eq_iff hpos
  have hsum : (s'.servedTotal deal.id).toNat =
      ((s.servedTotal deal.id).toNat + bytes.toNat) % 2 ^ 64 := by
    rw [htotal, UInt64.ofNat_toNat, UInt64.toNat_add]
  constructor
  · rintro ⟨-, hrewards', htotal'⟩
    constructor
    · rw [hrewards] at hrewards'
      exact hpay.mp (by omega)
    · rw [hsum] at htotal'
      rw [← htotal']
      exact Nat.mod_lt _ (by decide)
  · rintro ⟨hround, hcount⟩
    have hpay := hpay.mpr hround
    refine ⟨?_, ?_, ?_⟩
    · rw [hdeal, hpay]
    · rw [hrewards, hpay]
    · rw [hsum, Nat.mod_eq_of_lt hcount]

section Handlers

variable {env : Env β} {ctx : Ctx} {s s' : KeeperState β}

/-- A proof with receipts, when it is accepted. -/
theorem proveLiveness_paid {msg : MsgProveLiveness} {r : MsgProveLivenessResponse}
    (h : (proveLiveness env ctx msg).exec s = (.ok r, s'))
    (hne : ∀ p, msg.proofType ≠ .systemProof p) :
    ∃ deal, s.deals.get msg.dealId.toNat = some deal ∧
      BytesPaid msg.dealId.toNat deal msg.creator
        (proofReward ctx.height64 s.getParams.halvingInterval (dealAge ctx deal))
        msg.proofType.servedBytes s s' := by
  obtain ⟨deal, stripe, hget, -, -, -, hdone⟩ := proveLiveness_ok h
  have hrun := h
  simp only [proveLiveness, Tx.exec_reads_bind_ok, Tx.exec_failIf_bind_ok,
    Tx.exec_ofExcept_bind_ok, Tx.exec_update_bind, Tx.exec_gets_bind, orFail_eq_ok] at hrun
  obtain ⟨deal', hget', -, stripe, -, -, -, hrun⟩ := hrun
  obtain rfl : deal' = deal := Option.some.inj (hget'.symm.trans hget)
  rw [Tx.exec_bind_ok] at hrun
  obtain ⟨outcome, s₂, hswitch, hrun⟩ := hrun
  -- The tier touches the providers only.
  have hraise := (reputationOnly_rewardTier (tierOfLatency (dealAge ctx deal')) msg.creator s).2
  -- the charge is that of the bytes which the switch has counted
  obtain ⟨hpay, -, -⟩ := handleProof_ok hswitch
  obtain ⟨bytes, rfl, hpos, hcounted⟩ := handleProof_counted hswitch hne
  have hcharge : bandwidthPayment bytes = msg.proofType.payment := hpay (by simp)
  rw [if_neg (by simp)] at hrun
  obtain ⟨hsuccess, -, hsettled⟩ := settleProof_ok hrun
  have hproved : LivenessProved ctx msg deal' s s' := by
    rcases hdone with ⟨hfailed, -⟩ | ⟨-, hproved⟩
    · rw [hsuccess] at hfailed
      cases hfailed
    · exact hproved
  obtain ⟨deal'', reward, hget'', hreward, -, hcredited⟩ := proveLiveness_credited h hsuccess
  obtain rfl : deal'' = deal' := Option.some.inj (hget''.symm.trans hget)
  refine ⟨deal'', hget, ⟨bytes, ?_, hpos, ?_, ?_⟩, ?_⟩
  · rw [hcounted.bytes]
    exact Nat.zero_add _
  · rw [hproved.deals, KVStore.get_set_self, hcharge]
  · rw [hcredited, hreward, hcharge]
  · -- The writes at the end leave the heat alone.
    have hheat : s'.servedTotal deal''.id = s₂.servedTotal deal''.id := by
      rw [hsettled]
      rfl
    have hstart : (rewardTier (tierOfLatency (dealAge ctx deal'')) msg.creator s).servedTotal
        deal''.id = s.servedTotal deal''.id := by rw [hraise]; rfl
    rw [hheat, hcounted.total]
    exact congrArg (· + UInt64.ofNat msg.proofType.servedBytes) hstart

/-- The loop of the precompile. -/
theorem proveChunks_counted {deal : Deal} {bytes bytes' : UInt64} {chunks : List Precompile.Chunk}
    (h : (Precompile.proveChunks env ctx deal bytes chunks).exec s = (.ok bytes', s')) :
    (∀ chunk ∈ chunks, chunk.rangeLen ≠ 0) ∧
      Counted deal.id (chunks.map (·.rangeLen.toNat)).sum bytes bytes' s s' := by
  induction chunks generalizing bytes s with
  | nil =>
      rw [Precompile.proveChunks, Tx.exec_pure] at h
      cases h
      exact ⟨by simp, .refl _ _ _⟩
  | cons chunk rest ih =>
      simp only [Precompile.proveChunks, Tx.exec_ofExcept_bind_ok, Tx.exec_update_bind] at h
      obtain ⟨_, hcheck, hrest⟩ := h
      simp only [Precompile.checkChunk, except_bind_ok, rejectIf_eq_ok] at hcheck
      obtain ⟨_, hlen, _, hwrap, -⟩ := hcheck
      obtain ⟨hall, hcounted⟩ := ih hrest
      exact ⟨List.forall_mem_cons.mpr ⟨hlen, hall⟩, (Counted.step ctx hwrap).trans hcounted⟩

/-- A batch of the precompile, when it is accepted. There is no storage reward in it. -/
theorem runProveRetrievalBatch_paid {caller : Bytes} {dealId : UInt64} {provider filePath : Str}
    {nonce : UInt64} {chunks : List Precompile.Chunk} {out : Precompile.Output}
    (h : (Precompile.runProveRetrievalBatch env ctx caller dealId provider filePath nonce
      chunks).exec s = (.ok out, s')) :
    ∃ deal, s.deals.get dealId.toNat = some deal ∧
      BytesPaid dealId.toNat deal provider 0 (chunks.map (·.rangeLen.toNat)).sum s s' := by
  rw [Precompile.runProveRetrievalBatch, Tx.exec_reads_bind_ok] at h
  obtain ⟨deal, hcheck, h⟩ := h
  -- the checks of a batch; it has at least one chunk
  simp only [Precompile.checkBatch, except_bind_ok, rejectIf_eq_ok, orFail_eq_ok, not_not] at hcheck
  obtain ⟨_, -, _, -, _, -, found, hget, _, -, _, -, _, -, _, -, _, hnil, hfound⟩ := hcheck
  cases hfound
  obtain ⟨bytes, s₁, hchunks, h⟩ := Tx.exec_bind_ok.mp h
  obtain ⟨hlen, hcounted⟩ := proveChunks_counted hchunks
  have hheat : HeatOnly s s₁ := (Precompile.keeps_proveChunks _ _ _ _).of_exec hchunks
  rw [HeatOnly] at hheat
  have hrewards : s₁.providerRewards = s.providerRewards := by rw [hheat]
  simp only [Tx.exec_failIf_bind_ok, Tx.exec_update_bind, Tx.exec_pure, Prod.mk.injEq] at h
  obtain ⟨-, -, rfl⟩ := h
  refine ⟨deal, hget, ⟨bytes, ?_, sum_toNat_pos hnil hlen, ?_, ?_⟩, hcounted.total⟩
  · rw [hcounted.bytes]
    exact Nat.zero_add _
  · exact KVStore.get_set_self _ _ _
  · rw [KeeperState.rewardsOf, KeeperState.rewardsOf, KVStore.get_set_self, hrewards, zero_add]
    rfl

end Handlers

/-- **The bandwidth payment is exact** for an accepted proof with receipts and for an accepted batch
of the precompile exactly when the rounding and the total do not wrap. -/
theorem bandwidth_exact_iff (env : Env β) (ctx : Ctx) (s s' : KeeperState β) :
    (∀ msg r, (∀ p, msg.proofType ≠ .systemProof p) →
      (proveLiveness env ctx msg).exec s = (.ok r, s') →
        ∃ deal, s.deals.get msg.dealId.toNat = some deal ∧
          (PaidExactly msg.dealId.toNat deal msg.creator
              (proofReward ctx.height64 s.getParams.halvingInterval (dealAge ctx deal))
              msg.proofType.servedBytes s s' ↔
            FitsCounters deal msg.proofType.servedBytes s)) ∧
    ∀ caller dealId provider filePath nonce chunks out,
      (Precompile.runProveRetrievalBatch env ctx caller dealId provider filePath nonce chunks).exec
          s
          = (.ok out, s') →
        ∃ deal, s.deals.get dealId.toNat = some deal ∧
          (PaidExactly dealId.toNat deal provider 0 (chunks.map (·.rangeLen.toNat)).sum s s' ↔
            FitsCounters deal (chunks.map (·.rangeLen.toNat)).sum s) := by
  constructor
  · intro msg r hne h
    obtain ⟨deal, hget, hpaid⟩ := proveLiveness_paid h hne
    exact ⟨deal, hget, hpaid.exactly_iff⟩
  · intro caller dealId provider filePath nonce chunks out h
    obtain ⟨deal, hget, hpaid⟩ := runProveRetrievalBatch_paid h
    exact ⟨deal, hget, hpaid.exactly_iff⟩

/-! ### On a small chain -/

/-- The owner's contract submits a proof for a range of a length. -/
def lengthBatch (rangeLen : UInt64) : Handler Ledger Precompile.Output :=
  Precompile.runProveRetrievalBatch slotEnv (ctxAt 2) ownerAddr 0 otherText "f".toList 1
    [⟨0, rangeLen, slotProof⟩]

/-- A byte is charged one unit. -/
theorem bandwidth_exact_oneByte :
    ∃ deal s', slotState.deals.get 0 = some deal ∧ ((lengthBatch 1).exec slotState).2 = s' ∧
      PaidExactly 0 deal otherText 0 1 slotState s' := by
  have hout : ((lengthBatch 1).exec slotState).1 = .ok .ok := by decide +kernel
  obtain ⟨s', hexec⟩ := Tx.exists_exec_eq hout
  obtain ⟨deal, hget, hiff⟩ := (bandwidth_exact_iff slotEnv (ctxAt 2) slotState s').2 ownerAddr 0
    otherText "f".toList 1 [⟨0, 1, slotProof⟩] .ok hexec
  refine ⟨deal, s', hget, by rw [hexec], hiff.mpr ⟨by decide, ?_⟩⟩
  have hheat : slotState.dealHeatStates.entries = [] := by decide +kernel
  have htotal : (slotState.servedTotal deal.id).toNat = 0 := by
    rw [KeeperState.servedTotal, KVStore.get, hheat]
    rfl
  rw [htotal]
  decide

/-- The largest range is charged one unit as well. -/
theorem bandwidth_wraps :
    ((lengthBatch 18446744073709551615).exec slotState).1 = .ok .ok ∧
    ∃ deal, slotState.deals.get 0 = some deal ∧
      ¬PaidExactly 0 deal otherText 0 18446744073709551615 slotState
        ((lengthBatch 18446744073709551615).exec slotState).2 := by
  have hrewards : slotState.rewardsOf otherText = 0 ∧
      ((lengthBatch 18446744073709551615).exec slotState).2.rewardsOf otherText = 1 := by
    decide +kernel
  have hdeal : (slotState.deals.get 0).isSome := by decide +kernel
  obtain ⟨deal, hget⟩ := Option.isSome_iff_exists.mp hdeal
  refine ⟨by decide +kernel, deal, hget, fun hexact => ?_⟩
  have hsum := hexact.rewards
  rw [hrewards.1, hrewards.2, Nat.ceilDiv_eq_add_pred_div] at hsum
  exact absurd hsum (by decide)

end NilStore.Chain
