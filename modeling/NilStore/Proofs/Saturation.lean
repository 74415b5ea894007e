import NilStore.Chain.Ledger
import NilStore.Proofs.PrecompileSteps

/-!
# `NilStore.Proofs.Saturation`: what a signal of saturation does to a deal

A signal that succeeds adds a stripe to its deal, which pays for it out of the escrow and counts
the cost in its spend window. `apply_saturation` splits the events by this: an event either is a
signal that succeeds for the deal, and then it is known what the deal has become, or it leaves the
window, its cap and the count of replicas as they were.
-/

set_option autoImplicit false

namespace NilStore.Chain

open NilStore.Lib

variable {β : Type}

/-- The event is a signal of saturation for the deal, and it succeeds. -/
def Event.saturates (env : Env β) (s : KeeperState β) (d : Nat) (e : Event) : Prop :=
  ∃ ctx msg r s', e = .deliver ctx (.signalSaturation msg) ∧ msg.dealId.toNat = d ∧
    (signalSaturation env ctx msg).exec s = (.ok r, s')

/-- Spend window, cap and count of replicas are as they were. -/
structure WindowKept (deal deal' : Deal) : Prop where
  maxMonthlySpend : deal'.maxMonthlySpend = deal.maxMonthlySpend
  start : deal'.spendWindowStartHeight = deal.spendWindowStartHeight
  spent : deal'.spendWindowSpent = deal.spendWindowSpent
  replication : deal'.currentReplication = deal.currentReplication

/-- What an event does to a deal, by whether it saturates it. -/
inductive SaturationStep (env : Env β) (e : Event) (s : KeeperState β) (d : Nat) (deal : Deal) :
    Deal → Prop where
  | saturated {ctx : Ctx} {msg : MsgSignalSaturation} {newProviders : List Str}
      (he : e = .deliver ctx (.signalSaturation msg)) (hd : msg.dealId.toNat = d)
      (hok : (signalSaturation env ctx msg).exec s = (.ok newProviders, apply env s e))
      (hadmitted : SaturationAdmitted ctx msg deal s.getParams)
      (hassign : newStripe env ctx deal s.providers = .ok newProviders) :
      SaturationStep env e s d deal (saturatedDeal ctx s.getParams deal newProviders)
  | other {deal' : Deal} (hno : ¬e.saturates env s d) (hstep : DealStep env e s deal deal')
      (hkept : WindowKept deal deal') : SaturationStep env e s d deal deal'

section Step

variable {env : Env β} {e : Event} {s : KeeperState β} {d : Nat} {deal deal' : Deal}

/-- A step that is no signal of saturation keeps the window. -/
theorem DealStep.windowKept (h : DealStep env e s deal deal')
    (hno : ∀ ctx msg, e ≠ .deliver ctx (.signalSaturation msg)) : WindowKept deal deal' := by
  cases h with
  | escrow amount => exact ⟨rfl, rfl, rfl, rfl⟩
  | content size deposit hroot => exact ⟨rfl, rfl, rfl, rfl⟩
  | saturated he hget hadmitted hassign => exact absurd he (hno _ _)
  | repairStarted hmode hslot hpending => exact ⟨rfl, rfl, rfl, rfl⟩
  | repaired he hpending => exact ⟨rfl, rfl, rfl, rfl⟩

/-- Every event saturates a stored deal or keeps its window. Only an accepted signal for the deal
saturates it. -/
theorem apply_saturation (hs : WellFormed env s) (hget : s.deals.get d = some deal) :
    ∃ deal', (apply env s e).deals.get d = some deal' ∧ SaturationStep env e s d deal deal' := by
  by_cases hsignal : ∃ ctx msg, e = .deliver ctx (.signalSaturation msg)
  · obtain ⟨ctx, msg, rfl⟩ := hsignal
    -- by the result of the signal
    cases hexec : (signalSaturation env ctx msg).exec s with
    | mk res s' =>
        cases res with
        | error fault =>
            have hsame : apply env s (.deliver ctx (.signalSaturation msg)) = s :=
              Tx.commitOrRollback_of_error (Tx.exec_bind_error.mpr (Or.inl hexec))
            refine ⟨deal, by rw [hsame, hget], .other ?_ (.refl env _ s deal) ⟨rfl, rfl, rfl, rfl⟩⟩
            rintro ⟨ctx', msg', r, s₁, he, -, hok⟩
            -- a signal that is refused was not accepted
            cases he
            rw [hexec] at hok
            cases hok
        | ok r =>
            have hnext : apply env s (.deliver ctx (.signalSaturation msg)) = s' :=
              Tx.commitOrRollback_of_ok (a := ()) (discard_ok.mpr ⟨r, hexec⟩)
            obtain ⟨deal₀, hget₀, hadmitted, hassign, hs'⟩ := signalSaturation_ok hexec
            have hid := hs.deal_id hget₀
            by_cases hd : msg.dealId.toNat = d
            · subst hd
              rw [hget] at hget₀
              cases hget₀
              refine ⟨saturatedDeal ctx s.getParams deal r, ?_,
                .saturated rfl rfl (by rw [hnext, hexec]) hadmitted hassign⟩
              rw [hnext, hs', hid, KVStore.get_set_self]
            · -- The signal is about another deal.
              refine ⟨deal, ?_, .other ?_ (.refl env _ s deal) ⟨rfl, rfl, rfl, rfl⟩⟩
              · rw [hnext, hs', hid, KVStore.get_set_ne _ (Ne.symm hd), hget]
              · rintro ⟨ctx', msg', r', s₁, he, hd', -⟩
                cases he
                exact hd hd'
  · have hno : ∀ ctx msg, e ≠ .deliver ctx (.signalSaturation msg) := fun ctx msg he =>
      hsignal ⟨ctx, msg, he⟩
    obtain ⟨deal', hget', hstep⟩ := (apply_moved hs e).deals.kept hget
    refine ⟨deal', hget', .other ?_ hstep (hstep.windowKept hno)⟩
    rintro ⟨ctx, msg, r, s', he, -⟩
    exact hno ctx msg he

/-- An event that creates the deal does not saturate it. -/
theorem not_saturates_of_none (hget : s.deals.get d = none) : ¬e.saturates env s d := by
  rintro ⟨ctx, msg, r, s', -, rfl, hok⟩
  obtain ⟨deal, hsome, -⟩ := signalSaturation_ok hok
  rw [hget] at hsome
  cases hsome

end Step

/-! ### A small chain whose deal is saturated -/

/-- The SHA-256 of deal 0 as it is created, and as its first and its second stripe are assigned. -/
def saturationSha : HashTable where
  entries := sampleSha.entries ++
    [(uint64ToBigEndian 1000 ++ uint64ToBigEndian 0,
      [0x50, 0x07, 0x64, 0x5a, 0xe7, 0x7b, 0x37, 0xdf, 0x06, 0x1e, 0x0e, 0x0f, 0x8b, 0x84, 0xa3,
        0x11, 0x19, 0x98, 0x68, 0xdc, 0xa7, 0x3e, 0xea, 0xba, 0xab, 0xb5, 0x4b, 0x41, 0x09, 0x92,
        0x38, 0x54]),
      (uint64ToBigEndian 13000 ++ uint64ToBigEndian 0,
        [0x65, 0x42, 0x6b, 0xb3, 0x1c, 0xb7, 0x0d, 0x2a, 0xab, 0x2c, 0x46, 0x29, 0xa2, 0x41, 0xab,
          0xa2, 0x0f, 0x18, 0x3a, 0xc9, 0xe9, 0x07, 0xe0, 0xfb, 0x48, 0xf5, 0x26, 0x5e, 0x06, 0x85,
          0x01, 0x0f])]
  lengths := by decide

/-- The chain of the sample run. -/
def saturationEnv : Env Ledger := bookEnv sampleBook noKeccak saturationSha [] 8

/-- The provider signals saturation of deal 0. -/
def saturationEvent (height : Nat) (h : height < 2 ^ 63 := by decide) : Event :=
  .deliver (ctxAt height (decide_height h)) (.signalSaturation ⟨providerText, 0⟩)

/-- One provider, and a deal whose owner allows one stripe in a month. -/
def stripeRun : List Event :=
  [.deliver (ctxAt 1) (registerMsg providerText),
    .deliver (ctxAt 1) (.createDeal
      { creator := ownerText
        durationBlocks := 100
        serviceHint := "General".toList
        maxMonthlySpend := some 120
        initialEscrowAmount := some 1000 })]

end NilStore.Chain
