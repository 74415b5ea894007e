import NilStore.Proofs.Saturation
import NilStore.Proofs.SlotMap

/-!
# `NilStore.Proofs.Replication`: the count of replicas and the list of providers

A deal counts its replicas in `currentReplication`. Creation sets the count to the length of the
list of providers. A signal of saturation adds `DealBaseReplication` to the count and pays for as
many stripes, while `AssignProviders` may return fewer providers, or ones that the deal has already.
A completed repair may put in a provider that the deal lists at another place.

In runs whose signals find a full stripe of new providers, and whose repairs put in new ones
(`CleanScaling`), count and list agree, and a signal pays for what it adds (`replication_kept`).
`replication_mismatch` is the chain with one provider, where a signal lists it a second time.
-/

set_option autoImplicit false

namespace NilStore.Chain

open NilStore.Lib

variable {β : Type}

/-- The count of replicas is the number of providers, and no provider is listed twice. The length
of a Go slice is a `uint64`. -/
structure Replicated (deal : Deal) : Prop where
  count : deal.currentReplication = UInt64.ofNat deal.providers.length
  nodup : deal.providers.Nodup

/-- A signal that succeeds appends its stripe, and debits `BaseStripeCost` for each provider of
it. -/
def PaidStripe (env : Env β) (s : KeeperState β) (e : Event) : Prop :=
  ∀ ctx msg r s', e = .deliver ctx (.signalSaturation msg) →
    (signalSaturation env ctx msg).exec s = (.ok r, s') →
    ∃ deal deal', s.deals.get msg.dealId.toNat = some deal ∧
      s'.deals.get msg.dealId.toNat = some deal' ∧ deal'.providers = deal.providers ++ r ∧
      deal.escrowBalance - deal'.escrowBalance = setUint64 s.getParams.baseStripeCost * r.length

/-- Where there are candidates, there are enough for a full stripe, and those that are picked are
new to the deal. Where there are none, nobody is picked and the signal fails. -/
structure FullStripe (env : Env β) (ctx : Ctx) (deal : Deal) (providers : KVStore Str Provider) :
    Prop where
  candidates : candidates "Hot".toList providers ≠ [] →
    dealBaseReplication.toNat ≤ (candidates "Hot".toList providers).length
  fresh : ∀ r, newStripe env ctx deal providers = .ok r → ∀ p ∈ r, p ∉ deal.providers

/-- A signal that passes the checks finds a full stripe of new providers, and a repair that passes
its checks puts in a new one. -/
structure CleanScaling (env : Env β) (s : KeeperState β) (e : Event) : Prop where
  signal : ∀ ctx msg deal, e = .deliver ctx (.signalSaturation msg) →
    s.deals.get msg.dealId.toNat = some deal → SaturationAdmitted ctx msg deal s.getParams →
    FullStripe env ctx deal s.providers
  repair : ∀ ctx msg deal slot, e = .deliver ctx (.completeSlotRepair msg) →
    RepairPending msg s.deals deal slot → slot.pendingProvider ∉ deal.providers

section Step

variable {env : Env β} {ctx : Ctx} {deal : Deal} {providers : KVStore Str Provider}

/-- A new deal is replicated as it was assigned. -/
theorem NewDeal.replicated (h : NewDeal env ctx providers deal) : Replicated deal := by
  obtain ⟨owner, spend, duration, raw, hint, stripe, -, -, hassign, -, hshape⟩ := h
  refine ⟨?_, (assignProviders_ok hassign).1⟩
  rw [hshape]
  rfl

/-- A stripe is assigned among candidates. -/
theorem candidates_ne_nil {r : List Str} (hassign : newStripe env ctx deal providers = .ok r) :
    candidates "Hot".toList providers ≠ [] := by
  intro hnil
  rw [newStripe, assignProviders] at hassign
  simp only at hassign
  split at hassign
  · cases hassign
  · rw [if_pos (show (providers.entries.map (·.2)).filter (isCandidate "Hot".toList) =
      [] from hnil)]
      at hassign
    cases hassign

/-- A full stripe adds twelve providers. -/
theorem FullStripe.length_eq (h : FullStripe env ctx deal providers) {r : List Str}
    (hassign : newStripe env ctx deal providers = .ok r) : r.length = 12 := by
  have hlength : r.length = min dealBaseReplication.toNat
      (NilStore.Chain.candidates "Hot".toList providers).length := (assignProviders_ok hassign).2.2
  rw [hlength, min_eq_left (h.candidates (candidates_ne_nil hassign))]
  rfl

/-- A full stripe of new providers keeps the count. -/
theorem Replicated.saturated (hdeal : Replicated deal) (h : FullStripe env ctx deal providers)
    {params : Params} {r : List Str} (hassign : newStripe env ctx deal providers = .ok r) :
    Replicated (saturatedDeal ctx params deal r) := by
  constructor
  · show deal.currentReplication + dealBaseReplication =
      UInt64.ofNat (deal.providers ++ r).length
    rw [List.length_append, h.length_eq hassign, UInt64.ofNat_add, hdeal.count]
    rfl
  · show (deal.providers ++ r).Nodup
    refine List.nodup_append'.mpr ⟨hdeal.nodup, (assignProviders_ok hassign).1, ?_⟩
    intro p hp hr
    exact h.fresh r hassign p hr hp

/-- A repair with a new provider keeps the count. -/
theorem Replicated.repaired (hdeal : Replicated deal) {i : Nat} {slot : DealSlot}
    (hfresh : slot.pendingProvider ∉ deal.providers) :
    Replicated (completeSlot ctx deal i slot) := by
  constructor
  · show deal.currentReplication = UInt64.ofNat (deal.providers.set i slot.pendingProvider).length
    rw [List.length_set, hdeal.count]
  · exact hdeal.nodup.set hfresh

/-- The cost of a stripe is that of twelve providers. -/
theorem CleanScaling.paidStripe {s : KeeperState β} {e : Event} (h : CleanScaling env s e)
    (hs : WellFormed env s) : PaidStripe env s e := by
  intro ctx msg r s' he hok
  obtain ⟨deal, hget, hadmitted, hassign, rfl⟩ := signalSaturation_ok hok
  have hlength := (h.signal ctx msg deal he hget hadmitted).length_eq hassign
  refine ⟨deal, saturatedDeal ctx s.getParams deal r, hget, ?_, rfl, ?_⟩
  · rw [← hs.deal_id hget]
    exact KVStore.get_set_self _ _ _
  · show deal.escrowBalance - (deal.escrowBalance - elasticityCost s.getParams) = _
    rw [hlength, sub_sub_cancel]
    rfl

end Step

/-- The count of replicas, in every run whose events meet `CleanScaling`: in the state that is
reached, each deal counts the providers it lists, and lists none twice; and each signal of the run
that succeeds pays for the providers that it adds. -/
theorem replication_kept (env : Env β) (params : Params) (b : β) (es : List Event)
    (hes : Along (fun past e => CleanScaling env (run (apply env) (genesis params b) past) e) es) :
    (∀ d deal, (run (apply env) (genesis params b) es).deals.get d = some deal → Replicated deal) ∧
      Along (fun past e => PaidStripe env (run (apply env) (genesis params b) past) e) es := by
  constructor
  · refine run_deals env params b _ (fun _ _ deal => Replicated deal) ?_ ?_ hes
    · intro past e d deal _ _ hnew
      exact hnew.replicated
    · intro past e d deal deal' hok _ hstep ih
      cases hstep with
      | escrow amount => exact ⟨ih.count, ih.nodup⟩
      | content size deposit hroot => exact ⟨ih.count, ih.nodup⟩
      | repairStarted hmode hslot hpending => exact ⟨ih.count, ih.nodup⟩
      | saturated he hget hadmitted hassign =>
          exact ih.saturated (hok.signal _ _ deal he hget hadmitted) hassign
      | repaired he hpending => exact ih.repaired (hok.repair _ _ deal _ he hpending)
  · exact hes.mono fun past e h => h.paidStripe (run_wellFormed env params b past)

/-! ### On a small chain -/

/-- Fourteen providers. -/
def scalingProviders : List Str :=
  [providerText, otherText] ++ [
    "nil1qszqgpqyqszqgpqyqszqgpqyqszqgpqyayqndd",
    "nil1q5zs2pg9q5zs2pg9q5zs2pg9q5zs2pg9u5pj8v",
    "nil1qcrqvpsxqcrqvpsxqcrqvpsxqcrqvpsxds8hv6",
    "nil1qurswpc8qurswpc8qurswpc8qurswpc8vqxkxm",
    "nil1pqyqszqgpqyqszqgpqyqszqgpqyqszqgrc5zzz",
    "nil1pyysjzgfpyysjzgfpyysjzgfpyysjzgfzg4rgr",
    "nil1pg9q5zs2pg9q5zs2pg9q5zs2pg9q5zs2nvnxr4",
    "nil1pv9skzctpv9skzctpv9skzctpv9skzctjuj8f5",
    "nil1psxqcrqvpsxqcrqvpsxqcrqvpsxqcrqvjv4zwg",
    "nil1p5xs6rgdp5xs6rgdp5xs6rgdp5xs6rgdnu5ryf",
    "nil1pc8qurswpc8qurswpc8qurswpc8qurswzcjx0l",
    "nil1pu8s7rc0pu8s7rc0pu8s7rc0pu8s7rc0rgn897"].map String.toList

/-- The address book of the sample run: the owner and fourteen providers. -/
def scalingBook : AddressBook where
  entries := (ownerText, ownerAddr) ::
    scalingProviders.zipIdx.map fun e => (e.1, List.replicate 20 (UInt8.ofNat (e.2 + 2)))
  texts_nodup := by decide +kernel
  texts := by decide +kernel

/-- The hash of the block before the signal. -/
def stripeBlockHash : Bytes := beBytes 32 55986

/-- The SHA-256 of the twelve rounds in which the stripe of deal 0 is assigned. -/
def stripeHashes : List Nat := [
  0xf953c9163c8b3e52e88bedbe38082d4c8a3c3f75444c47b0f8d80996339c37e4,
  0x04c2af3c2598d43e1d02f8911ea2111d072778b4aeb8a13a6a62a5dd13f6320b,
  0x15bf8c90039d52bf3967c374df04b27e4fd20b7c9748a8aaa0da0f9217754bc7,
  0x5682c2e11d21ff28ea6f9c77546c637d349978585b620224fa25e10396f345f2,
  0xb32406f6d4cdbfdd72a9c8f3caef1462e0bc5ac909754615a1444dfb64ec589a,
  0x32ac6817e41ece97b3a462d7faeda5c3acdb4afe3e61e83f12772342b87196d7,
  0x2d27f83eeb58798d3c301b44b5105bd6a92458dccca593c342155b18787bd4df,
  0x551f1ad79d5faa58d6a742a2e8659cdcb4acbc3a7165eac6397766d7a90849b2,
  0xaf66193f9c98715920013436ab391c6cad8ded8b55a2bdba682a15c1677b5dd3,
  0xc8a3259a051a2d2aef90bfc20deaac849c518a4d3daa0f9e581e726ce2edd70f,
  0xb8a4ac9c3cdd16ef877cd93148f89e0aa59ab33610731a615a7000622d4c271a,
  0x0cec0c3f478b6998086e87d95fabbfa5aded650192a80ba0a337721f78fd758e]

/-- The SHA-256 of the sample run: that of its assignments. -/
def scalingSha : HashTable where
  entries := sampleSha.entries ++ stripeHashes.zipIdx.map fun e =>
    (uint64ToBigEndian 1000 ++ stripeBlockHash ++ uint64ToBigEndian (UInt64.ofNat e.2),
      beBytes 32 e.1)
  lengths := by decide +kernel

/-- The chain of the sample run. -/
def scalingEnv : Env Ledger := bookEnv scalingBook noKeccak scalingSha [] 12

/-- The registration of a provider that keeps archives, and is no candidate of a stripe. -/
def archiveMsg (creator : Str) : Msg :=
  .registerProvider
    { creator := creator
      capabilities := "Archive".toList
      totalStorage := 0
      endpoints := ["/ip4/127.0.0.1/tcp/8080/http".toList] }

/-- The block of the signal. -/
def signalCtx : Ctx := { ctxAt 2 with lastBlockHash := stripeBlockHash }

/-- A deal with one slot. Twelve providers come, and a signal of saturation adds them to the deal;
then the provider of the slot is replaced. -/
def scalingRun : List Event :=
  [.deliver (ctxAt 1) (archiveMsg providerText),
    .deliver (ctxAt 1) (createMsg 100 "General:rs=8+4")] ++
  ((scalingProviders.drop 1).take 12).map (fun p => .deliver (ctxAt 2) (registerMsg p)) ++
  [.deliver signalCtx (.signalSaturation ⟨providerText, 0⟩),
    .deliver (ctxAt 3) (registerMsg (scalingProviders.getD 13 [])),
    .deliver (ctxAt 3) (.startSlotRepair ⟨ownerText, 0, 0, scalingProviders.getD 13 []⟩),
    .deliver (ctxAt 4) (.completeSlotRepair ⟨ownerText, 0, 0⟩)]

/-- The signal finds a full stripe of new providers. -/
theorem fullStripe_scalingRun {deal : Deal}
    (hget : (run (apply scalingEnv) (genesis defaultParams sampleBank)
      (scalingRun.take 14)).deals.get 0 =
      some deal) :
    FullStripe scalingEnv signalCtx deal
      (run (apply scalingEnv) (genesis defaultParams sampleBank)
        (scalingRun.take 14)).providers := by
  have hcount : (candidates "Hot".toList (run (apply scalingEnv) (genesis defaultParams sampleBank)
      (scalingRun.take 14)).providers).length = 12 := by decide +kernel
  have hpicked : ((run (apply scalingEnv) (genesis defaultParams sampleBank)
      (scalingRun.take 14)).deals.get 0).all (fun deal =>
        ((newStripe scalingEnv signalCtx deal
          (run (apply scalingEnv) (genesis defaultParams sampleBank)
          (scalingRun.take 14)).providers).toOption.all fun r => r.all fun p =>
            p ∉ deal.providers)) =
      true := by decide +kernel
  refine ⟨fun _ => hcount.ge, fun r hassign p hp => ?_⟩
  rw [hget, Option.all_some, hassign] at hpicked
  exact of_decide_eq_true (List.all_eq_true.mp hpicked p hp)

/-- The repair puts in a provider that the deal does not list. -/
theorem fresh_scalingRun {deal : Deal} {slot : DealSlot}
    (hpending : RepairPending ⟨ownerText, 0, 0⟩
      (run (apply scalingEnv) (genesis defaultParams sampleBank)
        (scalingRun.take 17)).deals deal slot) :
    slot.pendingProvider ∉ deal.providers := by
  have hfresh : ((run (apply scalingEnv) (genesis defaultParams sampleBank)
      (scalingRun.take 17)).deals.get 0).all (fun deal =>
        (deal.mode2Slots[0]?).all fun slot => slot.pendingProvider ∉ deal.providers) = true := by
    decide +kernel
  have hget :
      (run (apply scalingEnv) (genesis defaultParams sampleBank) (scalingRun.take 17)).deals.get 0 =
      some deal := hpending.get
  have hfound : deal.mode2Slots[0]? = some slot := hpending.found
  rw [hget, Option.all_some, hfound, Option.all_some] at hfresh
  exact of_decide_eq_true hfresh

/-- The deal counts thirteen replicas, and lists the twelve providers of its stripe and the new one
of its slot. The deal is signalled once and its repair is completed. -/
theorem replication_kept_scalingRun :
    ∃ deal, (run (apply scalingEnv) (genesis defaultParams sampleBank) scalingRun).deals.get 0 =
      some deal ∧
      deal.currentReplication = 13 ∧ deal.providers.head? = scalingProviders[13]? ∧
        Replicated deal ∧
      PaidStripe scalingEnv
        (run (apply scalingEnv) (genesis defaultParams sampleBank) (scalingRun.take 14))
        (.deliver signalCtx (.signalSaturation ⟨providerText, 0⟩)) := by
  -- each event of the run meets the condition
  have hclean : Along (fun past e => CleanScaling scalingEnv
      (run (apply scalingEnv) (genesis defaultParams sampleBank) past) e) scalingRun := by
    rw [along_iff_take]
    intro i
    refine ⟨fun ctx msg deal he hget _ => ?_, fun ctx msg deal slot he hpending => ?_⟩
    · fin_cases i <;> cases he
      exact fullStripe_scalingRun hget
    · fin_cases i <;> cases he
      exact fresh_scalingRun hpending
  have hrun :
      ((run (apply scalingEnv) (genesis defaultParams sampleBank) scalingRun).deals.get 0).map
      (fun deal => (deal.currentReplication, deal.providers.head?)) =
      some (13, scalingProviders[13]?) := by decide +kernel
  obtain ⟨deal, hget, heq⟩ := Option.map_eq_some_iff.mp hrun
  obtain ⟨hcount, hhead⟩ := Prod.mk.inj heq
  obtain ⟨hkept, hpaid⟩ := replication_kept scalingEnv defaultParams sampleBank scalingRun hclean
  exact ⟨deal, hget, hcount, hhead, hkept 0 deal hget,
    hpaid (scalingRun.take 14) _ (scalingRun.drop 15) rfl⟩

/-- One provider is registered, and a signal of saturation lists it again: the deal counts thirteen
replicas for two entries of one provider, and has paid for twelve. The signal asks for a full stripe
and takes what the assignment finds. -/
theorem replication_mismatch :
    ¬(∀ d deal, (run (apply saturationEnv) (genesis defaultParams sampleBank)
        (stripeRun ++ [saturationEvent 2])).deals.get d = some deal →
        deal.currentReplication = UInt64.ofNat deal.providers.length) ∧
    ¬(∀ d deal, (run (apply saturationEnv) (genesis defaultParams sampleBank)
        (stripeRun ++ [saturationEvent 2])).deals.get d = some deal → deal.providers.Nodup) ∧
    ¬Along (fun past e => PaidStripe saturationEnv
        (run (apply saturationEnv) (genesis defaultParams sampleBank) past) e)
      (stripeRun ++ [saturationEvent 2]) := by
  have hrun : ((run (apply saturationEnv) (genesis defaultParams sampleBank)
      (stripeRun ++ [saturationEvent 2])).deals.get 0).map
        (fun deal => (deal.currentReplication, deal.providers)) =
      some (13, [providerText, providerText]) := by decide +kernel
  obtain ⟨deal, hget, heq⟩ := Option.map_eq_some_iff.mp hrun
  obtain ⟨hcount, hproviders⟩ := Prod.mk.inj heq
  -- the count, the repetition and the payment
  refine ⟨fun hall => ?_, fun hall => ?_, fun hall => ?_⟩
  · have hlength := hall 0 deal hget
    rw [hcount, hproviders] at hlength
    exact absurd hlength (by decide)
  · have hnodup := hall 0 deal hget
    rw [hproviders] at hnodup
    exact absurd hnodup (by simp)
  · have hexec : (((signalSaturation saturationEnv (ctxAt 2) ⟨providerText, 0⟩).exec
        (run (apply saturationEnv) (genesis defaultParams sampleBank) stripeRun)).1.toOption).map
          List.length = some 1 := by decide +kernel
    have hescrow : ((run (apply saturationEnv) (genesis defaultParams sampleBank)
        stripeRun).deals.get 0).map (·.escrowBalance) = some 1000 := by decide +kernel
    have hescrow' : (((signalSaturation saturationEnv (ctxAt 2) ⟨providerText, 0⟩).exec
        (run (apply saturationEnv) (genesis defaultParams sampleBank) stripeRun)).2.deals.get 0).map
          (·.escrowBalance) = some 880 := by decide +kernel
    have hcost : (run (apply saturationEnv) (genesis defaultParams sampleBank)
        stripeRun).getParams.baseStripeCost = 10 := by decide +kernel
    cases hres : (signalSaturation saturationEnv (ctxAt 2) ⟨providerText, 0⟩).exec
        (run (apply saturationEnv) (genesis defaultParams sampleBank) stripeRun) with
    | mk res s' =>
        rw [hres] at hexec hescrow'
        cases res with
        | error fault => cases hexec
        | ok r =>
            -- what the condition says of the last event
            obtain ⟨before, after, hbefore, hafter, -, hpaid⟩ := hall.last _ _ r s' rfl hres
            have hone : r.length = 1 := Option.some.inj hexec
            have hbalance : before.escrowBalance = 1000 :=
              Option.some.inj ((congrArg (Option.map _) hbefore).symm.trans hescrow)
            have hbalance' : after.escrowBalance = 880 :=
              Option.some.inj ((congrArg (Option.map _) hafter).symm.trans hescrow')
            rw [hbalance, hbalance', hcost, hone] at hpaid
            exact absurd hpaid (by decide)

end NilStore.Chain
