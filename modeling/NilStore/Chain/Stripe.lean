import NilStore.Chain.Types

/-!
# `NilStore.Chain.Stripe`: service hints and the stripe parameters of a deal

`types/service_hint.go` and `keeper/stripe_params.go`. A service hint is a base followed by
`:`-separated `key=value` extras; `rs=K+M` in it asks for a Mode 2 deal. `stripeParamsForDeal`
reads the stripe of a stored deal from its profile, or from its hint when it has none.
-/

set_option autoImplicit false

namespace NilStore.Chain

open NilStore.Lib

/-! ### `types/service_hint.go` -/

/-- `types.ServiceHintInfo`. The flags say which tokens the hint has, since their numbers are zero
without one. -/
structure ServiceHintInfo where
  raw : Str
  base : Str := []
  owner : Str := []
  replicas : UInt64 := 0
  hasReplicas : Bool := false
  rsk : UInt64 := 0
  rsm : UInt64 := 0
  hasRS : Bool := false
deriving DecidableEq

/-- `strconv.ParseUint` of a value that must not be zero. Signs, blanks and an overflow are
errors. -/
def parsePositive (s : Str) (text : String) : Except String UInt64 :=
  match parseUint s with
  | none => .error text
  | some n => if n = 0 then .error text else .ok n

/-- The case `"rs"` of the switch in `ParseServiceHint`. The sum of the two numbers is taken in
`uint64`, so it may wrap below the bound. -/
def parseRS (info : ServiceHintInfo) (val : Str) : Except String ServiceHintInfo :=
  let text := "invalid rs value in service hint: " ++ fmtS val
  match val.splitOn '+' with
  | [kChunk, mChunk] => do
      let k ← parsePositive (trimSpace kChunk) text
      let m ← parsePositive (trimSpace mChunk) text
      if 64 % k ≠ 0 then
        throw ("invalid rs value in service hint (K must divide 64): " ++ fmtS val)
      if k + m > dealBaseReplication then
        throw ("invalid rs value in service hint (K+M exceeds base replication): " ++ fmtS val)
      return { info with rsk := k, rsm := m, hasRS := true }
  | _ => .error text

/-- The body of the loop over the tokens in `ParseServiceHint`. A token without a value and one with
an unknown key are passed over. -/
def parseHintToken (info : ServiceHintInfo) (rawToken : Str) : Except String ServiceHintInfo :=
  match cut '=' (trimSpace rawToken) with
  | none => .ok info
  | some (rawKey, rawVal) =>
      let key := toLower (trimSpace rawKey)
      let val := trimSpace rawVal
      if val = [] then .ok info
      else if key = "owner".toList then .ok { info with owner := val }
      else if key = "replicas".toList then do
        let n ← parsePositive val ("invalid replicas value in service hint: " ++ fmtS val)
        return { info with replicas := n, hasReplicas := true }
      else if key = "rs".toList then parseRS info val
      else .ok info

/-- `types.ParseServiceHint`. The base is what stands before the first colon, and later tokens win
over earlier ones. -/
def parseServiceHint (raw : Str) : Except String ServiceHintInfo :=
  let raw := trimSpace raw
  match cut ':' raw with
  | none => .ok { raw := raw, base := raw }
  | some (base, extras) =>
      let info : ServiceHintInfo := { raw := raw, base := trimSpace base }
      if extras = [] then .ok info
      else (extras.splitOn ':').foldlM parseHintToken info

/-- What the parser has checked of an `rs` value. The bound is on the wrapped sum. -/
def ServiceHintInfo.RSChecked (info : ServiceHintInfo) : Prop :=
  info.hasRS → info.rsk ≠ 0 ∧ 64 % info.rsk = 0 ∧ info.rsk + info.rsm ≤ dealBaseReplication

/-- The `rs=` part of a hint that parses has passed the checks on its two numbers. -/
theorem parseRS_checked {info info' : ServiceHintInfo} {val : Str}
    (h : parseRS info val = .ok info') : info'.RSChecked := by
  rw [parseRS] at h
  simp only at h
  split at h
  · rename_i kChunk mChunk hsplit
    rw [except_bind_ok] at h
    obtain ⟨k, hk, h⟩ := h
    rw [except_bind_ok] at h
    obtain ⟨m, hm, h⟩ := h
    -- a part that parses as a positive number is not zero
    have hk0 : k ≠ 0 := by
      rw [parsePositive] at hk
      split at hk
      · cases hk
      · split at hk
        · cases hk
        · rename_i hne
          cases hk
          exact hne
    -- the two checks that the source makes on the numbers
    split at h
    · cases h
    · rename_i hdvd
      split at h
      · cases h
      · rename_i hle
        cases h
        exact fun _ => ⟨hk0, not_not.mp hdvd, UInt64.not_lt.mp hle⟩
  · cases h

/-- Reading one token of a hint keeps the checks on `rs=`, whichever token it is. -/
theorem parseHintToken_checked {info info' : ServiceHintInfo} {token : Str}
    (hinfo : info.RSChecked) (h : parseHintToken info token = .ok info') : info'.RSChecked := by
  -- one branch for each key; only `rs` touches the two numbers
  rw [parseHintToken] at h
  split at h
  · cases h
    exact hinfo
  · simp only at h
    split at h
    · cases h
      exact hinfo
    · split at h
      · cases h
        exact hinfo
      · split at h
        · rw [except_bind_ok] at h
          obtain ⟨n, -, h⟩ := h
          cases h
          exact hinfo
        · split at h
          · exact parseRS_checked h
          · cases h
            exact hinfo

/-- Every hint that parses has a checked `rs`, if it has one. -/
theorem parseServiceHint_checked {raw : Str} {info : ServiceHintInfo}
    (h : parseServiceHint raw = .ok info) : info.RSChecked := by
  -- the loop over the tokens, from any start that is checked
  have hfold : ∀ (tokens : List Str) (start : ServiceHintInfo), start.RSChecked →
      tokens.foldlM parseHintToken start = .ok info → info.RSChecked := by
    intro tokens
    induction tokens with
    | nil =>
        intro start hstart h
        cases h
        exact hstart
    | cons token rest ih =>
        intro start hstart h
        rw [List.foldlM_cons, except_bind_ok] at h
        obtain ⟨next, hnext, h⟩ := h
        exact ih next (parseHintToken_checked hstart hnext) h
  rw [parseServiceHint] at h
  simp only at h
  split at h
  · cases h
    intro hrs
    cases hrs
  · split at h
    · cases h
      intro hrs
      cases hrs
    · exact hfold _ _ (fun hrs => by cases hrs) h

/-- The sum `K + M` as the parser computes it is at most the sum of the stored `uint32`
parts. -/
theorem ServiceHintInfo.RSChecked.sum_le {info : ServiceHintInfo} (h : info.RSChecked)
    (hrs : info.hasRS) :
    (info.rsk + info.rsm).toNat ≤ info.rsk.toUInt32.toNat + info.rsm.toUInt32.toNat ∧
      (info.rsk + info.rsm).toNat ≤ 12 := by
  obtain ⟨hk0, hdvd, hle⟩ := h hrs
  have hle : (info.rsk + info.rsm).toNat ≤ 12 := UInt64.le_iff_toNat_le.mp hle
  refine ⟨?_, hle⟩
  have hk0 : info.rsk.toNat ≠ 0 := fun h0 => hk0 (UInt64.toNat_inj.mp h0)
  have hdvd : 64 % info.rsk.toNat = 0 := by
    have := congrArg UInt64.toNat hdvd
    rwa [UInt64.toNat_mod] at this
  have hk : info.rsk.toNat ≤ 64 := Nat.le_of_dvd (by decide) (Nat.dvd_of_mod_eq_zero hdvd)
  have hm := info.rsm.toNat_lt
  rw [UInt64.toNat_add] at hle ⊢
  rw [UInt64.toNat_toUInt32, UInt64.toNat_toUInt32]
  omega

/-- `types.RSParams`. The rows and the leaves follow from the two numbers. -/
structure RSParams where
  k : UInt64
  m : UInt64
  rows : UInt64
  leafCount : UInt64
deriving DecidableEq

/-- `types.RSParamsFromHint`; `none` when the hint has no `rs`. The leaves are those of all the
slots. -/
def rsParamsFromHint (info : ServiceHintInfo) : Except String (Option RSParams) :=
  if ¬info.hasRS then .ok none
  else if info.rsk = 0 ∨ info.rsm = 0 then .error "invalid rs params"
  else
    let rows := 64 / info.rsk
    .ok (some ⟨info.rsk, info.rsm, rows, (info.rsk + info.rsm) * rows⟩)

/-! ### `keeper/stripe_params.go` -/

/-- `stripeParams`: how the blobs of an MDU are laid out over the slots of a deal. In Mode 1 only
the number of leaves counts. -/
structure StripeParams where
  mode : UInt32
  k : UInt64
  m : UInt64
  rows : UInt64
  leafCount : UInt64
  slotCount : UInt64
deriving DecidableEq

/-- The stripe of a deal without erasure coding. -/
def mode1StripeParams : StripeParams := ⟨1, 0, 0, 0, blobsPerMdu, 0⟩

/-- The profile of a deal that `stripeParamsForDeal` reads first: Mode 2, and no zero in
it. -/
def Deal.stripeProfile (deal : Deal) : Option StripeReplicaProfile :=
  if deal.redundancyMode = 2 then deal.mode2Profile.filter (fun p => 0 < p.k ∧ 0 < p.m) else none

/-- `stripeParamsForDeal`. The profile of a deal comes before its hint, and a hint without one means
Mode 1. -/
def stripeParamsForDeal (deal : Deal) : Except String StripeParams :=
  match deal.stripeProfile with
  | some profile =>
      let k := profile.k.toUInt64
      let m := profile.m.toUInt64
      if k = 0 ∨ m = 0 then .error "invalid mode2_profile (K and M must be > 0)"
      else if 64 % k ≠ 0 then .error "invalid mode2_profile (K must divide 64)"
      else
        let rows := 64 / k
        .ok ⟨2, k, m, rows, (k + m) * rows, k + m⟩
  | none => do
      let parsed ← parseServiceHint deal.serviceHint
      match ← rsParamsFromHint parsed with
      | none => return mode1StripeParams
      | some rs => return ⟨2, rs.k, rs.m, rs.rows, rs.leafCount, rs.k + rs.m⟩

/-- The condition under which a deal has a slot map: Mode 2, a profile and slots. -/
def Deal.hasSlotMap (deal : Deal) : Bool :=
  deal.redundancyMode == 2 && deal.mode2Profile.isSome && !deal.mode2Slots.isEmpty

/-- `providerSlotIndex`. The slots of a stored deal are never nil. -/
def providerSlotIndex (deal : Deal) (provider : Str) : Option UInt64 :=
  let target := trimSpace provider
  if target = [] then none
  else
    let fromSlots :=
      if deal.hasSlotMap then
        (deal.mode2Slots.find? fun slot => trimSpace slot.provider = target).map
          fun slot => slot.slot.toUInt64
      else none
    match fromSlots with
    | some slot => some slot
    | none =>
        (deal.providers.findIdx? fun p => trimSpace p = target).map UInt64.ofNat

/-- `leafSlotIndex`. The leaves of a slot lie one after the other, `rows` of them. -/
def leafSlotIndex (leafIndex rows : UInt64) : Except String UInt64 :=
  if rows = 0 then .error "rows must be > 0" else .ok (leafIndex / rows)

example : (parseServiceHint " Hot:rs=8+4:owner=abc ".toList) =
    .ok { raw := "Hot:rs=8+4:owner=abc".toList, base := "Hot".toList, owner := "abc".toList,
          rsk := 8, rsm := 4, hasRS := true } := by
  decide +kernel

end NilStore.Chain
