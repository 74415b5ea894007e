import NilStore.Gateway.PlanSession

/-!
# `NilStore.Gateway.DealProviders`: the providers of a deal, from the LCD

`fetchDealProvidersFromLCD` of `nil_gateway/provider_discovery.go`, from the answer of the LCD on,
and what its callers read from the list. The list has the providers of the active slots first, for a
download that falls back on the next one. Four callers take an entry by its slot.
-/

set_option autoImplicit false

namespace NilStore.Gateway

open NilStore.Lib NilStore.Chain

/-! ### The answer of the LCD -/

/-- The raw JSON value of a status: not there, a string, an integer, another number with the integer
that `int` makes of it, or anything else. -/
inductive RawStatus where
  | absent
  | text (s : Str)
  | int (n : Int)
  | float (truncated : Int)
  | other
deriving DecidableEq

/-- An entry of `mode2_slots`. Its fields come out of a JSON object, so the status may have any
form. -/
structure LcdSlot where
  provider : Str
  pendingProvider : Str
  status : RawStatus
deriving DecidableEq

/-- The deal in the answer of the LCD, as far as the gateway looks at it. -/
structure LcdDeal where
  providers : List Str
  mode2Slots : List LcdSlot
deriving DecidableEq

/-- The name of a status. The LCD writes an enumeration as text. -/
def SlotStatus.name : SlotStatus → String
  | .unspecified => "SLOT_STATUS_UNSPECIFIED"
  | .active => "SLOT_STATUS_ACTIVE"
  | .repairing => "SLOT_STATUS_REPAIRING"

/-- The answer of the LCD for a deal of the chain. -/
def lcdDeal (deal : Deal) : LcdDeal where
  providers := deal.providers
  mode2Slots := deal.mode2Slots.map fun slot =>
    ⟨slot.provider, slot.pendingProvider, .text (SlotStatus.name slot.status).toList⟩

/-! ### `fetchDealProvidersFromLCD` -/

/-- `unicode.ToUpper` on the characters whose upper case is ASCII. -/
def toUpperRune (c : Char) : Char :=
  if c.toNat = 0x131 then 'I'
  else if c.toNat = 0x17F then 'S'
  else c.toUpper

/-- `parseStatus`. What is not recognised counts as unspecified, and a number is taken as it is. -/
def parseStatus : RawStatus → Int
  | .absent => 0
  | .text s =>
      let name := (trimSpace s).map toUpperRune
      if name = "SLOT_STATUS_ACTIVE".toList then 1
      else if name = "SLOT_STATUS_REPAIRING".toList then 2
      else 0
  | .int n => n
  | .float truncated => truncated
  | .other => 0

/-- `appendUnique`. What has been seen is what stands in the list. -/
def appendUnique (ordered values : List Str) : List Str :=
  values.foldl (fun ordered v => if v = [] ∨ v ∈ ordered then ordered else ordered ++ [v]) ordered

/-- The trimmed providers of the slots whose status the predicate takes, without the empty ones. -/
def slotProvidersWith (p : Int → Bool) (slots : List LcdSlot) : List Str :=
  ((slots.filter fun slot => p (parseStatus slot.status)).map fun slot =>
    trimSpace slot.provider).filter (· ≠ [])

/-- What `fetchDealProvidersFromLCD` returns for a deal. -/
def fetchDealProvidersFromLCD (deal : LcdDeal) : List Str :=
  let out := (deal.providers.map trimSpace).filter (· ≠ [])
  if deal.mode2Slots = [] then out
  else
    let active := slotProvidersWith (· = 1) deal.mode2Slots
    let repairing := slotProvidersWith (· = 2) deal.mode2Slots
    let unknown := slotProvidersWith (fun n => n ≠ 1 ∧ n ≠ 2) deal.mode2Slots
    let ordered := appendUnique (appendUnique (appendUnique [] active) unknown) repairing
    -- Preserve any legacy providers that are not in mode2_slots.
    let ordered := appendUnique ordered out
    if ordered = [] then out else ordered

/-! ### The callers that take an entry by its slot

`planProvider` is the one of `GatewayPlanRetrievalSession`. -/

/-- The slot check of `GatewayFetch`. In Mode 2 only the provider of a slot may serve its leaves. -/
def checkFetchSlot (stripe : StripeParams) (leafIndex : UInt64) (providerAddr : Str)
    (dealProviders : Except String (List Str)) : Except JsonError Unit :=
  if stripe.mode = 2 then do
    let slot ← (slotForLeafIndex leafIndex stripe).mapError fun text =>
      ⟨500, "failed to map provider slot", text⟩
    let providers ← dealProviders.mapError fun text => ⟨500, "failed to resolve providers", text⟩
    let provider ← orFail providers[slot.toNat]? ⟨400, "slot exceeds provider set", ""⟩
    rejectIf (trimSpace provider = [] ∨ trimSpace providerAddr ≠ trimSpace provider)
      ⟨400, "provider slot mismatch", "expected " ++ String.ofList (trimSpace provider)⟩
  else .ok ()

/-- The text of the error when there are fewer providers than slots. -/
def notEnoughProviders (stripe : StripeParams) (providers : List Str) : String :=
  "not enough providers for Mode 2 (need " ++ toString stripe.slotCount ++ ", got " ++
    toString providers.length ++ ")"

/-- The providers that `ensureMode2MduOnDisk` asks for the shards of an MDU, by slot. -/
def shardProviders (stripe : StripeParams) (dealProviders : Except String (List Str)) :
    Except String (List Str) := do
  rejectIf (stripe.mode ≠ 2) "file does not exist"
  rejectIf (stripe.k = 0 ∨ stripe.rows = 0) "invalid stripe params"
  let providers ← dealProviders
  rejectIf (stripe.slotCount = 0) "invalid stripe params"
  rejectIf (providers.length < stripe.slotCount.toNat) (notEnoughProviders stripe providers)
  return providers.take stripe.slotCount.toNat

/-- The providers to which `mode2UploadArtifactsToProviders` uploads, by slot. It skips the slots of
the local provider. -/
def uploadProviders (stripe : StripeParams) (witnessCount : UInt64) (localProviderAddr : Str)
    (dealProviders : Except String (List Str)) : Except String (List (Option Str)) := do
  rejectIf (stripe.mode ≠ 2 ∨ stripe.k = 0 ∨ stripe.m = 0 ∨ stripe.rows = 0) "deal is not Mode 2"
  rejectIf (witnessCount = 0 ∨ stripe.slotCount = 0) "invalid Mode 2 state"
  let providers ← dealProviders
  rejectIf (providers.length < stripe.slotCount.toNat) (notEnoughProviders stripe providers)
  return (providers.take stripe.slotCount.toNat).map fun provider =>
    if trimSpace localProviderAddr ≠ [] ∧ provider = trimSpace localProviderAddr then none
    else some provider

end NilStore.Gateway
