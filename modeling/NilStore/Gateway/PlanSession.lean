import NilStore.Gateway.StripeParams
import NilStore.Gateway.Witness

/-!
# `NilStore.Gateway.PlanSession`: the plan of a retrieval session

`GatewayPlanRetrievalSession` of `nil_gateway/main.go`. The gateway maps a byte range of a file to
the blobs that hold its first and its last byte, and answers with the range of leaves from the one
to the other. In Mode 2 it first takes both blobs to their leaves, and refuses when these lie in two
slots.

What the handler reads is passed to it: the record of the file (`GetFileMetaByPath`), the stripe
(`planStripe` of the service hint that the LCD answers), the provider list of the deal and the
cached address of the gateway's own provider.
-/

set_option autoImplicit false

namespace NilStore.Gateway

open NilStore.Lib NilStore.Chain

/-- What `writeJSONError` sends. The hint is the second text, and may be empty. -/
structure JsonError where
  status : Nat
  error : String
  hint : String
deriving DecidableEq

/-- What `GetFileMetaByPath` returns: where the file lies in the user data, and how many witness
MDUs come before it. -/
structure FileMeta where
  startOffset : UInt64
  length : UInt64
  witnessCount : UInt64
deriving DecidableEq

/-- The error of `GetFileMetaByPath`: `os.ErrNotExist`, or another one. -/
inductive FileMetaError where
  | notExist
  | other (text : String)
deriving DecidableEq

/-- What the handler sends for it. -/
def FileMetaError.toJson : FileMetaError → JsonError
  | .notExist => ⟨404, "file not found in deal", ""⟩
  | .other text => ⟨500, "failed to resolve file metadata", text⟩

/-- `RawMduCapacity`, where the source computes with `uint64`. -/
def rawMduCapacityU64 : UInt64 := .ofNat rawMduCapacity

/-- `rawOffsetToEncodedBlobIndex`. A scalar of 32 bytes has 31 bytes of payload, behind a zero
byte. -/
def rawOffsetToEncodedBlobIndex (rawOffsetInMdu : UInt64) : Except String UInt32 :=
  if rawOffsetInMdu ≥ rawMduCapacityU64 then
    .error ("raw offset out of bounds: " ++ toString rawOffsetInMdu)
  else
    let scalarIdx := rawOffsetInMdu / 31
    let payloadOffset := rawOffsetInMdu % 31
    let encodedPos := scalarIdx * 32 + 1 + payloadOffset
    let blobIdx := encodedPos / blobSizeBytes
    if blobIdx ≥ blobsPerMdu then
      .error ("derived blob index out of range: " ++ toString blobIdx)
    else .ok blobIdx.toUInt32

/-- The query parameter `range_start` or `range_len`: zero when it is not there. -/
def parseRangeParam (name : String) (raw : Str) : Except JsonError UInt64 :=
  if trimSpace raw = [] then .ok 0
  else orFail (parseUint (trimSpace raw)) ⟨400, "invalid " ++ name, ""⟩

/-- The length of a range that starts within the file, cut off at the end of the file. -/
def clipRangeLen (file : FileMeta) (rangeStart rangeLen : UInt64) : UInt64 :=
  if rangeLen = 0 ∨ rangeLen > file.length - rangeStart then file.length - rangeStart else rangeLen

/-- The checks of the range against the file, and its length. -/
def clipRange (file : FileMeta) (rangeStart rangeLen : UInt64) : Except JsonError UInt64 := do
  rejectIf (file.length = 0) ⟨409, "file has zero length", ""⟩
  rejectIf (rangeStart ≥ file.length) ⟨400, "range_start beyond EOF", ""⟩
  return clipRangeLen file rangeStart rangeLen

/-- The two ends of a range: the MDU of each, and the blob or leaf in it. -/
structure RangeEnds where
  startMdu : UInt64
  endMdu : UInt64
  startBlob : UInt32
  endBlob : UInt32
deriving DecidableEq

/-- The blobs that hold the first and the last byte of the range. -/
def endBlobs (file : FileMeta) (rangeStart rangeLen : UInt64) : Except JsonError RangeEnds := do
  let absStart := file.startOffset + rangeStart
  let absEnd := absStart + rangeLen - 1
  let startBlob ← (rawOffsetToEncodedBlobIndex (absStart % rawMduCapacityU64)).mapError fun text =>
    ⟨500, "failed to map start blob", text⟩
  let endBlob ← (rawOffsetToEncodedBlobIndex (absEnd % rawMduCapacityU64)).mapError fun text =>
    ⟨500, "failed to map end blob", text⟩
  return ⟨1 + file.witnessCount + absStart / rawMduCapacityU64,
    1 + file.witnessCount + absEnd / rawMduCapacityU64, startBlob, endBlob⟩

/-- The stripe for a service hint. A hint that cannot be fetched counts as empty, and one that is
not valid as Mode 1. -/
def planStripe (serviceHint : Except String Str) : StripeParams :=
  let hint := match serviceHint with
    | .ok hint => hint
    | .error _ => []
  match stripeParamsFromHint hint with
  | .ok stripe => stripe
  | .error _ => mode1StripeParams

/-- The leaves of both ends in Mode 2, and their slot. In Mode 1 a leaf is a blob, and there is no
slot. -/
def endLeaves (stripe : StripeParams) (ends : RangeEnds) : Except JsonError (UInt64 × RangeEnds) :=
  if stripe.mode = 2 then do
    let startLeaf ← (leafIndexForBlobIndex ends.startBlob stripe).mapError fun text =>
      ⟨500, "failed to map start leaf", text⟩
    let endLeaf ← (leafIndexForBlobIndex ends.endBlob stripe).mapError fun text =>
      ⟨500, "failed to map end leaf", text⟩
    let slot ← (slotForLeafIndex startLeaf stripe).mapError fun text =>
      ⟨500, "failed to map start slot", text⟩
    let endSlot ← (slotForLeafIndex endLeaf stripe).mapError fun text =>
      ⟨500, "failed to map end slot", text⟩
    rejectIf (slot ≠ endSlot)
      ⟨400, "range spans multiple slots", "split into per-slot requests in Mode 2"⟩
    return (slot, { ends with startBlob := startLeaf.toUInt32, endBlob := endLeaf.toUInt32 })
  else .ok (0, ends)

/-- The provider of the session: the one of the slot, or in Mode 1 the gateway's own. -/
def planProvider (stripe : StripeParams) (startSlot : UInt64) (cachedProviderAddress : Str)
    (dealProviders : Except String (List Str)) : Except JsonError Str :=
  if stripe.mode = 2 then do
    let providers ← dealProviders.mapError fun text => ⟨500, "failed to resolve providers", text⟩
    let provider ← orFail providers[startSlot.toNat]? ⟨400, "slot exceeds provider set", ""⟩
    return trimSpace provider
  else if trimSpace cachedProviderAddress ≠ [] then .ok cachedProviderAddress
  else do
    let providers ← dealProviders.mapError fun _ =>
      ⟨500, "provider address unavailable", "set NIL_PROVIDER_ADDRESS or NIL_PROVIDER_KEY"⟩
    let provider ← orFail providers.head?
      ⟨500, "provider address unavailable", "deal has no assigned providers"⟩
    return trimSpace provider

/-- The answer of the handler: what the owner has to open on the chain. The fields that it only
passes on are left out. -/
structure SessionPlan where
  provider : Str
  rangeStart : UInt64
  rangeLen : UInt64
  startMduIndex : UInt64
  startBlobIndex : UInt32
  blobCount : UInt64
deriving DecidableEq

/-- The plan for a range of a file. The blobs between the first and the last are counted over the
whole slab. -/
def planRange (stripe : StripeParams) (file : FileMeta) (rangeStart rangeLen : UInt64)
    (cachedProviderAddress : Str) (dealProviders : Except String (List Str)) :
    Except JsonError SessionPlan := do
  let rangeLen ← clipRange file rangeStart rangeLen
  let blobs ← endBlobs file rangeStart rangeLen
  let (startSlot, ends) ← endLeaves stripe blobs
  let startGlobal := ends.startMdu * stripe.leafCount + ends.startBlob.toUInt64
  let endGlobal := ends.endMdu * stripe.leafCount + ends.endBlob.toUInt64
  rejectIf (endGlobal < startGlobal) ⟨500, "invalid blob mapping", ""⟩
  let provider ← planProvider stripe startSlot cachedProviderAddress dealProviders
  return ⟨provider, rangeStart, rangeLen, ends.startMdu, ends.startBlob,
    endGlobal - startGlobal + 1⟩

/-- `GatewayPlanRetrievalSession`, from the record of the file on. -/
def gatewayPlanRetrievalSession (stripe : StripeParams) (file : Except FileMetaError FileMeta)
    (rawRangeStart rawRangeLen : Str) (cachedProviderAddress : Str)
    (dealProviders : Except String (List Str)) : Except JsonError SessionPlan := do
  let file ← file.mapError FileMetaError.toJson
  let rangeStart ← parseRangeParam "range_start" rawRangeStart
  let rangeLen ← parseRangeParam "range_len" rawRangeLen
  planRange stripe file rangeStart rangeLen cachedProviderAddress dealProviders

end NilStore.Gateway
