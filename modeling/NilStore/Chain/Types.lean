import NilStore.Lib.GoString
import NilStore.Lib.Tx

/-!
# `NilStore.Chain.Types`: the records of the chain module

The protobuf messages of `proto/nilchain/nilchain/v1/types.proto` and `params.proto`, with
the constants of `x/nilchain/types`. Fixed-width fields keep their width; `math.Int` is `Int`
and `math.LegacyDec` is its integer of 18-decimal units. Heights that the code keeps as
`int64` are natural numbers, those it keeps as `uint64` are `UInt64`. A deal id is a natural
number: it comes from the module's own sequence, which no run takes to its `uint64` end.

A field of type `math.Int` in a request may be nil, so there it is an `Option Int`. In the
store it never is: every handler writes a value.
-/

set_option autoImplicit false

namespace NilStore.Chain

open NilStore.Lib

/-- `types.DealBaseReplication`. A deal whose hint names no number asks for this many providers, and
an elasticity step adds as many. -/
def dealBaseReplication : UInt64 := 12

/-- `types.ProofWindow`: blocks allowed between proofs before slashing. -/
def proofWindow : UInt64 := 10

/-- `types.BlobSizeBytes`: the 128 KiB of a blob, which are charged whole. -/
def blobSizeBytes : UInt64 := 128 * 1024

/-- `types.BlobsPerMdu`: an MDU of 8 MiB holds this many blobs. -/
def blobsPerMdu : UInt64 := 64

/-- `sdk.DefaultBondDenom`. The fee params have to be coins of it. -/
def bondDenom : Str := ['s', 't', 'a', 'k', 'e']

/-! ### Faults -/

/-- The SDK error a handler wraps its text in; `plain` is an error of `fmt.Errorf`. -/
inductive SdkError where
  | errInvalidRequest
  | errUnauthorized
  | errNotFound
  | errInvalidAddress
  | errInsufficientFunds
  | errInvalidSigner
  | plain
deriving DecidableEq

/-- How a handler ends without a response: it returns an error, it panics, it aborts the
process (a panic that reaches an `extern "C"` boundary), or a loop of it is still running
when the fuel of the model is spent. -/
inductive Fault where
  | err (code : SdkError) (text : String)
  | panic (text : String)
  | abort
  | outOfFuel
deriving DecidableEq

/-- The error values that the handlers return, named as the SDK names them. -/
def errInvalidRequest (text : String) : Fault := .err .errInvalidRequest text

/-- `sdkerrors.ErrUnauthorized`, wrapped with a text. -/
def errUnauthorized (text : String) : Fault := .err .errUnauthorized text

/-- `sdkerrors.ErrNotFound`, wrapped with a text. -/
def errNotFound (text : String) : Fault := .err .errNotFound text

/-- `sdkerrors.ErrInvalidAddress`, wrapped with a text. -/
def errInvalidAddress (text : String) : Fault := .err .errInvalidAddress text

/-- `sdkerrors.ErrInsufficientFunds`, wrapped with a text. -/
def errInsufficientFunds (text : String) : Fault := .err .errInsufficientFunds text

/-- An error made by `fmt.Errorf`, which wraps no registered error. -/
def errorf (text : String) : Fault := .err .plain text

/-- A Go string inside an error text. -/
def fmtS (s : Str) : String := String.ofList s

/-! ### Coins and params -/

/-- `sdk.Coin`. The amount is an arbitrary integer here, and the checks ask for what they need of
it. -/
structure Coin where
  denom : Str
  amount : Int
deriving DecidableEq

/-- The characters that a denom may have after its first letter. -/
def isDenomChar (c : Char) : Bool :=
  c.isAlphanum || c == '/' || c == ':' || c == '.' || c == '_' || c == '-'

/-- `sdk.ValidateDenom`: the pattern `[a-zA-Z][a-zA-Z0-9/:._-]{2,127}`. -/
def validDenom (d : Str) : Bool :=
  match d with
  | [] => false
  | c :: rest => c.isAlpha && 2 ≤ rest.length && rest.length ≤ 127 && rest.all isDenomChar

/-- `Coin.IsValid`: a well-formed denom, and an amount that is not negative. -/
def Coin.isValid (c : Coin) : Bool := validDenom c.denom && decide (0 ≤ c.amount)

/-- A coin of the bond denom. -/
def bondCoin (amount : Int) : Coin := ⟨bondDenom, amount⟩

/-- `types.Params`. They are set at genesis and by the authority, and read by the handlers at each
call. -/
structure Params where
  baseStripeCost : UInt64
  halvingInterval : UInt64
  eip712ChainId : UInt64
  storagePrice : Int
  dealCreationFee : Coin
  minDurationBlocks : UInt64
  baseRetrievalFee : Coin
  retrievalPricePerBlob : Coin
  retrievalBurnBps : UInt64
  monthLenBlocks : UInt64
deriving DecidableEq

/-- `types.DefaultParams`. A chain that sets no params of its own starts with these. -/
def defaultParams : Params where
  baseStripeCost := 10
  halvingInterval := 1000
  eip712ChainId := 31337
  storagePrice := 0
  dealCreationFee := bondCoin 0
  minDurationBlocks := 10
  baseRetrievalFee := bondCoin 1
  retrievalPricePerBlob := bondCoin 1
  retrievalBurnBps := 500
  monthLenBlocks := 1000

/-- The check that the three fee params share: a valid coin of the bond denom. -/
def validateBondCoin (name : String) (v : Coin) : Except Fault Unit := do
  rejectIf (¬v.isValid) (errorf ("invalid " ++ name ++ ": " ++ toString v.amount ++ fmtS v.denom))
  rejectIf (trimSpace v.denom ≠ trimSpace bondDenom)
    (errorf (name ++ " denom must be \"stake\" (got \"" ++ fmtS v.denom ++ "\")"))

/-- `validateDealCreationFee`. -/
def validateDealCreationFee (v : Coin) : Except Fault Unit :=
  validateBondCoin "deal creation fee" v

/-- `validateBaseRetrievalFee`. -/
def validateBaseRetrievalFee (v : Coin) : Except Fault Unit :=
  validateBondCoin "base retrieval fee" v

/-- `validateRetrievalPricePerBlob`. -/
def validateRetrievalPricePerBlob (v : Coin) : Except Fault Unit :=
  validateBondCoin "retrieval price per blob" v

/-- `Params.Validate`. The checks of the stripe cost, the halving interval, the minimal
duration and the month length accept every value. -/
def Params.validate (p : Params) : Except Fault Unit := do
  rejectIf (p.eip712ChainId = 0) (errorf "eip712_chain_id must be non-zero")
  rejectIf (p.storagePrice < 0)
    (errorf ("storage price cannot be negative: " ++ toString p.storagePrice))
  validateDealCreationFee p.dealCreationFee
  validateBaseRetrievalFee p.baseRetrievalFee
  validateRetrievalPricePerBlob p.retrievalPricePerBlob
  rejectIf (p.retrievalBurnBps > 10000)
    (errorf ("retrieval burn bps must be <= 10000 (got " ++ toString p.retrievalBurnBps ++ ")"))

/-! ### Deals and providers -/

/-- `StripeReplicaProfile`: the RS(K, K+M) parameters of a Mode 2 deal. -/
structure StripeReplicaProfile where
  k : UInt32
  m : UInt32
deriving DecidableEq

/-- The state of a Mode 2 slot: served by its provider, or being handed over to the pending one. -/
inductive SlotStatus where
  | unspecified
  | active
  | repairing
deriving DecidableEq

/-- `DealSlot`: one slot of a Mode 2 deal and its provider. -/
structure DealSlot where
  slot : UInt32
  provider : Str
  status : SlotStatus
  pendingProvider : Str
  statusSinceHeight : Nat
  repairTargetGen : UInt64
deriving DecidableEq

/-- `Deal`. Its providers are listed in the order of their assignment, and the slots are there in
Mode 2 only. -/
structure Deal where
  id : Nat
  manifestRoot : Bytes
  size : UInt64
  owner : Str
  escrowBalance : Int
  startBlock : UInt64
  endBlock : UInt64
  providers : List Str
  redundancyMode : UInt32
  currentReplication : UInt64
  serviceHint : Str
  maxMonthlySpend : Int
  totalMdus : UInt64
  spendWindowStartHeight : UInt64
  spendWindowSpent : Int
  mode2Profile : Option StripeReplicaProfile
  mode2Slots : List DealSlot
  currentGen : UInt64
  witnessMdus : UInt64
deriving DecidableEq

/-- `DealHeatState`: the counters of what a deal has served, and of the challenges that failed on
it. -/
structure DealHeatState where
  bytesServedTotal : UInt64
  failedChallengesTotal : UInt64
  lastUpdateHeight : Nat
  successfulRetrievalsTotal : UInt64
deriving DecidableEq

/-- `Provider`. The reputation goes up and down with the proofs that a provider makes or misses. -/
structure Provider where
  address : Str
  totalStorage : UInt64
  usedStorage : UInt64
  capabilities : Str
  status : Str
  reputationScore : Int
  endpoints : List Str
deriving DecidableEq

/-- `Proof`: the summary that the module stores for a liveness proof or for evidence. -/
structure Proof where
  id : Nat
  creator : Str
  commitment : String
  valid : Bool
  blockHeight : Nat
deriving DecidableEq

/-! ### Proofs, receipts and sessions -/

/-- `ChainedProof`: the three hops deal → MDU → blob → byte. -/
structure ChainedProof where
  mduIndex : UInt64
  mduRootFr : Bytes
  manifestOpening : Bytes
  blobCommitment : Bytes
  merklePath : List Bytes
  blobIndex : UInt32
  zValue : Bytes
  yValue : Bytes
  kzgOpeningProof : Bytes
deriving DecidableEq

/-- `RetrievalReceipt`: what the owner signs for one chunk that was served. The proof of the chunk
is under the signature too. -/
structure RetrievalReceipt where
  dealId : UInt64
  epochId : UInt64
  provider : Str
  bytesServed : UInt64
  proofDetails : ChainedProof
  userSignature : Bytes
  nonce : UInt64
  expiresAt : UInt64
  filePath : Str
  rangeStart : UInt64
  rangeLen : UInt64
deriving DecidableEq

/-- `DownloadSessionReceipt`: what the owner signs for a whole download. It commits to the chunks by
a Merkle root. -/
structure DownloadSessionReceipt where
  dealId : UInt64
  epochId : UInt64
  provider : Str
  filePath : Str
  totalBytes : UInt64
  chunkCount : UInt64
  chunkLeafRoot : Bytes
  userSignature : Bytes
  nonce : UInt64
  expiresAt : UInt64
deriving DecidableEq

/-- `SessionChunkProof`: one chunk of a download, with its path to the root that the owner
signed. -/
structure SessionChunkProof where
  rangeStart : UInt64
  rangeLen : UInt64
  proofDetails : ChainedProof
  leafIndex : UInt32
  merklePath : List Bytes
deriving DecidableEq

/-- `RetrievalSessionProof`: the signed receipt of a download together with its chunks. -/
structure RetrievalSessionProof where
  sessionReceipt : DownloadSessionReceipt
  chunks : List SessionChunkProof
deriving DecidableEq

/-- `RetrievalSessionStatus`. A session is completed when both the proof and the confirmation are
there, in either order. -/
inductive RetrievalSessionStatus where
  | unspecified
  | «open»
  | proofSubmitted
  | userConfirmed
  | completed
  | expired
  | canceled
deriving DecidableEq

/-- `RetrievalSession`: a run of blobs that one provider is to serve, with the fee that was locked
for it. -/
structure RetrievalSession where
  sessionId : Bytes
  dealId : UInt64
  owner : Str
  provider : Str
  manifestRoot : Bytes
  startMduIndex : UInt64
  startBlobIndex : UInt32
  blobCount : UInt64
  totalBytes : UInt64
  nonce : UInt64
  expiresAt : UInt64
  openedHeight : Nat
  updatedHeight : Nat
  status : RetrievalSessionStatus
  lockedFee : Int
deriving DecidableEq

end NilStore.Chain
