import NilStore.Chain.Types

/-!
# `NilStore.Chain.Msgs`: the messages of the `Msg` service

`proto/nilchain/nilchain/v1/tx.proto`, one record for each message and `Msg` for all of them.
-/

set_option autoImplicit false

namespace NilStore.Chain

open NilStore.Lib

/-- Replaces the module parameters. Only the authority may send it, which is the account of the
governance module. -/
structure MsgUpdateParams where
  authority : Str
  params : Params
deriving DecidableEq

/-- Registers the sender as a provider with its capabilities, its storage and its endpoints. -/
structure MsgRegisterProvider where
  creator : Str
  capabilities : Str
  totalStorage : UInt64
  endpoints : List Str
deriving DecidableEq

/-- Creates a deal: how long it lasts, its service hint and how much it may spend. -/
structure MsgCreateDeal where
  creator : Str
  durationBlocks : UInt64
  serviceHint : Str
  maxMonthlySpend : Option Int
  initialEscrowAmount : Option Int
deriving DecidableEq

/-- Replaces the content of a deal by the slab with the given manifest root. -/
structure MsgUpdateDealContent where
  creator : Str
  dealId : UInt64
  cid : Str
  size : UInt64
deriving DecidableEq

/-- The deal payload that an EVM account signs. The id of the chain is not part of the hash and is
checked apart. -/
structure EvmCreateDealIntent where
  creatorEvm : Str
  durationBlocks : UInt64
  serviceHint : Str
  initialEscrow : Option Int
  maxMonthlySpend : Option Int
  nonce : UInt64
  chainId : Str
deriving DecidableEq

/-- The content payload that an EVM account signs. The id of the chain is not part of the hash and
is checked apart. -/
structure EvmUpdateContentIntent where
  creatorEvm : Str
  dealId : UInt64
  cid : Str
  sizeBytes : UInt64
  nonce : UInt64
  chainId : Str
deriving DecidableEq

/-- A `CreateDeal` that an EVM key signed and anyone may relay. The sender pays nothing for the
deal. -/
structure MsgCreateDealFromEvm where
  sender : Str
  intent : Option EvmCreateDealIntent
  evmSignature : Bytes
deriving DecidableEq

/-- An `UpdateDealContent` that an EVM key signed and anyone may relay. The signer pays the
deposit. -/
structure MsgUpdateDealContentFromEvm where
  sender : Str
  intent : Option EvmUpdateContentIntent
  evmSignature : Bytes
deriving DecidableEq

/-- Opens a retrieval session for a run of blobs of a deal, to be served by one of its providers.
The nonce is counted for the owner, the deal and the provider. -/
structure MsgOpenRetrievalSession where
  creator : Str
  dealId : UInt64
  provider : Str
  manifestRoot : Bytes
  startMduIndex : UInt64
  startBlobIndex : UInt32
  blobCount : UInt64
  nonce : UInt64
  expiresAt : UInt64
deriving DecidableEq

/-- The owner confirms that a session was served. It completes the session when the provider has
proved it. -/
structure MsgConfirmRetrievalSession where
  creator : Str
  sessionId : Bytes
deriving DecidableEq

/-- The owner takes back an expired session that was not completed. Its locked fee goes back to the
deal. -/
structure MsgCancelRetrievalSession where
  creator : Str
  sessionId : Bytes
deriving DecidableEq

/-- The provider proves every blob of a session. It completes the session when the owner has
confirmed it. -/
structure MsgSubmitRetrievalSessionProof where
  creator : Str
  sessionId : Bytes
  proofs : List ChainedProof
deriving DecidableEq

/-- The `oneof proof_type` of `MsgProveLiveness`. A message that an arm points to may be
absent, and `unset` is a request without any arm. -/
inductive ProofType where
  | userReceipt (receipt : Option RetrievalReceipt)
  | systemProof (proof : Option ChainedProof)
  | userReceiptBatch (receipts : Option (List RetrievalReceipt))
  | sessionProof (proof : Option RetrievalSessionProof)
  | unset
deriving DecidableEq

/-- A provider's proof for a deal: a system proof, a user receipt, a batch of receipts or a
session. -/
structure MsgProveLiveness where
  creator : Str
  dealId : UInt64
  epochId : UInt64
  proofType : ProofType
deriving DecidableEq

/-- A provider reports that it is saturated, which may extend the deal by a stripe. -/
structure MsgSignalSaturation where
  creator : Str
  dealId : UInt64
deriving DecidableEq

/-- The owner names a replacement for the provider of a slot. The provider stays in the slot until
the repair is completed. -/
structure MsgStartSlotRepair where
  creator : Str
  dealId : UInt64
  slot : UInt32
  pendingProvider : Str
deriving DecidableEq

/-- The owner hands the slot over to the replacement. The provider that was replaced leaves the list
of the deal. -/
structure MsgCompleteSlotRepair where
  creator : Str
  dealId : UInt64
  slot : UInt32
deriving DecidableEq

/-- The sender adds to the escrow of a deal. An amount is a decimal text on the wire, so it may be
missing. -/
structure MsgAddCredit where
  creator : Str
  dealId : UInt64
  amount : Option Int
deriving DecidableEq

/-- A provider withdraws the rewards it has been credited. They are minted for it. -/
structure MsgWithdrawRewards where
  creator : Str
deriving DecidableEq

/-- A message of the service. There is one for each method of the message server. -/
inductive Msg where
  | updateParams (msg : MsgUpdateParams)
  | registerProvider (msg : MsgRegisterProvider)
  | createDeal (msg : MsgCreateDeal)
  | updateDealContent (msg : MsgUpdateDealContent)
  | createDealFromEvm (msg : MsgCreateDealFromEvm)
  | updateDealContentFromEvm (msg : MsgUpdateDealContentFromEvm)
  | openRetrievalSession (msg : MsgOpenRetrievalSession)
  | confirmRetrievalSession (msg : MsgConfirmRetrievalSession)
  | cancelRetrievalSession (msg : MsgCancelRetrievalSession)
  | submitRetrievalSessionProof (msg : MsgSubmitRetrievalSessionProof)
  | proveLiveness (msg : MsgProveLiveness)
  | signalSaturation (msg : MsgSignalSaturation)
  | startSlotRepair (msg : MsgStartSlotRepair)
  | completeSlotRepair (msg : MsgCompleteSlotRepair)
  | addCredit (msg : MsgAddCredit)
  | withdrawRewards (msg : MsgWithdrawRewards)
deriving DecidableEq

end NilStore.Chain
