import NilStore.Lib.TypedData

/-!
# `NilStore.Website.Eip712`: the intents of `eip712.ts`

The typed data that the browser has the wallet sign: one list of members and one builder for each
intent. A `number` of the browser is a natural number here, and `Number` of it is itself.
-/

set_option autoImplicit false

namespace NilStore.Website

open NilStore.Lib

/-- `EIP712DomainTypes`. All typed data share them. -/
def eip712DomainTypes : List TypedMember :=
  [⟨"name", "string"⟩, ⟨"version", "string"⟩, ⟨"chainId", "uint256"⟩,
    ⟨"verifyingContract", "address"⟩]

/-- The domain that every builder puts in, with `EIP712_DOMAIN_NAME`, `EIP712_DOMAIN_VERSION` and
`EIP712_VERIFYING_CONTRACT`. -/
def eip712Domain (chainId : Nat) : List (String × TypedValue) :=
  [("name", .text "NilStore".toList), ("version", .text "1".toList), ("chainId", .number chainId),
    ("verifyingContract", .text "0x0000000000000000000000000000000000000000".toList)]

/-- `CreateDealTypes`. The amounts are signed as texts. -/
def createDealTypes : List (String × List TypedMember) :=
  [("EIP712Domain", eip712DomainTypes),
    ("CreateDeal", [⟨"creator", "address"⟩, ⟨"duration", "uint64"⟩, ⟨"service_hint", "string"⟩,
      ⟨"initial_escrow", "string"⟩, ⟨"max_monthly_spend", "string"⟩, ⟨"nonce", "uint64"⟩])]

/-- `UpdateContentTypes`. The manifest root is signed as a text. -/
def updateContentTypes : List (String × List TypedMember) :=
  [("EIP712Domain", eip712DomainTypes),
    ("UpdateContent", [⟨"creator", "address"⟩, ⟨"deal_id", "uint64"⟩, ⟨"cid", "string"⟩,
      ⟨"size", "uint64"⟩, ⟨"nonce", "uint64"⟩])]

/-- `RetrievalReceiptTypes`. The proof enters by its hash. -/
def retrievalReceiptTypes : List (String × List TypedMember) :=
  [("EIP712Domain", eip712DomainTypes),
    ("RetrievalReceipt", [⟨"deal_id", "uint64"⟩, ⟨"epoch_id", "uint64"⟩, ⟨"provider", "string"⟩,
      ⟨"file_path", "string"⟩, ⟨"range_start", "uint64"⟩, ⟨"range_len", "uint64"⟩,
      ⟨"bytes_served", "uint64"⟩, ⟨"nonce", "uint64"⟩, ⟨"expires_at", "uint64"⟩,
      ⟨"proof_hash", "bytes32"⟩])]

/-- `DownloadSessionReceiptTypes`. The chunks enter by the root of their leaves. -/
def downloadSessionReceiptTypes : List (String × List TypedMember) :=
  [("EIP712Domain", eip712DomainTypes),
    ("DownloadSessionReceipt",
      [⟨"deal_id", "uint64"⟩, ⟨"epoch_id", "uint64"⟩, ⟨"provider", "string"⟩,
      ⟨"file_path", "string"⟩, ⟨"total_bytes", "uint64"⟩, ⟨"chunk_count", "uint64"⟩,
      ⟨"chunk_leaf_root", "bytes32"⟩, ⟨"nonce", "uint64"⟩, ⟨"expires_at", "uint64"⟩])]

/-- `RetrievalRequestTypes`. The request says nothing of a provider. -/
def retrievalRequestTypes : List (String × List TypedMember) :=
  [("EIP712Domain", eip712DomainTypes),
    ("RetrievalRequest", [⟨"deal_id", "uint64"⟩, ⟨"file_path", "string"⟩, ⟨"range_start", "uint64"⟩,
      ⟨"range_len", "uint64"⟩, ⟨"nonce", "uint64"⟩, ⟨"expires_at", "uint64"⟩])]

/-! ### The intents -/

/-- `CreateDealIntent`: what the wallet shows before a deal is created. -/
structure CreateDealIntent where
  creatorEvm : Str
  durationBlocks : Nat
  serviceHint : Str
  initialEscrow : Str
  maxMonthlySpend : Str
  nonce : Nat

/-- `UpdateContentIntent`: what the wallet shows before content is committed to a deal. -/
structure UpdateContentIntent where
  creatorEvm : Str
  dealId : Nat
  cid : Str
  sizeBytes : Nat
  nonce : Nat

/-- `RetrievalReceiptIntent`: the fields of a receipt, with the hash of its proof. -/
structure RetrievalReceiptIntent where
  dealId : Nat
  epochId : Nat
  provider : Str
  filePath : Str
  rangeStart : Nat
  rangeLen : Nat
  bytesServed : Nat
  nonce : Nat
  expiresAt : Nat
  proofHash : Str

/-- `DownloadSessionReceiptIntent`: the fields of a receipt for a whole download. -/
structure DownloadSessionReceiptIntent where
  dealId : Nat
  epochId : Nat
  provider : Str
  filePath : Str
  totalBytes : Nat
  chunkCount : Nat
  chunkLeafRoot : Str
  nonce : Nat
  expiresAt : Nat

/-- `RetrievalRequestIntent`: the fields of a request to the gateway. -/
structure RetrievalRequestIntent where
  dealId : Nat
  filePath : Str
  rangeStart : Nat
  rangeLen : Nat
  nonce : Nat
  expiresAt : Nat

/-! ### The builders -/

/-- `buildCreateDealTypedData`. The fields come in the order of the type. -/
def buildCreateDealTypedData (intent : CreateDealIntent) (chainId : Nat) : TypedData where
  types := createDealTypes
  primaryType := "CreateDeal"
  domain := eip712Domain chainId
  message :=
    [("creator", .text intent.creatorEvm), ("duration", .number intent.durationBlocks),
      ("service_hint", .text intent.serviceHint), ("initial_escrow", .text intent.initialEscrow),
      ("max_monthly_spend", .text intent.maxMonthlySpend), ("nonce", .number intent.nonce)]

/-- `buildUpdateContentTypedData`. The `cid` is the text of the manifest root. -/
def buildUpdateContentTypedData (intent : UpdateContentIntent) (chainId : Nat) : TypedData where
  types := updateContentTypes
  primaryType := "UpdateContent"
  domain := eip712Domain chainId
  message :=
    [("creator", .text intent.creatorEvm), ("deal_id", .number intent.dealId),
      ("cid", .text intent.cid),
      ("size", .number intent.sizeBytes), ("nonce", .number intent.nonce)]

/-- `buildRetrievalReceiptTypedData`. The values are those of the receipt, unchanged. -/
def buildRetrievalReceiptTypedData (intent : RetrievalReceiptIntent) (chainId : Nat) :
    TypedData where
  types := retrievalReceiptTypes
  primaryType := "RetrievalReceipt"
  domain := eip712Domain chainId
  message :=
    [("deal_id", .number intent.dealId), ("epoch_id", .number intent.epochId),
      ("provider", .text intent.provider), ("file_path", .text intent.filePath),
      ("range_start", .number intent.rangeStart), ("range_len", .number intent.rangeLen),
      ("bytes_served", .number intent.bytesServed), ("nonce", .number intent.nonce),
      ("expires_at", .number intent.expiresAt), ("proof_hash", .text intent.proofHash)]

/-- `buildDownloadSessionReceiptTypedData`. The values are those of the receipt, unchanged. -/
def buildDownloadSessionReceiptTypedData (intent : DownloadSessionReceiptIntent) (chainId : Nat) :
    TypedData where
  types := downloadSessionReceiptTypes
  primaryType := "DownloadSessionReceipt"
  domain := eip712Domain chainId
  message :=
    [("deal_id", .number intent.dealId), ("epoch_id", .number intent.epochId),
      ("provider", .text intent.provider), ("file_path", .text intent.filePath),
      ("total_bytes", .number intent.totalBytes), ("chunk_count", .number intent.chunkCount),
      ("chunk_leaf_root", .text intent.chunkLeafRoot), ("nonce", .number intent.nonce),
      ("expires_at", .number intent.expiresAt)]

/-- `buildRetrievalRequestTypedData`. The values are those of the request, unchanged. -/
def buildRetrievalRequestTypedData (intent : RetrievalRequestIntent) (chainId : Nat) :
    TypedData where
  types := retrievalRequestTypes
  primaryType := "RetrievalRequest"
  domain := eip712Domain chainId
  message :=
    [("deal_id", .number intent.dealId), ("file_path", .text intent.filePath),
      ("range_start", .number intent.rangeStart), ("range_len", .number intent.rangeLen),
      ("nonce", .number intent.nonce), ("expires_at", .number intent.expiresAt)]

end NilStore.Website
