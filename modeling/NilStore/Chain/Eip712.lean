import NilStore.Chain.Msgs

/-!
# `NilStore.Chain.Eip712`: typed hashes and digests

`types/eip712.go`, `types/retrieval_session_id.go` and `types/session_merkle.go`. The
functions take the hash as a parameter. Each names its preimage: `createDealPreimage` is the
byte string that `HashCreateDeal` hashes.

`uint64` fields reach the preimage in two ways. The receipts use `SetUint64`; the two bridge
intents go through `big.NewInt(int64(x))`, and `PaddedBigBytes` then writes the magnitude.
-/

set_option autoImplicit false

namespace NilStore.Chain

open NilStore.Lib

/-! ### Encodings -/

/-- `math.PaddedBigBytes(n, 32)`: the magnitude, big-endian. The sign is lost, and what does not fit
into 32 bytes is cut. -/
def paddedBigBytes (n : Int) : Bytes := beBytes 32 n.natAbs

/-- `pad32`. Zeros are put on the left, and a longer value stays as it is. -/
def pad32 (b : Bytes) : Bytes := List.replicate (32 - b.length) 0 ++ b

/-- `new(big.Int).SetUint64(x)`. The value is kept as it is. -/
def setUint64 (x : UInt64) : Int := x.toNat

/-- `big.NewInt(int64(x))`. From `2 ^ 63` on the value is negative. -/
def newInt64 (x : UInt64) : Int := x.toInt64.toInt

/-- `math.Int.String`, which prints `<nil>` for a nil integer. -/
def intString : Option Int → Str
  | none => "<nil>".toList
  | some n => decimal n

/-- `hex.DecodeString` with its error dropped: the bytes before the first bad pair. -/
def hex2Bytes : Str → Bytes
  | hi :: lo :: rest =>
      match hexVal hi, hexVal lo with
      | some h, some l => UInt8.ofNat (h * 16 + l) :: hex2Bytes rest
      | _, _ => []
  | _ => []

/-- `common.FromHex`. The prefix is cut in either case, and an odd number of digits gets a zero in
front. -/
def fromHex (s : Str) : Bytes :=
  let s := if hasPrefix s "0x".toList ∨ hasPrefix s "0X".toList then s.drop 2 else s
  hex2Bytes (if (utf8 s).length % 2 = 1 then '0' :: s else s)

/-- `common.BytesToAddress` and `common.BytesToHash`: crop from the left, or pad. -/
def bytesToWidth (w : Nat) (b : Bytes) : Bytes :=
  List.replicate (w - b.length) 0 ++ b.drop (b.length - w)

/-- `common.HexToAddress`. A text that is no hex gives the bytes before its first bad pair, so no
error is seen. -/
def hexToAddress (s : Str) : Bytes := bytesToWidth 20 (fromHex s)

/-- The text of an address that `strings.ToLower(addr.Hex())` gives. It has no checksum in its
case. -/
def lowerHex (addr : Bytes) : Str := "0x".toList ++ hexEncode addr

/-! ### Structs -/

section

variable (keccak256 : Bytes → Bytes)

/-- `keccak256String`. The text is hashed as its UTF-8 bytes. -/
def keccak256String (s : String) : Bytes := keccak256 (utf8 s.toList)

/-- The preimage of `HashDomainSeparator`. Name and version are those of the chain, and the
verifying contract is the zero address. -/
def domainPreimage (chainId : UInt64) : Bytes :=
  keccak256String keccak256
      "EIP712Domain(string name,string version,uint256 chainId,address verifyingContract)" ++
    keccak256String keccak256 "NilStore" ++ keccak256String keccak256 "1" ++
    paddedBigBytes (setUint64 chainId) ++ pad32 (hexToAddress (List.replicate 40 '0'))

/-- `HashDomainSeparator`. Only the id of the chain is not fixed. -/
def hashDomainSeparator (chainId : UInt64) : Bytes := keccak256 (domainPreimage keccak256 chainId)

/-- `CreateDealTypeHash`. The text names the fields in the order in which they are encoded. -/
def createDealTypeHash : Bytes :=
  keccak256String keccak256
    ("CreateDeal(address creator,uint64 duration,string service_hint,string initial_escrow," ++
      "string max_monthly_spend,uint64 nonce)")

/-- `UpdateContentTypeHash`. The text names the fields in the order in which they are encoded. -/
def updateContentTypeHash : Bytes :=
  keccak256String keccak256
    "UpdateContent(address creator,uint64 deal_id,string cid,uint64 size,uint64 nonce)"

/-- The preimage of `HashCreateDeal`. Texts are hashed, amounts are hashed as their decimal texts,
and numbers go through `int64`. -/
def createDealPreimage (intent : EvmCreateDealIntent) : Bytes :=
  createDealTypeHash keccak256 ++ pad32 (hexToAddress intent.creatorEvm) ++
    paddedBigBytes (newInt64 intent.durationBlocks) ++ keccak256 (utf8 intent.serviceHint) ++
    keccak256 (utf8 (intString intent.initialEscrow)) ++
    keccak256 (utf8 (intString intent.maxMonthlySpend)) ++ paddedBigBytes (newInt64 intent.nonce)

/-- `HashCreateDeal`. The id of the chain in the intent is not part of it. -/
def hashCreateDeal (intent : EvmCreateDealIntent) : Bytes :=
  keccak256 (createDealPreimage keccak256 intent)

/-- The preimage of `HashUpdateContent`. The content id is hashed as the text that was sent. -/
def updateContentPreimage (intent : EvmUpdateContentIntent) : Bytes :=
  updateContentTypeHash keccak256 ++ pad32 (hexToAddress intent.creatorEvm) ++
    paddedBigBytes (newInt64 intent.dealId) ++ keccak256 (utf8 intent.cid) ++
    paddedBigBytes (newInt64 intent.sizeBytes) ++ paddedBigBytes (newInt64 intent.nonce)

/-- `HashUpdateContent`. The id of the chain in the intent is not part of it. -/
def hashUpdateContent (intent : EvmUpdateContentIntent) : Bytes :=
  keccak256 (updateContentPreimage keccak256 intent)

/-- The preimage of `ComputeEIP712Digest`. The two leading bytes are those of the standard. -/
def digestPreimage (domainSep structHash : Bytes) : Bytes := [0x19, 0x01] ++ domainSep ++ structHash

/-- `ComputeEIP712Digest`. Wallets sign this digest. -/
def computeEIP712Digest (domainSep structHash : Bytes) : Bytes :=
  keccak256 (digestPreimage domainSep structHash)

/-- The zero `common.Hash`. The hash functions answer it where their input has a wrong length. -/
def zeroHash : Bytes := List.replicate 32 0

/-- `HashChainedProof`; a proof with a field of a wrong length hashes to zero. -/
def hashChainedProof (proof : ChainedProof) : Bytes :=
  if proof.mduRootFr.length ≠ 32 ∨ proof.manifestOpening.length ≠ 48 ∨
      proof.blobCommitment.length ≠ 48 ∨ proof.zValue.length ≠ 32 ∨ proof.yValue.length ≠ 32 ∨
      proof.kzgOpeningProof.length ≠ 48 then zeroHash
  else if proof.merklePath.any (·.length ≠ 32) then zeroHash
  else
    keccak256 (uint64ToBigEndian proof.mduIndex ++ proof.mduRootFr ++ proof.manifestOpening ++
      proof.blobCommitment ++ putUint32 (UInt32.ofNat proof.merklePath.length) ++
      proof.merklePath.flatten ++ putUint32 proof.blobIndex ++ proof.zValue ++ proof.yValue ++
      proof.kzgOpeningProof)

/-- `HashRetrievalReceiptV3`. The proof enters through its own hash. -/
def hashRetrievalReceiptV3 (receipt : RetrievalReceipt) : Bytes :=
  keccak256 (keccak256String keccak256
      ("RetrievalReceipt(uint64 deal_id,uint64 epoch_id,string provider,string file_path," ++
        "uint64 range_start,uint64 range_len,uint64 bytes_served,uint64 nonce," ++
        "uint64 expires_at,bytes32 proof_hash)") ++
    paddedBigBytes (setUint64 receipt.dealId) ++ paddedBigBytes (setUint64 receipt.epochId) ++
    keccak256 (utf8 receipt.provider) ++ keccak256 (utf8 receipt.filePath) ++
    paddedBigBytes (setUint64 receipt.rangeStart) ++ paddedBigBytes (setUint64 receipt.rangeLen) ++
    paddedBigBytes (setUint64 receipt.bytesServed) ++ paddedBigBytes (setUint64 receipt.nonce) ++
    paddedBigBytes (setUint64 receipt.expiresAt) ++
    pad32 (hashChainedProof keccak256 receipt.proofDetails))

/-- `HashDownloadSessionReceipt`. A root of a wrong length makes the whole hash zero. -/
def hashDownloadSessionReceipt (receipt : DownloadSessionReceipt) : Bytes :=
  if receipt.chunkLeafRoot.length ≠ 32 then zeroHash
  else
    keccak256 (keccak256String keccak256
        ("DownloadSessionReceipt(uint64 deal_id,uint64 epoch_id,string provider," ++
          "string file_path,uint64 total_bytes,uint64 chunk_count,bytes32 chunk_leaf_root," ++
          "uint64 nonce,uint64 expires_at)") ++
      paddedBigBytes (setUint64 receipt.dealId) ++ paddedBigBytes (setUint64 receipt.epochId) ++
      keccak256 (utf8 receipt.provider) ++ keccak256 (utf8 receipt.filePath) ++
      paddedBigBytes (setUint64 receipt.totalBytes) ++
      paddedBigBytes (setUint64 receipt.chunkCount) ++ pad32 receipt.chunkLeafRoot ++
      paddedBigBytes (setUint64 receipt.nonce) ++ paddedBigBytes (setUint64 receipt.expiresAt))

/-! ### Session leaves and session ids -/

/-- `HashSessionLeaf`. The range and the hash of the proof are put together without padding. -/
def hashSessionLeaf (rangeStart rangeLen : UInt64) (proofHash : Bytes) : Bytes :=
  keccak256 (uint64ToBigEndian rangeStart ++ uint64ToBigEndian rangeLen ++ proofHash)

/-- `VerifyKeccakMerklePath`. The index chooses the side of each sibling, and bits above the path
are not looked at. -/
def verifyKeccakMerklePath (root : Bytes) : (leaf : Bytes) → (leafIndex : UInt32) →
    (merklePath : List Bytes) → Bool
  | h, _, [] => bytesToWidth 32 h == root
  | h, idx, sib :: rest =>
      if sib.length ≠ 32 then false
      else
        verifyKeccakMerklePath root
          (if idx % 2 = 0 then keccak256 (h ++ sib) else keccak256 (sib ++ h)) (idx / 2) rest

/-- The preimage of a session id: fields of fixed width, one after the other. -/
def sessionIdPreimage (owner20 : Bytes) (dealId : UInt64) (provider20 manifestRoot48 : Bytes)
    (startMduIndex : UInt64) (startBlobIndex : UInt32) (blobCount nonce expiresAt : UInt64) :
    Bytes :=
  owner20 ++ uint64ToBigEndian dealId ++ provider20 ++ manifestRoot48 ++
    uint64ToBigEndian startMduIndex ++ putUint32 startBlobIndex ++ uint64ToBigEndian blobCount ++
    uint64ToBigEndian nonce ++ uint64ToBigEndian expiresAt

/-- `HashRetrievalSessionID`. The three lengths are checked first, so the fields of the preimage
stay apart. -/
def hashRetrievalSessionID (owner20 : Bytes) (dealId : UInt64) (provider20 manifestRoot48 : Bytes)
    (startMduIndex : UInt64) (startBlobIndex : UInt32) (blobCount nonce expiresAt : UInt64) :
    Except String Bytes := do
  if owner20.length ≠ 20 then throw "owner must be 20 bytes"
  if provider20.length ≠ 20 then throw "provider must be 20 bytes"
  if manifestRoot48.length ≠ 48 then throw "manifest_root must be 48 bytes"
  return keccak256 (sessionIdPreimage owner20 dealId provider20 manifestRoot48 startMduIndex
    startBlobIndex blobCount nonce expiresAt)

end

end NilStore.Chain
