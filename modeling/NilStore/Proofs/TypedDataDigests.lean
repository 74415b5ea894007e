import NilStore.Gateway.RetrievalRequest
import NilStore.Proofs.BridgeReplay
import NilStore.Website.Eip712

/-!
# `NilStore.Proofs.TypedDataDigests`: the wallet signs what the chain hashes

The browser lists the members of a typed-data object, and the wallet writes the type out from them.
The chain has the type written out by hand. `wallet_digest_eq` says that both come to one digest,
for each of the five messages and every chain id: the texts of the types are the same, the fields
come in the same order, and each value has the same word on both sides.
-/

set_option autoImplicit false

namespace NilStore.Website

open NilStore.Lib NilStore.Chain

/-! ### The same values -/

/-- A safe integer of the browser and the same number on the chain. -/
structure SameNumber (n : Nat) (x : UInt64) : Prop where
  safe : n ≤ 2 ^ 53 - 1
  eq : x.toNat = n

/-- A text of an address: a `0x` and 20 bytes in hex. -/
def IsAddressText (s : Str) : Prop := ∃ addr, hexBytes s = some addr ∧ addr.length = 20

/-- A text of these 32 bytes. -/
structure SameBytes32 (s : Str) (b : Bytes) : Prop where
  eq : hexBytes s = some b
  length : b.length = 32

/-- A canonical decimal text of the amount. -/
def SameAmount (s : Str) (amount : Option Int) : Prop := ∃ n, amount = some n ∧ s = decimal n

/-- The five intents of the browser. -/
inductive Intent where
  | createDeal (intent : CreateDealIntent)
  | updateContent (intent : UpdateContentIntent)
  | retrievalReceipt (intent : RetrievalReceiptIntent)
  | downloadSessionReceipt (intent : DownloadSessionReceiptIntent)
  | retrievalRequest (intent : RetrievalRequestIntent)

/-- The typed data that the browser builds. -/
def Intent.typedData (chainId : Nat) : Intent → TypedData
  | .createDeal intent => buildCreateDealTypedData intent chainId
  | .updateContent intent => buildUpdateContentTypedData intent chainId
  | .retrievalReceipt intent => buildRetrievalReceiptTypedData intent chainId
  | .downloadSessionReceipt intent => buildDownloadSessionReceiptTypedData intent chainId
  | .retrievalRequest intent => buildRetrievalRequestTypedData intent chainId

/-- What the chain and the gateway hash. -/
inductive SignedMessage where
  | createDeal (intent : EvmCreateDealIntent)
  | updateContent (intent : EvmUpdateContentIntent)
  | retrievalReceipt (receipt : RetrievalReceipt)
  | downloadSessionReceipt (receipt : DownloadSessionReceipt)
  | retrievalRequest (req : Gateway.RetrievalRequest)

/-- The struct hash of the message. -/
def SignedMessage.structHash (keccak256 : Bytes → Bytes) : SignedMessage → Bytes
  | .createDeal intent => hashCreateDeal keccak256 intent
  | .updateContent intent => hashUpdateContent keccak256 intent
  | .retrievalReceipt receipt => hashRetrievalReceiptV3 keccak256 receipt
  | .downloadSessionReceipt receipt => hashDownloadSessionReceipt keccak256 receipt
  | .retrievalRequest req => Gateway.hashRetrievalRequest keccak256 req

/-- The intent and the message have the same values. Each constructor pairs the fields of one kind
of intent with those of the message that the chain or the gateway hashes. -/
inductive SameValues (keccak256 : Bytes → Bytes) : Intent → SignedMessage → Prop where
  | createDeal {i : CreateDealIntent} {m : EvmCreateDealIntent}
      (isAddress : IsAddressText i.creatorEvm) (creator : i.creatorEvm = m.creatorEvm)
      (duration : SameNumber i.durationBlocks m.durationBlocks)
        (hint : i.serviceHint = m.serviceHint)
      (escrow : SameAmount i.initialEscrow m.initialEscrow)
      (spend : SameAmount i.maxMonthlySpend m.maxMonthlySpend)
        (nonce : SameNumber i.nonce m.nonce) :
      SameValues keccak256 (.createDeal i) (.createDeal m)
  | updateContent {i : UpdateContentIntent} {m : EvmUpdateContentIntent}
      (isAddress : IsAddressText i.creatorEvm) (creator : i.creatorEvm = m.creatorEvm)
      (dealId : SameNumber i.dealId m.dealId) (cid : i.cid = m.cid)
      (size : SameNumber i.sizeBytes m.sizeBytes) (nonce : SameNumber i.nonce m.nonce) :
      SameValues keccak256 (.updateContent i) (.updateContent m)
  | retrievalReceipt {i : RetrievalReceiptIntent} {m : RetrievalReceipt}
      (dealId : SameNumber i.dealId m.dealId) (epochId : SameNumber i.epochId m.epochId)
      (provider : i.provider = m.provider) (filePath : i.filePath = m.filePath)
      (rangeStart : SameNumber i.rangeStart m.rangeStart)
        (rangeLen : SameNumber i.rangeLen m.rangeLen)
      (bytesServed : SameNumber i.bytesServed m.bytesServed) (nonce : SameNumber i.nonce m.nonce)
      (expiresAt : SameNumber i.expiresAt m.expiresAt)
      (proofHash : SameBytes32 i.proofHash (hashChainedProof keccak256 m.proofDetails)) :
      SameValues keccak256 (.retrievalReceipt i) (.retrievalReceipt m)
  | downloadSessionReceipt {i : DownloadSessionReceiptIntent} {m : DownloadSessionReceipt}
      (dealId : SameNumber i.dealId m.dealId) (epochId : SameNumber i.epochId m.epochId)
      (provider : i.provider = m.provider) (filePath : i.filePath = m.filePath)
      (totalBytes : SameNumber i.totalBytes m.totalBytes)
        (chunkCount : SameNumber i.chunkCount m.chunkCount)
      (chunkLeafRoot : SameBytes32 i.chunkLeafRoot m.chunkLeafRoot)
        (nonce : SameNumber i.nonce m.nonce)
      (expiresAt : SameNumber i.expiresAt m.expiresAt) :
      SameValues keccak256 (.downloadSessionReceipt i) (.downloadSessionReceipt m)
  | retrievalRequest {i : RetrievalRequestIntent} {m : Gateway.RetrievalRequest}
      (dealId : SameNumber i.dealId m.dealId) (filePath : i.filePath = m.filePath)
      (rangeStart : SameNumber i.rangeStart m.rangeStart)
        (rangeLen : SameNumber i.rangeLen m.rangeLen)
      (nonce : SameNumber i.nonce m.nonce) (expiresAt : SameNumber i.expiresAt m.expiresAt) :
      SameValues keccak256 (.retrievalRequest i) (.retrievalRequest m)

/-! ### Words -/

section Words

variable {keccak256 : Bytes → Bytes}

/-- The wallet writes a safe integer as the chain does through `SetUint64`. -/
theorem encodeValue_setUint64 {n : Nat} {x : UInt64} (h : SameNumber n x) :
    encodeValue keccak256 "uint64" (.number n) = some (paddedBigBytes (setUint64 x)) := by
  have hx := x.toNat_lt
  rw [encodeValue_uint64 (by rw [← h.eq]; exact hx), paddedBigBytes, setUint64,
    Int.natAbs_natCast, h.eq]

/-- The same through `big.NewInt(int64(x))`, since the number is far below the sign. -/
theorem encodeValue_newInt64 {n : Nat} {x : UInt64} (h : SameNumber n x) :
    encodeValue keccak256 "uint64" (.number n) = some (paddedBigBytes (newInt64 x)) := by
  have hsmall : x.toNat ≤ 2 ^ 63 := by
    have hsafe := h.safe
    have heq := h.eq
    omega
  have hword : paddedBigBytes (newInt64 x) = paddedBigBytes (setUint64 x) :=
    (chainWord_eq_iff x).mpr hsmall
  rw [encodeValue_setUint64 h, hword]

/-- A hex digit is one byte. -/
theorem utf8Size_of_hexVal {c : Char} {v : Nat} (h : hexVal c = some v) : c.utf8Size = 1 := by
  have hle : c.val ≤ 127 := by
    rw [hexVal] at h
    have hchar : ∀ d : Char, c ≤ d → d.val ≤ 127 → c.val ≤ 127 := fun d hcd hd =>
      UInt32.le_trans hcd hd
    split at h
    · rename_i hdigit
      exact hchar '9' hdigit.2 (by decide)
    · split at h
      · rename_i hlower
        exact hchar 'f' hlower.2 (by decide)
      · split at h
        · rename_i hupper
          exact hchar 'F' hupper.2 (by decide)
        · cases h
  exact if_pos hle

/-- A text of hex pairs is read in the same way by both decoders, and has two bytes for each byte. A
hex digit is one byte of UTF-8. -/
theorem hex2Bytes_of_hexDecode {s : Str} {b : Bytes} (h : hexDecode s = some b) :
    hex2Bytes s = b ∧ (utf8 s).length = 2 * b.length := by
  -- by the pairs of the text
  induction s using hexDecode.induct generalizing b with
  | case1 =>
      cases h
      exact ⟨rfl, rfl⟩
  | case2 c => cases h
  | case3 hi lo rest ih =>
      rw [hexDecode] at h
      simp only [Option.bind_eq_bind, Option.bind_eq_some_iff] at h
      obtain ⟨x, hx, y, hy, tail, htail, hb⟩ := h
      cases hb
      obtain ⟨hbytes, hlength⟩ := ih htail
      have hfirst : ∀ {c : Char} {v : Nat}, hexVal c = some v →
          (String.utf8EncodeChar c).length = 1 := by
        intro c v hc
        rw [String.length_utf8EncodeChar, utf8Size_of_hexVal hc]
      refine ⟨?_, ?_⟩
      · rw [hex2Bytes, hx, hy, hbytes]
      · rw [utf8, List.flatMap_cons, List.flatMap_cons, List.length_append,
          List.length_append, hfirst hx, hfirst hy, ← utf8, hlength, List.length_cons]
        omega

/-- The wallet writes an address as the chain does. -/
theorem encodeValue_hexToAddress {s : Str} (h : IsAddressText s) :
    encodeValue keccak256 "address" (.text s) = some (pad32 (hexToAddress s)) := by
  obtain ⟨addr, hread, hlength⟩ := h
  have hprefix : hasPrefix s "0x".toList = true := by
    by_contra hnot
    rw [hexBytes, if_neg hnot] at hread
    cases hread
  have hdecode : hexDecode (s.drop 2) = some addr := by rwa [hexBytes, if_pos hprefix] at hread
  obtain ⟨hbytes, hcount⟩ := hex2Bytes_of_hexDecode hdecode
  have heven : ¬(utf8 (s.drop 2)).length % 2 = 1 := by omega
  have haddr : hexToAddress s = addr := by
    have hstrip : (if hasPrefix s "0x".toList ∨ hasPrefix s "0X".toList then s.drop 2 else s) =
        s.drop 2 :=
      if_pos (.inl hprefix)
    simp only [hexToAddress, fromHex, hstrip, if_neg heven, hbytes, bytesToWidth,
      hlength, Nat.sub_self, List.replicate_zero, List.nil_append, List.drop_zero]
  rw [encodeValue_address hread hlength, pad32, haddr, hlength]

/-- The wallet writes 32 bytes as the chain does. -/
theorem encodeValue_pad32 {s : Str} {b : Bytes} (h : SameBytes32 s b) :
    encodeValue keccak256 "bytes32" (.text s) = some (pad32 b) := by
  rw [encodeValue_bytes32 h.eq h.length, pad32, h.length, Nat.sub_self, List.replicate_zero,
    List.nil_append]

/-- An amount is the text that `math.Int` prints. -/
theorem intString_of_sameAmount {s : Str} {amount : Option Int} (h : SameAmount s amount) :
    intString amount = s := by
  obtain ⟨n, rfl, rfl⟩ := h
  rfl

end Words

/-! ### Structs -/

section Structs

variable {keccak256 : Bytes → Bytes}

/-- The domain of every intent. The chain writes the id of the chain as a `uint64` and the wallet as
a number of JavaScript. -/
theorem hashStruct_domain {types : List (String × List TypedMember)} {chainId : Nat}
    (htypes : types.lookup "EIP712Domain" = some eip712DomainTypes)
    (hchain : chainId ≤ 2 ^ 53 - 1) :
    hashStruct keccak256 types "EIP712Domain" (eip712Domain chainId) =
      some (hashDomainSeparator keccak256 (UInt64.ofNat chainId)) := by
  -- an exact number of JavaScript is far below 2^64
  have hid : (UInt64.ofNat chainId).toNat = chainId := by
    rw [UInt64.toNat_ofNat']
    omega
  -- the id, and the contract of zeros
  have hword : encodeValue keccak256 "uint256" (.number chainId) =
      some (paddedBigBytes (setUint64 (UInt64.ofNat chainId))) := by
    rw [encodeValue_uint256 (by omega), paddedBigBytes, setUint64, Int.natAbs_natCast, hid]
  have hcontract : encodeValue keccak256 "address"
      (.text "0x0000000000000000000000000000000000000000".toList) =
        some (pad32 (hexToAddress (List.replicate 40 '0'))) := by
    have haddr : hexToAddress "0x0000000000000000000000000000000000000000".toList =
        hexToAddress (List.replicate 40 '0') := by
      rw [String.toList_ofList]
      rfl
    rw [← haddr]
    exact encodeValue_hexToAddress ⟨List.replicate 20 0, by decide +kernel, rfl⟩
  have hdata : encodeData keccak256 (eip712Domain chainId) eip712DomainTypes = some _ :=
    encodeData_cons rfl (encodeValue_string _) (encodeData_cons rfl (encodeValue_string _)
      (encodeData_cons rfl hword (encodeData_cons rfl hcontract encodeData_nil)))
  have htype : encodeType "EIP712Domain" eip712DomainTypes =
      "EIP712Domain(string name,string version,uint256 chainId,address verifyingContract)".toList := by
    rw [encodeType, eip712DomainTypes]
    simp only [List.map_cons, List.map_nil]
    repeat rw [String.toList_ofList]
    rfl
  rw [hashStruct_eq htypes hdata, htype]
  simp only [hashDomainSeparator, domainPreimage, keccak256String, List.append_assoc,
    List.append_nil]

/-- The wallet's struct hash of a creation is the chain's. The fields are encoded one by one, in the
order of the type. -/
theorem hashStruct_createDeal {i : CreateDealIntent} {m : EvmCreateDealIntent} {chainId : Nat}
    (h : SameValues keccak256 (.createDeal i) (.createDeal m)) :
    hashStruct keccak256 createDealTypes "CreateDeal" (buildCreateDealTypedData i chainId).message =
      some (hashCreateDeal keccak256 m) := by
  cases h with
  | createDeal isAddress creator duration hint escrow spend nonce =>
      -- the data, field by field
      have hdata : encodeData keccak256 (buildCreateDealTypedData i chainId).message _ = some _ :=
        encodeData_cons (m := ⟨"creator", "address"⟩) rfl (encodeValue_hexToAddress isAddress)
          (encodeData_cons (m := ⟨"duration", "uint64"⟩) rfl (encodeValue_newInt64 duration)
            (encodeData_cons (m := ⟨"service_hint", "string"⟩) rfl (encodeValue_string _)
              (encodeData_cons (m := ⟨"initial_escrow", "string"⟩) rfl (encodeValue_string _)
                (encodeData_cons (m := ⟨"max_monthly_spend", "string"⟩) rfl (encodeValue_string _)
                  (encodeData_cons (m := ⟨"nonce", "uint64"⟩) rfl (encodeValue_newInt64 nonce)
                    encodeData_nil)))))
      rw [hashStruct_eq rfl hdata]
      have htype : encodeType "CreateDeal" [⟨"creator", "address"⟩, ⟨"duration", "uint64"⟩,
          ⟨"service_hint", "string"⟩, ⟨"initial_escrow", "string"⟩, ⟨"max_monthly_spend", "string"⟩,
          ⟨"nonce", "uint64"⟩] =
          ("CreateDeal(address creator,uint64 duration,string service_hint,string initial_escrow," ++
            "string max_monthly_spend,uint64 nonce)").toList := by
        rw [encodeType, String.toList_append]
        simp only [List.map_cons, List.map_nil]
        repeat rw [String.toList_ofList]
        rfl
      rw [htype]
      simp only [hashCreateDeal, createDealPreimage, createDealTypeHash, keccak256String,
        List.append_assoc, List.append_nil, ← creator, ← hint, intString_of_sameAmount escrow,
        intString_of_sameAmount spend]

/-- The wallet's struct hash of a content update is the chain's. It has no amounts, so the numbers
and texts are all. -/
theorem hashStruct_updateContent {i : UpdateContentIntent} {m : EvmUpdateContentIntent}
    {chainId : Nat} (h : SameValues keccak256 (.updateContent i) (.updateContent m)) :
    hashStruct keccak256 updateContentTypes "UpdateContent"
      (buildUpdateContentTypedData i chainId).message =
      some (hashUpdateContent keccak256 m) := by
  cases h with
  | updateContent isAddress creator dealId cid size nonce =>
      -- the data, field by field
      have hdata : encodeData keccak256 (buildUpdateContentTypedData i chainId).message _ =
          some _ :=
        encodeData_cons (m := ⟨"creator", "address"⟩) rfl (encodeValue_hexToAddress isAddress)
          (encodeData_cons (m := ⟨"deal_id", "uint64"⟩) rfl (encodeValue_newInt64 dealId)
            (encodeData_cons (m := ⟨"cid", "string"⟩) rfl (encodeValue_string _)
              (encodeData_cons (m := ⟨"size", "uint64"⟩) rfl (encodeValue_newInt64 size)
                (encodeData_cons (m := ⟨"nonce", "uint64"⟩) rfl (encodeValue_newInt64 nonce)
                  encodeData_nil))))
      rw [hashStruct_eq rfl hdata]
      have htype : encodeType "UpdateContent" [⟨"creator", "address"⟩, ⟨"deal_id", "uint64"⟩,
          ⟨"cid", "string"⟩, ⟨"size", "uint64"⟩, ⟨"nonce", "uint64"⟩] =
          "UpdateContent(address creator,uint64 deal_id,string cid,uint64 size,uint64 nonce)".toList := by
        rw [encodeType]
        simp only [List.map_cons, List.map_nil]
        repeat rw [String.toList_ofList]
        rfl
      rw [htype]
      simp only [hashUpdateContent, updateContentPreimage, updateContentTypeHash, keccak256String,
        List.append_assoc, List.append_nil, ← creator, ← cid]

/-- The wallet's struct hash of a receipt is the chain's. The hash of the proof is carried as hex
and read back. -/
theorem hashStruct_retrievalReceipt {i : RetrievalReceiptIntent} {m : RetrievalReceipt}
    {chainId : Nat} (h : SameValues keccak256 (.retrievalReceipt i) (.retrievalReceipt m)) :
    hashStruct keccak256 retrievalReceiptTypes "RetrievalReceipt"
        (buildRetrievalReceiptTypedData i chainId).message =
      some (hashRetrievalReceiptV3 keccak256 m) := by
  cases h with
  | retrievalReceipt dealId epochId provider filePath rangeStart rangeLen bytesServed
      nonce expiresAt
      proofHash =>
      -- the data, field by field
      have hdata : encodeData keccak256 (buildRetrievalReceiptTypedData i chainId).message _ =
          some _ :=
        encodeData_cons (m := ⟨"deal_id", "uint64"⟩) rfl (encodeValue_setUint64 dealId)
          (encodeData_cons (m := ⟨"epoch_id", "uint64"⟩) rfl (encodeValue_setUint64 epochId)
            (encodeData_cons (m := ⟨"provider", "string"⟩) rfl (encodeValue_string _)
              (encodeData_cons (m := ⟨"file_path", "string"⟩) rfl (encodeValue_string _)
                (encodeData_cons (m := ⟨"range_start", "uint64"⟩) rfl
                  (encodeValue_setUint64 rangeStart)
                  (encodeData_cons (m := ⟨"range_len", "uint64"⟩) rfl
                    (encodeValue_setUint64 rangeLen)
                    (encodeData_cons (m := ⟨"bytes_served", "uint64"⟩) rfl
                      (encodeValue_setUint64 bytesServed)
                      (encodeData_cons (m := ⟨"nonce", "uint64"⟩) rfl (encodeValue_setUint64 nonce)
                        (encodeData_cons (m := ⟨"expires_at", "uint64"⟩) rfl
                          (encodeValue_setUint64 expiresAt)
                          (encodeData_cons (m := ⟨"proof_hash", "bytes32"⟩) rfl
                            (encodeValue_pad32 proofHash)
                            encodeData_nil)))))))))
      rw [hashStruct_eq rfl hdata]
      have htype : encodeType "RetrievalReceipt" [⟨"deal_id", "uint64"⟩, ⟨"epoch_id", "uint64"⟩,
          ⟨"provider", "string"⟩, ⟨"file_path", "string"⟩, ⟨"range_start", "uint64"⟩,
          ⟨"range_len", "uint64"⟩, ⟨"bytes_served", "uint64"⟩, ⟨"nonce", "uint64"⟩,
          ⟨"expires_at", "uint64"⟩, ⟨"proof_hash", "bytes32"⟩] =
          ("RetrievalReceipt(uint64 deal_id,uint64 epoch_id,string provider,string file_path," ++
            "uint64 range_start,uint64 range_len,uint64 bytes_served,uint64 nonce," ++
            "uint64 expires_at,bytes32 proof_hash)").toList := by
        rw [encodeType, String.toList_append, String.toList_append]
        simp only [List.map_cons, List.map_nil]
        repeat rw [String.toList_ofList]
        rfl
      rw [htype]
      simp only [hashRetrievalReceiptV3, keccak256String, List.append_assoc,
        List.append_nil, ← provider, ← filePath]

/-- The wallet's struct hash of a session receipt is the chain's. The root of the leaves has 32
bytes. -/
theorem hashStruct_downloadSessionReceipt {i : DownloadSessionReceiptIntent}
    {m : DownloadSessionReceipt}
    {chainId : Nat}
    (h : SameValues keccak256 (.downloadSessionReceipt i) (.downloadSessionReceipt m)) :
    hashStruct keccak256 downloadSessionReceiptTypes "DownloadSessionReceipt"
        (buildDownloadSessionReceiptTypedData i chainId).message =
      some (hashDownloadSessionReceipt keccak256 m) := by
  cases h with
  | downloadSessionReceipt dealId epochId provider filePath totalBytes chunkCount
      chunkLeafRoot nonce
      expiresAt =>
      -- the data, field by field
      have hdata : encodeData keccak256 (buildDownloadSessionReceiptTypedData i chainId).message _ =
          some _ :=
        encodeData_cons (m := ⟨"deal_id", "uint64"⟩) rfl (encodeValue_setUint64 dealId)
          (encodeData_cons (m := ⟨"epoch_id", "uint64"⟩) rfl (encodeValue_setUint64 epochId)
            (encodeData_cons (m := ⟨"provider", "string"⟩) rfl (encodeValue_string _)
              (encodeData_cons (m := ⟨"file_path", "string"⟩) rfl (encodeValue_string _)
                (encodeData_cons (m := ⟨"total_bytes", "uint64"⟩) rfl
                  (encodeValue_setUint64 totalBytes)
                  (encodeData_cons (m := ⟨"chunk_count", "uint64"⟩) rfl
                    (encodeValue_setUint64 chunkCount)
                    (encodeData_cons (m := ⟨"chunk_leaf_root", "bytes32"⟩) rfl
                      (encodeValue_pad32 chunkLeafRoot)
                      (encodeData_cons (m := ⟨"nonce", "uint64"⟩) rfl (encodeValue_setUint64 nonce)
                        (encodeData_cons (m := ⟨"expires_at", "uint64"⟩) rfl
                          (encodeValue_setUint64 expiresAt)
                          encodeData_nil))))))))
      rw [hashStruct_eq rfl hdata]
      have htype : encodeType "DownloadSessionReceipt" [⟨"deal_id", "uint64"⟩,
          ⟨"epoch_id", "uint64"⟩,
          ⟨"provider", "string"⟩, ⟨"file_path", "string"⟩, ⟨"total_bytes", "uint64"⟩,
          ⟨"chunk_count", "uint64"⟩, ⟨"chunk_leaf_root", "bytes32"⟩, ⟨"nonce", "uint64"⟩,
          ⟨"expires_at", "uint64"⟩] =
          ("DownloadSessionReceipt(uint64 deal_id,uint64 epoch_id,string provider," ++
            "string file_path,uint64 total_bytes,uint64 chunk_count,bytes32 chunk_leaf_root," ++
            "uint64 nonce,uint64 expires_at)").toList := by
        rw [encodeType, String.toList_append, String.toList_append]
        simp only [List.map_cons, List.map_nil]
        repeat rw [String.toList_ofList]
        rfl
      -- The chain hashes a root of another length to zero.
      have hroot : ¬m.chunkLeafRoot.length ≠ 32 := not_not.mpr chunkLeafRoot.length
      rw [htype, hashDownloadSessionReceipt, if_neg hroot]
      simp only [keccak256String, List.append_assoc, List.append_nil, ← provider, ← filePath]

/-- The wallet's struct hash of a request is the gateway's. The chain does not see this message. -/
theorem hashStruct_retrievalRequest {i : RetrievalRequestIntent} {m : Gateway.RetrievalRequest}
    {chainId : Nat} (h : SameValues keccak256 (.retrievalRequest i) (.retrievalRequest m)) :
    hashStruct keccak256 retrievalRequestTypes "RetrievalRequest"
        (buildRetrievalRequestTypedData i chainId).message =
      some (Gateway.hashRetrievalRequest keccak256 m) := by
  cases h with
  | retrievalRequest dealId filePath rangeStart rangeLen nonce expiresAt =>
      -- the data, field by field
      have hdata : encodeData keccak256 (buildRetrievalRequestTypedData i chainId).message _ =
          some _ :=
        encodeData_cons (m := ⟨"deal_id", "uint64"⟩) rfl (encodeValue_setUint64 dealId)
          (encodeData_cons (m := ⟨"file_path", "string"⟩) rfl (encodeValue_string _)
            (encodeData_cons (m := ⟨"range_start", "uint64"⟩) rfl (encodeValue_setUint64 rangeStart)
              (encodeData_cons (m := ⟨"range_len", "uint64"⟩) rfl (encodeValue_setUint64 rangeLen)
                (encodeData_cons (m := ⟨"nonce", "uint64"⟩) rfl (encodeValue_setUint64 nonce)
                  (encodeData_cons (m := ⟨"expires_at", "uint64"⟩) rfl
                    (encodeValue_setUint64 expiresAt)
                    encodeData_nil)))))
      rw [hashStruct_eq rfl hdata]
      have htype : encodeType "RetrievalRequest" [⟨"deal_id", "uint64"⟩, ⟨"file_path", "string"⟩,
          ⟨"range_start", "uint64"⟩, ⟨"range_len", "uint64"⟩, ⟨"nonce", "uint64"⟩,
          ⟨"expires_at", "uint64"⟩] =
          ("RetrievalRequest(uint64 deal_id,string file_path,uint64 range_start,uint64 range_len," ++
            "uint64 nonce,uint64 expires_at)").toList := by
        rw [encodeType, String.toList_append]
        simp only [List.map_cons, List.map_nil]
        repeat rw [String.toList_ofList]
        rfl
      rw [htype]
      simp only [Gateway.hashRetrievalRequest, Gateway.retrievalRequestPreimage, keccak256String,
        List.append_assoc, List.append_nil, ← filePath]

end Structs

/-! ### The digest -/

/-- The struct hash of the wallet is that of the chain. -/
theorem hashStruct_message {keccak256 : Bytes → Bytes} {intent : Intent} {m : SignedMessage}
    {chainId : Nat} (h : SameValues keccak256 intent m) :
    hashStruct keccak256 (intent.typedData chainId).types (intent.typedData chainId).primaryType
        (intent.typedData chainId).message =
      some (m.structHash keccak256) := by
  cases h with
  | createDeal a b c d e f g => exact hashStruct_createDeal (.createDeal a b c d e f g)
  | updateContent a b c d e f => exact hashStruct_updateContent (.updateContent a b c d e f)
  | retrievalReceipt a b c d e f g i j k =>
      exact hashStruct_retrievalReceipt (.retrievalReceipt a b c d e f g i j k)
  | downloadSessionReceipt a b c d e f g i j =>
      exact hashStruct_downloadSessionReceipt (.downloadSessionReceipt a b c d e f g i j)
  | retrievalRequest a b c d e f =>
    exact hashStruct_retrievalRequest (.retrievalRequest a b c d e f)

/-- Every type list opens with the domain, and every builder puts the same domain in. -/
theorem hashStruct_typedData_domain {keccak256 : Bytes → Bytes} (intent : Intent) {chainId : Nat}
    (hchain : chainId ≤ 2 ^ 53 - 1) :
    hashStruct keccak256 (intent.typedData chainId).types "EIP712Domain"
      (intent.typedData chainId).domain =
      some (hashDomainSeparator keccak256 (UInt64.ofNat chainId)) := by
  cases intent <;> exact hashStruct_domain rfl hchain

/-- The digest that a wallet signs is the digest that the chain and the gateway recover the signer
from. The wallet builds it from typed data, by name, and they build it by concatenation; a chain id
beyond `2 ^ 53 - 1` is not an exact number in the browser. -/
theorem wallet_digest_eq (keccak256 : Bytes → Bytes) (chainId : Nat)
    (hchain : 0 < chainId ∧ chainId ≤ 2 ^ 53 - 1) {intent : Intent} {m : SignedMessage}
    (h : SameValues keccak256 intent m) :
    (intent.typedData chainId).digest keccak256 =
      some (computeEIP712Digest keccak256 (hashDomainSeparator keccak256 (UInt64.ofNat chainId))
        (m.structHash keccak256)) := by
  rw [TypedData.digest_eq (hashStruct_typedData_domain intent hchain.2) (hashStruct_message h)]
  rfl

/-- The creator of the sample intents. -/
def sampleCreator : Str := "0x00000000000000000000000000000000000000aB".toList

/-- A root of 32 bytes, as text. -/
def sampleRoot : Str := "0x".toList ++ List.replicate 64 'c'

/-- One message of each kind. A creation has an address and amounts, and a session receipt has a
root. -/
theorem wallet_digest_eq_samples :
    (Intent.typedData 31337
        (.createDeal ⟨sampleCreator, 100, "General".toList, "1000".toList, "0".toList, 7⟩)).digest
        (fun b => beBytes 32 b.length) =
      some (computeEIP712Digest (fun b => beBytes 32 b.length)
        (hashDomainSeparator (fun b => beBytes 32 b.length) (UInt64.ofNat 31337))
        ((SignedMessage.createDeal ⟨sampleCreator, 100, "General".toList, some 1000, some 0, 7,
          []⟩).structHash
          fun b => beBytes 32 b.length)) ∧
    (Intent.typedData 31337 (.downloadSessionReceipt
        ⟨3, 1, "nil1p".toList, "a.txt".toList, 126976, 1, sampleRoot, 2, 500⟩)).digest
        (fun b => beBytes 32 b.length) =
      some (computeEIP712Digest (fun b => beBytes 32 b.length)
        (hashDomainSeparator (fun b => beBytes 32 b.length) (UInt64.ofNat 31337))
        ((SignedMessage.downloadSessionReceipt
          ⟨3, 1, "nil1p".toList, "a.txt".toList, 126976, 1, List.replicate 32 0xcc, [], 2,
            500⟩).structHash
          fun b => beBytes 32 b.length)) :=
  ⟨wallet_digest_eq _ 31337 (by decide)
      (.createDeal ⟨_, rfl, by decide +kernel⟩ rfl ⟨by decide, by decide⟩ rfl ⟨1000,
        rfl, by decide +kernel⟩
        ⟨0, rfl, by decide +kernel⟩ ⟨by decide, by decide⟩),
    wallet_digest_eq _ 31337 (by decide)
      (.downloadSessionReceipt ⟨by decide, by decide⟩ ⟨by decide, by decide⟩ rfl rfl
        ⟨by decide, by decide⟩
        ⟨by decide, by decide⟩ ⟨by decide +kernel, by decide⟩ ⟨by decide, by decide⟩
        ⟨by decide, by decide⟩)⟩

end NilStore.Website
