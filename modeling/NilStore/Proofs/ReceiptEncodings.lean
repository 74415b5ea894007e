import NilStore.Lib.Chunks
import NilStore.Gateway.RetrievalRequest
import NilStore.Chain.Ledger

/-!
# `NilStore.Proofs.ReceiptEncodings`: what a typed hash determines

A receipt, a session receipt and a request are hashed as a list of words of 32 bytes, eleven, ten
and seven of them. A string goes in by its hash, and a receipt's proof by `HashChainedProof`, whose
preimage has fields of fixed widths around a path of any length. So the length of a preimage tells
the number of words, or the number of nodes, and then each field is found again.

`HashChainedProof` has no type string. The preimage of a proof with three nodes is as long as that
of a receipt, and the only bytes of it that are fixed, the number of nodes, fall on the hash of the
receipt's path. `value_determines` says what equal values have in common, and that there is no other
way for two kinds of value to meet.
-/

set_option autoImplicit false

namespace NilStore.Chain

open NilStore.Lib NilStore.Gateway

/-! ### Words -/

/-- Words of one width are found again in their concatenation. -/
theorem words_inj {w : Nat} (hw : 0 < w) {words words' : List Bytes}
    (h : ∀ word ∈ words, word.length = w) (h' : ∀ word ∈ words', word.length = w)
    (heq : words.flatten = words'.flatten) : words = words' := by
  rw [← toChunks_flatten hw h, heq, toChunks_flatten hw h']

/-- The word of a `uint64`. -/
def uint64Word (x : UInt64) : Bytes := paddedBigBytes (setUint64 x)

/-- A 64-bit number takes one word of the digest. -/
theorem length_uint64Word (x : UInt64) : (uint64Word x).length = 32 := length_beBytes 32 _

/-- Different numbers have different words. -/
theorem uint64Word_inj {x y : UInt64} : uint64Word x = uint64Word y ↔ x = y := by
  constructor
  · intro h
    have hx := x.toNat_lt
    have hy := y.toNat_lt
    exact UInt64.toNat_inj.mp (beBytes_inj (by omega) (by omega) h)
  · rintro rfl
    rfl

/-- A full word is not padded. -/
theorem pad32_of_length {b : Bytes} (h : b.length = 32) : pad32 b = b := by
  rw [pad32, h]
  rfl

/-! ### Proofs -/

/-- The fields of a proof have the lengths that the verifier asks for; its path may have any number
of nodes. -/
structure ChainedProof.WellSized (p : ChainedProof) : Prop where
  mduRootFr : p.mduRootFr.length = 32
  manifestOpening : p.manifestOpening.length = 48
  blobCommitment : p.blobCommitment.length = 48
  zValue : p.zValue.length = 32
  yValue : p.yValue.length = 32
  kzgOpeningProof : p.kzgOpeningProof.length = 48
  merklePath : ∀ node ∈ p.merklePath, node.length = 32

/-- The bytes of a proof before its count of nodes. -/
def ChainedProof.head (p : ChainedProof) : Bytes :=
  uint64ToBigEndian p.mduIndex ++ p.mduRootFr ++ p.manifestOpening ++ p.blobCommitment

/-- The bytes of a proof after its nodes. -/
def ChainedProof.tail (p : ChainedProof) : Bytes :=
  putUint32 p.blobIndex ++ p.zValue ++ p.yValue ++ p.kzgOpeningProof

/-- The bytes that `HashChainedProof` hashes. -/
def ChainedProof.preimage (p : ChainedProof) : Bytes :=
  p.head ++ (putUint32 (UInt32.ofNat p.merklePath.length) ++ (p.merklePath.flatten ++ p.tail))

section Proof

variable {p q : ChainedProof}

/-- The hash of a well-sized proof is that of its preimage: no part of it is cut or padded. -/
theorem hashChainedProof_eq (keccak256 : Bytes → Bytes) (h : p.WellSized) :
    hashChainedProof keccak256 p = keccak256 p.preimage := by
  rw [hashChainedProof, if_neg, if_neg]
  · simp only [ChainedProof.preimage, ChainedProof.head, ChainedProof.tail, List.append_assoc]
  · simpa using h.merklePath
  · simp [h.mduRootFr, h.manifestOpening, h.blobCommitment, h.zValue, h.yValue, h.kzgOpeningProof]

/-- The part before the path has a fixed length. -/
theorem ChainedProof.WellSized.length_head (h : p.WellSized) : p.head.length = 136 := by
  simp [ChainedProof.head, h.mduRootFr, h.manifestOpening, h.blobCommitment]

/-- The part behind the path has a fixed length. -/
theorem ChainedProof.WellSized.length_tail (h : p.WellSized) : p.tail.length = 116 := by
  simp [ChainedProof.tail, h.zValue, h.yValue, h.kzgOpeningProof]

/-- The length of the preimage tells the number of nodes. -/
theorem ChainedProof.WellSized.length_preimage (h : p.WellSized) :
    p.preimage.length = 256 + 32 * p.merklePath.length := by
  simp only [ChainedProof.preimage, List.length_append, h.length_head, h.length_tail,
    length_putUint32, length_flatten_words h.merklePath]
  omega

/-- The part before the path tells its four fields. -/
theorem ChainedProof.head_inj (hp : p.WellSized) (hq : q.WellSized) (h : p.head = q.head) :
    p.mduIndex = q.mduIndex ∧ p.mduRootFr = q.mduRootFr ∧ p.manifestOpening = q.manifestOpening ∧
      p.blobCommitment = q.blobCommitment := by
  obtain ⟨h, hblob⟩ := List.append_inj' h (by rw [hp.blobCommitment, hq.blobCommitment])
  obtain ⟨h, hopening⟩ := List.append_inj' h (by rw [hp.manifestOpening, hq.manifestOpening])
  obtain ⟨hindex, hroot⟩ := List.append_inj' h (by rw [hp.mduRootFr, hq.mduRootFr])
  exact ⟨uint64ToBigEndian_inj hindex, hroot, hopening, hblob⟩

/-- The part behind the path tells its four fields. -/
theorem ChainedProof.tail_inj (hp : p.WellSized) (hq : q.WellSized) (h : p.tail = q.tail) :
    p.blobIndex = q.blobIndex ∧ p.zValue = q.zValue ∧ p.yValue = q.yValue ∧
      p.kzgOpeningProof = q.kzgOpeningProof := by
  obtain ⟨h, hopening⟩ := List.append_inj' h (by rw [hp.kzgOpeningProof, hq.kzgOpeningProof])
  obtain ⟨h, hy⟩ := List.append_inj' h (by rw [hp.yValue, hq.yValue])
  obtain ⟨hindex, hz⟩ := List.append_inj' h (by rw [hp.zValue, hq.zValue])
  exact ⟨putUint32_inj hindex, hz, hy, hopening⟩

/-- A proof is found again in its preimage, however long its path is. -/
theorem ChainedProof.preimage_inj (hp : p.WellSized) (hq : q.WellSized)
    (h : p.preimage = q.preimage) : p = q := by
  obtain ⟨hhead, h⟩ := List.append_inj h (by rw [hp.length_head, hq.length_head])
  obtain ⟨-, h⟩ := List.append_inj h (by simp)
  obtain ⟨hpath, htail⟩ := List.append_inj' h (by rw [hp.length_tail, hq.length_tail])
  obtain ⟨hindex, hroot, hopening, hblob⟩ := ChainedProof.head_inj hp hq hhead
  obtain ⟨hblobIndex, hz, hy, hkzg⟩ := ChainedProof.tail_inj hp hq htail
  have hnodes := words_inj (by decide) hp.merklePath hq.merklePath hpath
  cases p
  cases q
  simp_all

end Proof

/-! ### The four kinds of value -/

/-- What is hashed for a signature. -/
inductive Encoded where
  | receipt (r : RetrievalReceipt)
  | session (r : DownloadSessionReceipt)
  | request (r : RetrievalRequest)
  | proof (p : ChainedProof)

section

variable (keccak256 : Bytes → Bytes)

/-- The words of a receipt. -/
def receiptWords (r : RetrievalReceipt) : List Bytes :=
  [keccak256String keccak256
      ("RetrievalReceipt(uint64 deal_id,uint64 epoch_id,string provider,string file_path," ++
        "uint64 range_start,uint64 range_len,uint64 bytes_served,uint64 nonce," ++
        "uint64 expires_at,bytes32 proof_hash)"),
    uint64Word r.dealId, uint64Word r.epochId, keccak256 (utf8 r.provider),
    keccak256 (utf8 r.filePath), uint64Word r.rangeStart, uint64Word r.rangeLen,
    uint64Word r.bytesServed, uint64Word r.nonce, uint64Word r.expiresAt,
    hashChainedProof keccak256 r.proofDetails]

/-- The words of a session receipt. -/
def sessionWords (r : DownloadSessionReceipt) : List Bytes :=
  [keccak256String keccak256
      ("DownloadSessionReceipt(uint64 deal_id,uint64 epoch_id,string provider," ++
        "string file_path,uint64 total_bytes,uint64 chunk_count,bytes32 chunk_leaf_root," ++
        "uint64 nonce,uint64 expires_at)"),
    uint64Word r.dealId, uint64Word r.epochId, keccak256 (utf8 r.provider),
    keccak256 (utf8 r.filePath), uint64Word r.totalBytes, uint64Word r.chunkCount,
    r.chunkLeafRoot, uint64Word r.nonce, uint64Word r.expiresAt]

/-- The words of a request. -/
def requestWords (r : RetrievalRequest) : List Bytes :=
  [keccak256String keccak256
      ("RetrievalRequest(uint64 deal_id,string file_path,uint64 range_start,uint64 range_len," ++
        "uint64 nonce,uint64 expires_at)"),
    uint64Word r.dealId, keccak256 (utf8 r.filePath), uint64Word r.rangeStart,
    uint64Word r.rangeLen, uint64Word r.nonce, uint64Word r.expiresAt]

/-- The value of each kind. -/
def Encoded.value : Encoded → Bytes
  | .receipt r => hashRetrievalReceiptV3 keccak256 r
  | .session r => hashDownloadSessionReceipt keccak256 r
  | .request r => hashRetrievalRequest keccak256 r
  | .proof p => hashChainedProof keccak256 p

/-- The bytes that the value is the hash of. -/
def Encoded.preimage : Encoded → Bytes
  | .receipt r => (receiptWords keccak256 r).flatten
  | .session r => (sessionWords keccak256 r).flatten
  | .request r => (requestWords keccak256 r).flatten
  | .proof p => p.preimage

/-- Everything that is hashed for a value but its type string. -/
def Encoded.hashed : Encoded → List Bytes
  | .receipt r =>
      [utf8 r.provider, utf8 r.filePath, r.proofDetails.preimage,
        (receiptWords keccak256 r).flatten]
  | .session r => [utf8 r.provider, utf8 r.filePath, (sessionWords keccak256 r).flatten]
  | .request r => [utf8 r.filePath, (requestWords keccak256 r).flatten]
  | .proof p => [p.preimage]

end

/-- How long the preimage of a kind of value is. -/
def Encoded.size : Encoded → Nat
  | .receipt _ => 352
  | .session _ => 320
  | .request _ => 224
  | .proof p => 256 + 32 * p.merklePath.length

/-- The proof of a receipt has the lengths of the verifier, and the chunk root 32 bytes. -/
def Encoded.WellSized : Encoded → Prop
  | .receipt r => r.proofDetails.WellSized
  | .session r => r.chunkLeafRoot.length = 32
  | .request _ => True
  | .proof p => p.WellSized

/-- A value without the signature that is made of it. -/
def Encoded.unsigned : Encoded → Encoded
  | .receipt r => .receipt { r with userSignature := [] }
  | .session r => .session { r with userSignature := [] }
  | .request r => .request r
  | .proof p => .proof p

/-- The count of a proof's nodes is where the hash of the path is in a receipt. -/
def Encoded.Overlaps (keccak256 : Bytes → Bytes) : Encoded → Encoded → Prop
  | .proof p, .receipt r =>
      p.merklePath.length = 3 ∧ ((keccak256 (utf8 r.filePath)).drop 8).take 4 = putUint32 3
  | .proof p, .session r =>
      p.merklePath.length = 2 ∧ ((keccak256 (utf8 r.filePath)).drop 8).take 4 = putUint32 2
  | _, _ => False

section Typed

variable {keccak256 : Bytes → Bytes} {H : Set Bytes}

/-- The encoding of a receipt is made of whole words. -/
theorem length_receiptWords (hkeccak : ∀ b, (keccak256 b).length = 32) {r : RetrievalReceipt}
    (hr : r.proofDetails.WellSized) : ∀ word ∈ receiptWords keccak256 r, word.length = 32 := by
  simp [receiptWords, keccak256String, hkeccak, length_uint64Word, hashChainedProof_eq _ hr]

/-- The encoding of a session receipt is made of whole words. -/
theorem length_sessionWords (hkeccak : ∀ b, (keccak256 b).length = 32)
    {r : DownloadSessionReceipt} (hr : r.chunkLeafRoot.length = 32) :
    ∀ word ∈ sessionWords keccak256 r, word.length = 32 := by
  simp [sessionWords, keccak256String, hkeccak, length_uint64Word, hr]

/-- The encoding of a request is made of whole words. -/
theorem length_requestWords (hkeccak : ∀ b, (keccak256 b).length = 32) (r : RetrievalRequest) :
    ∀ word ∈ requestWords keccak256 r, word.length = 32 := by
  simp [requestWords, keccak256String, hkeccak, length_uint64Word]

/-- Each value is the hash of its preimage. -/
theorem Encoded.value_eq (hkeccak : ∀ b, (keccak256 b).length = 32) {a : Encoded}
    (ha : a.WellSized) : a.value keccak256 = keccak256 (a.preimage keccak256) := by
  cases a with
  | receipt r =>
      have hproof : pad32 (hashChainedProof keccak256 r.proofDetails) =
          hashChainedProof keccak256 r.proofDetails := by
        rw [hashChainedProof_eq _ ha, pad32_of_length (hkeccak _)]
      simp only [Encoded.value, Encoded.preimage, hashRetrievalReceiptV3, receiptWords, uint64Word,
        hproof, List.flatten_cons, List.flatten_nil, List.append_nil, List.append_assoc]
  | session r =>
      have hroot : pad32 r.chunkLeafRoot = r.chunkLeafRoot := pad32_of_length ha
      have hlength : ¬r.chunkLeafRoot.length ≠ 32 := not_not.mpr ha
      simp only [Encoded.value, Encoded.preimage, hashDownloadSessionReceipt, sessionWords,
        uint64Word, hroot, if_neg hlength, List.flatten_cons, List.flatten_nil, List.append_nil,
        List.append_assoc]
  | request r =>
      simp only [Encoded.value, Encoded.preimage, hashRetrievalRequest, retrievalRequestPreimage,
        requestWords, uint64Word, List.flatten_cons, List.flatten_nil, List.append_nil,
        List.append_assoc]
  | proof p => exact hashChainedProof_eq _ ha

/-- A preimage has the size of its layout. -/
theorem Encoded.length_preimage (hkeccak : ∀ b, (keccak256 b).length = 32) {a : Encoded}
    (ha : a.WellSized) : (a.preimage keccak256).length = a.size := by
  cases a with
  | receipt r => exact length_flatten_words (length_receiptWords hkeccak ha)
  | session r => exact length_flatten_words (length_sessionWords hkeccak ha)
  | request r => exact length_flatten_words (length_requestWords hkeccak r)
  | proof p => exact ChainedProof.WellSized.length_preimage ha

/-- Strings of one hash are one string. -/
theorem utf8_eq_of_hash (hinj : Set.InjOn keccak256 H) {s t : Str} (hs : utf8 s ∈ H)
    (ht : utf8 t ∈ H) (h : keccak256 (utf8 s) = keccak256 (utf8 t)) : s = t :=
  utf8_injective (hinj hs ht h)

/-! ### Equal values -/

/-- Four bytes inside of a part that is found at a place. -/
theorem take_drop_part {before part rest : Bytes} {n m : Nat} (hbefore : before.length = n)
    (hpart : m + 4 ≤ part.length) :
    ((before ++ (part ++ rest)).drop (n + m)).take 4 = (part.drop m).take 4 := by
  rw [← hbefore, List.drop_length_add_append, List.drop_append_of_le_length (by omega),
    List.take_append_of_le_length (by rw [List.length_drop]; omega)]

/-- The count of nodes in the preimage of a proof. -/
theorem ChainedProof.WellSized.count_at {p : ChainedProof} (h : p.WellSized) :
    (p.preimage.drop 136).take 4 = putUint32 (UInt32.ofNat p.merklePath.length) := by
  have hcount := @take_drop_part p.head (putUint32 (UInt32.ofNat p.merklePath.length))
    (p.merklePath.flatten ++ p.tail) 136 0 h.length_head (length_putUint32 _).ge
  rw [ChainedProof.preimage, hcount, List.drop_zero]
  exact List.take_of_length_le (length_putUint32 _).le

/-- What is at that place in words: the hash of the path, which comes after four other words. -/
theorem path_at {a b c d path : Bytes} {rest : List Bytes} (ha : a.length = 32)
    (hb : b.length = 32) (hc : c.length = 32) (hd : d.length = 32) (hpath : path.length = 32) :
    ((a :: b :: c :: d :: path :: rest).flatten.drop 136).take 4 = (path.drop 8).take 4 := by
  have hbefore : (a ++ (b ++ (c ++ d))).length = 128 := by simp [ha, hb, hc, hd]
  have hpart := @take_drop_part (a ++ (b ++ (c ++ d))) path rest.flatten 128 8 hbefore (by omega)
  simp only [List.append_assoc] at hpart
  simpa only [List.flatten_cons] using hpart

/-- Two receipts with one encoding agree in all that is signed. -/
theorem receipt_unsigned_eq (hkeccak : ∀ b, (keccak256 b).length = 32)
    (hinj : Set.InjOn keccak256 H) {a b : RetrievalReceipt} (ha : a.proofDetails.WellSized)
    (hb : b.proofDetails.WellSized) (haH : ∀ x ∈ (Encoded.receipt a).hashed keccak256, x ∈ H)
    (hbH : ∀ x ∈ (Encoded.receipt b).hashed keccak256, x ∈ H)
    (h : (receiptWords keccak256 a).flatten = (receiptWords keccak256 b).flatten) :
    (Encoded.receipt a).unsigned = (Encoded.receipt b).unsigned := by
  have hwords := words_inj (by decide) (length_receiptWords hkeccak ha)
    (length_receiptWords hkeccak hb) h
  simp only [Encoded.hashed, List.forall_mem_cons] at haH hbH
  obtain ⟨haprovider, hapath, haproof, -⟩ := haH
  obtain ⟨hbprovider, hbpath, hbproof, -⟩ := hbH
  simp only [receiptWords, List.cons.injEq, uint64Word_inj, hashChainedProof_eq _ ha,
    hashChainedProof_eq _ hb] at hwords
  obtain ⟨-, hdeal, hepoch, hprovider, hpath, hstart, hlen, hserved, hnonce, hexpires, hproof, -⟩ :=
    hwords
  have hprovider := utf8_eq_of_hash hinj haprovider hbprovider hprovider
  have hpath := utf8_eq_of_hash hinj hapath hbpath hpath
  have hproof := ChainedProof.preimage_inj ha hb (hinj haproof hbproof hproof)
  cases a
  cases b
  simp_all [Encoded.unsigned]

/-- Two session receipts with one encoding agree in all that is signed. -/
theorem session_unsigned_eq (hkeccak : ∀ b, (keccak256 b).length = 32)
    (hinj : Set.InjOn keccak256 H) {a b : DownloadSessionReceipt}
    (ha : a.chunkLeafRoot.length = 32) (hb : b.chunkLeafRoot.length = 32)
    (haH : ∀ x ∈ (Encoded.session a).hashed keccak256, x ∈ H)
    (hbH : ∀ x ∈ (Encoded.session b).hashed keccak256, x ∈ H)
    (h : (sessionWords keccak256 a).flatten = (sessionWords keccak256 b).flatten) :
    (Encoded.session a).unsigned = (Encoded.session b).unsigned := by
  have hwords := words_inj (by decide) (length_sessionWords hkeccak ha)
    (length_sessionWords hkeccak hb) h
  simp only [Encoded.hashed, List.forall_mem_cons] at haH hbH
  obtain ⟨haprovider, hapath, -⟩ := haH
  obtain ⟨hbprovider, hbpath, -⟩ := hbH
  simp only [sessionWords, List.cons.injEq, uint64Word_inj] at hwords
  obtain ⟨-, hdeal, hepoch, hprovider, hpath, htotal, hcount, hroot, hnonce, hexpires, -⟩ := hwords
  have hprovider := utf8_eq_of_hash hinj haprovider hbprovider hprovider
  have hpath := utf8_eq_of_hash hinj hapath hbpath hpath
  cases a
  cases b
  simp_all [Encoded.unsigned]

/-- Two requests with one encoding are the same. -/
theorem request_eq (hkeccak : ∀ b, (keccak256 b).length = 32) (hinj : Set.InjOn keccak256 H)
    {a b : RetrievalRequest} (haH : ∀ x ∈ (Encoded.request a).hashed keccak256, x ∈ H)
    (hbH : ∀ x ∈ (Encoded.request b).hashed keccak256, x ∈ H)
    (h : (requestWords keccak256 a).flatten = (requestWords keccak256 b).flatten) : a = b := by
  have hwords := words_inj (by decide) (length_requestWords hkeccak a)
    (length_requestWords hkeccak b) h
  simp only [Encoded.hashed, List.forall_mem_cons] at haH hbH
  simp only [requestWords, List.cons.injEq, uint64Word_inj] at hwords
  obtain ⟨-, hdeal, hpath, hstart, hlen, hnonce, hexpires, -⟩ := hwords
  have hpath := utf8_eq_of_hash hinj haH.1 hbH.1 hpath
  cases a
  cases b
  simp_all

/-- A proof and a value of words meet only where the count of nodes is. The words of a receipt have
a fixed length, so the length alone gives the number of nodes, and the bytes of the count are bytes
of the hash of the path. -/
theorem proof_overlaps (hkeccak : ∀ b, (keccak256 b).length = 32) {p : ChainedProof} {b : Encoded}
    (hp : p.WellSized) (hb : b.WellSized) (hne : ∀ q, b ≠ .proof q)
    (h : p.preimage = b.preimage keccak256) : (Encoded.proof p).Overlaps keccak256 b := by
  -- the lengths are equal, and so are the four bytes of the count
  have hlength := congrArg List.length h
  rw [hp.length_preimage, Encoded.length_preimage hkeccak hb] at hlength
  have hcount := hp.count_at
  rw [h] at hcount
  -- by the kind of the other value
  cases b with
  | receipt r =>
      have hnodes : p.merklePath.length = 3 := by
        simp only [Encoded.size] at hlength
        omega
      have hpath : ((receiptWords keccak256 r).flatten.drop 136).take 4 =
          ((keccak256 (utf8 r.filePath)).drop 8).take 4 :=
        path_at (hkeccak _) (length_uint64Word _) (length_uint64Word _) (hkeccak _) (hkeccak _)
      rw [hnodes] at hcount
      exact ⟨hnodes, hpath.symm.trans hcount⟩
  | session r =>
      have hnodes : p.merklePath.length = 2 := by
        simp only [Encoded.size] at hlength
        omega
      have hpath : ((sessionWords keccak256 r).flatten.drop 136).take 4 =
          ((keccak256 (utf8 r.filePath)).drop 8).take 4 :=
        path_at (hkeccak _) (length_uint64Word _) (length_uint64Word _) (hkeccak _) (hkeccak _)
      rw [hnodes] at hcount
      exact ⟨hnodes, hpath.symm.trans hcount⟩
  | request r =>
      simp only [Encoded.size] at hlength
      omega
  | proof q => exact absurd rfl (hne q)

end Typed

/-- **A value determines what was hashed**, but for the signature that is made of it. Two kinds of
value never meet, except a proof and a receipt where the count of the nodes is in the hash of the
path. -/
theorem value_determines (keccak256 : Bytes → Bytes) (hkeccak : ∀ b, (keccak256 b).length = 32)
    (a b : Encoded) (ha : a.WellSized) (hb : b.WellSized)
    (hinj : Set.InjOn keccak256
      {x | x ∈ a.hashed keccak256 ∨ x ∈ b.hashed keccak256})
    (h : a.value keccak256 = b.value keccak256) :
    a.unsigned = b.unsigned ∨ a.Overlaps keccak256 b ∨ b.Overlaps keccak256 a := by
  -- what is hashed last is among what is hashed
  have hlast : ∀ c : Encoded, c.preimage keccak256 ∈ c.hashed keccak256 := by
    intro c
    cases c <;> simp [Encoded.preimage, Encoded.hashed]
  rw [Encoded.value_eq hkeccak ha, Encoded.value_eq hkeccak hb] at h
  have h := hinj (Or.inl (hlast a)) (Or.inr (hlast b)) h
  have hlength := congrArg List.length h
  rw [Encoded.length_preimage hkeccak ha, Encoded.length_preimage hkeccak hb] at hlength
  -- kinds of the same length are of the same kind, but for proofs
  cases a with
  | proof p =>
      by_cases hproof : ∃ q, b = .proof q
      · obtain ⟨q, rfl⟩ := hproof
        exact Or.inl (congrArg Encoded.proof (ChainedProof.preimage_inj ha hb h))
      · exact Or.inr (Or.inl (proof_overlaps hkeccak ha hb (fun q hq => hproof ⟨q, hq⟩) h))
  | receipt r =>
      cases b with
      | receipt r' =>
          exact Or.inl
            (receipt_unsigned_eq hkeccak hinj ha hb (fun _ => Or.inl) (fun _ => Or.inr) h)
      | proof p => exact Or.inr (Or.inr (proof_overlaps hkeccak hb ha nofun h.symm))
      | session r' => simp [Encoded.size] at hlength
      | request r' => simp [Encoded.size] at hlength
  | session r =>
      cases b with
      | session r' =>
          exact Or.inl
            (session_unsigned_eq hkeccak hinj ha hb (fun _ => Or.inl) (fun _ => Or.inr) h)
      | proof p => exact Or.inr (Or.inr (proof_overlaps hkeccak hb ha nofun h.symm))
      | receipt r' => simp [Encoded.size] at hlength
      | request r' => simp [Encoded.size] at hlength
  | request r =>
      cases b with
      | request r' =>
          exact Or.inl (congrArg Encoded.request
            (request_eq hkeccak hinj (fun _ => Or.inl) (fun _ => Or.inr) h))
      | proof p => exact Or.inr (Or.inr (proof_overlaps hkeccak hb ha nofun h.symm))
      | receipt r' => simp [Encoded.size] at hlength
      | session r' => simp [Encoded.size] at hlength

/-! ### A proof and a receipt that meet -/

/-- A path whose hash has a three in the bytes 8 to 11. -/
def meetingPath : Str := "f3605265741".toList

/-- A receipt for this path. Its own proof has no nodes, and only zeros. -/
def meetingReceipt : RetrievalReceipt where
  dealId := 0
  epochId := 1
  provider := "nil1".toList
  bytesServed := 5
  proofDetails := ⟨0, List.replicate 32 0, List.replicate 48 0, List.replicate 48 0, [], 0,
    List.replicate 32 0, List.replicate 32 0, List.replicate 48 0⟩
  userSignature := []
  nonce := 1
  expiresAt := 100
  filePath := meetingPath
  rangeStart := 0
  rangeLen := 5

/-- A session receipt for this path, with any signature. -/
def meetingSession (signature : Bytes) : DownloadSessionReceipt where
  dealId := 0
  epochId := 1
  provider := "nil1".toList
  filePath := meetingPath
  totalBytes := 5
  chunkCount := 1
  chunkLeafRoot := zeroHash
  userSignature := signature
  nonce := 1
  expiresAt := 100

/-- The Keccak-256 of the two type strings, the provider, the path, the proof, and the words of both
receipts. -/
def meetingHashes : List Bytes :=
  [[0x80, 0x45, 0xa8, 0xf6, 0xd2, 0x80, 0xda, 0x1b, 0x0b, 0xc1, 0xc9, 0x88, 0x9c, 0x9d, 0xc2, 0x27,
    0xf9, 0x92, 0x6a, 0xc4, 0x33, 0x07, 0xab, 0x70, 0xca, 0x01, 0xb6, 0x79, 0x85, 0x9e, 0x32,
    0xc6],
   [0xb2, 0xcf, 0x70, 0xfd, 0xd6, 0x4a, 0x8e, 0xca, 0xe6, 0x8e, 0x07, 0x59, 0xed, 0x4c, 0xdf, 0xa0,
    0xdd, 0xe1, 0xb0, 0x4e, 0x9b, 0xd3, 0x64, 0x52, 0xa7, 0x84, 0x4b, 0x78, 0x9d, 0x17, 0x8d,
    0x1a],
   [0xc9, 0xe8, 0x1c, 0x38, 0xb5, 0x33, 0x53, 0x8b, 0x39, 0x6c, 0x77, 0x78, 0x66, 0xc4, 0xdc, 0xfb,
    0xc5, 0x2e, 0x83, 0x6d, 0xbf, 0x40, 0xf9, 0x9b, 0xbb, 0x92, 0x9d, 0x20, 0x50, 0x00, 0x3b,
    0xab],
   [0x5a, 0x1b, 0x80, 0x96, 0xe6, 0xb3, 0x27, 0x38, 0x00, 0x00, 0x00, 0x03, 0x6f, 0xef, 0x2c, 0x5a,
    0x7f, 0x42, 0x3e, 0x31, 0xb4, 0x50, 0x77, 0xfa, 0xe3, 0xb8, 0x72, 0x01, 0xf9, 0x51, 0x4f,
    0x26],
   [0xd3, 0x97, 0xb3, 0xb0, 0x43, 0xd8, 0x7f, 0xcd, 0x6f, 0xad, 0x12, 0x91, 0xff, 0x0b, 0xfd, 0x16,
    0x40, 0x1c, 0x27, 0x48, 0x96, 0xd8, 0xc6, 0x3a, 0x92, 0x37, 0x27, 0xf0, 0x77, 0xb8, 0xe0,
    0xb5],
   [0xaf, 0x37, 0xe4, 0x0a, 0x6d, 0x8d, 0xd5, 0x2e, 0x4d, 0xba, 0xfe, 0xe3, 0x35, 0x4d, 0x75, 0x19,
    0x70, 0x0a, 0x48, 0xa4, 0x86, 0x69, 0x6e, 0xfd, 0xe6, 0xbd, 0x58, 0x7b, 0x85, 0x00, 0x72,
    0xd1],
   [0xf7, 0x82, 0x8b, 0x35, 0xef, 0x52, 0xa9, 0x75, 0xd9, 0xc4, 0xfd, 0x0a, 0x23, 0x52, 0x49, 0xb3,
    0x18, 0xbe, 0x76, 0xe1, 0x39, 0x6b, 0xeb, 0xf1, 0x8d, 0xd6, 0x18, 0x2e, 0xc3, 0x71, 0x6b,
    0x3c]]

/-- The digests of the sample collision have 32 bytes. -/
theorem length_meetingHashes : ∀ h ∈ meetingHashes, h.length = 32 := by decide

/-- The strings, with their hashes. -/
def meetingStrings : HashTable where
  entries := [utf8 ("RetrievalReceipt(uint64 deal_id,uint64 epoch_id,string provider," ++
      "string file_path,uint64 range_start,uint64 range_len,uint64 bytes_served,uint64 nonce," ++
      "uint64 expires_at,bytes32 proof_hash)").toList,
    utf8 ("DownloadSessionReceipt(uint64 deal_id,uint64 epoch_id,string provider," ++
      "string file_path,uint64 total_bytes,uint64 chunk_count,bytes32 chunk_leaf_root," ++
      "uint64 nonce,uint64 expires_at)").toList,
    utf8 "nil1".toList, utf8 meetingPath, meetingReceipt.proofDetails.preimage].zip meetingHashes
  lengths := fun _ he => length_meetingHashes _ (List.of_mem_zip he).2

/-- The strings and the words, with their hashes. -/
def meetingKeccak : HashTable where
  entries := meetingStrings.entries ++
    [(receiptWords meetingStrings.hash meetingReceipt).flatten,
      (sessionWords meetingStrings.hash (meetingSession [])).flatten].zip (meetingHashes.drop 5)
  lengths := by
    intro e he
    rcases List.mem_append.mp he with he | he
    · exact meetingStrings.lengths e he
    · exact length_meetingHashes _ (List.mem_of_mem_drop (List.of_mem_zip he).2)

/-- A proof with three nodes, read out of 352 bytes. -/
def proofOfBytes (b : Bytes) : ChainedProof where
  mduIndex := UInt64.ofNat (ofBeBytes (b.take 8))
  mduRootFr := (b.drop 8).take 32
  manifestOpening := (b.drop 40).take 48
  blobCommitment := (b.drop 88).take 48
  merklePath := [(b.drop 140).take 32, (b.drop 172).take 32, (b.drop 204).take 32]
  blobIndex := UInt32.ofNat (ofBeBytes ((b.drop 236).take 4))
  zValue := (b.drop 240).take 32
  yValue := (b.drop 272).take 32
  kzgOpeningProof := (b.drop 304).take 48

/-- The proof whose fields are the words of the receipt. -/
def meetingProof : ChainedProof :=
  proofOfBytes (receiptWords meetingStrings.hash meetingReceipt).flatten

instance (p : ChainedProof) : Decidable p.WellSized :=
  decidable_of_iff (p.mduRootFr.length = 32 ∧ p.manifestOpening.length = 48 ∧
      p.blobCommitment.length = 48 ∧ p.zValue.length = 32 ∧ p.yValue.length = 32 ∧
      p.kzgOpeningProof.length = 48 ∧ ∀ node ∈ p.merklePath, node.length = 32)
    ⟨fun ⟨h₁, h₂, h₃, h₄, h₅, h₆, h₇⟩ => ⟨h₁, h₂, h₃, h₄, h₅, h₆, h₇⟩,
      fun ⟨h₁, h₂, h₃, h₄, h₅, h₆, h₇⟩ => ⟨h₁, h₂, h₃, h₄, h₅, h₆, h₇⟩⟩

/-- Where the listed hashes are distinct, no two listed preimages have one hash. -/
theorem HashTable.injOn_hash {table : HashTable} (h : (table.entries.map (·.2)).Nodup) :
    Set.InjOn table.hash {x | x ∈ table.entries.map (·.1)} := by
  have hlisted : ∀ x ∈ table.entries.map (·.1), ∃ e ∈ table.entries, e.1 = x ∧
      table.hash x = e.2 := by
    intro x hx
    obtain ⟨e, he, rfl⟩ := List.mem_map.mp hx
    have hsome : (table.entries.find? fun e' => e'.1 = e.1).isSome := by
      rw [List.find?_isSome]
      exact ⟨e, he, by simp⟩
    obtain ⟨e', hfind⟩ := Option.isSome_iff_exists.mp hsome
    refine ⟨e', List.mem_of_find?_eq_some hfind, by simpa using List.find?_some hfind, ?_⟩
    rw [HashTable.hash, hfind]
    rfl
  intro x hx y hy heq
  obtain ⟨e, he, rfl, hhash⟩ := hlisted x hx
  obtain ⟨e', he', rfl, hhash'⟩ := hlisted y hy
  rw [hhash, hhash'] at heq
  rw [List.inj_on_of_nodup_map h he he' heq]

/-- The digests of the sample collision are distinct: what meets is the preimages. -/
theorem meetingKeccak_injOn :
    Set.InjOn meetingKeccak.hash {x | x ∈ meetingKeccak.entries.map (·.1)} :=
  HashTable.injOn_hash (by decide +kernel)

/-- What is hashed is listed, and the receipt has the preimage of the proof. -/
theorem meeting_listed :
    (∀ x ∈ (Encoded.receipt meetingReceipt).hashed meetingKeccak.hash ++
        (Encoded.session (meetingSession [])).hashed meetingKeccak.hash,
      x ∈ meetingKeccak.entries.map (·.1)) ∧
      meetingProof.preimage = (receiptWords meetingKeccak.hash meetingReceipt).flatten ∧
      meetingProof.WellSized := by
  decide +kernel

/-- The values agree on any two session receipts that agree but for the signature. -/
theorem value_meetingSession (signature : Bytes) :
    (Encoded.session (meetingSession signature)).value meetingKeccak.hash =
      (Encoded.session (meetingSession [])).value meetingKeccak.hash := rfl

/-- A proof and a receipt have one value, and so have session receipts with two signatures, where
the hashes of everything that is hashed are distinct. So neither exception can be left out. -/
theorem values_meet :
    Set.InjOn meetingKeccak.hash {x | x ∈ meetingKeccak.entries.map (·.1)} ∧
      (∀ a ∈ [Encoded.proof meetingProof, .receipt meetingReceipt, .session (meetingSession []),
          .session (meetingSession [1])],
        a.WellSized ∧ ∀ x ∈ a.hashed meetingKeccak.hash, x ∈ meetingKeccak.entries.map (·.1)) ∧
      (Encoded.proof meetingProof).value meetingKeccak.hash =
        (Encoded.receipt meetingReceipt).value meetingKeccak.hash ∧
      meetingSession [] ≠ meetingSession [1] ∧
      (Encoded.session (meetingSession [])).value meetingKeccak.hash =
        (Encoded.session (meetingSession [1])).value meetingKeccak.hash := by
  obtain ⟨hlisted, hpreimage, hproof⟩ := meeting_listed
  have hwell : meetingReceipt.proofDetails.WellSized := by decide
  have hreceipt : (Encoded.receipt meetingReceipt).WellSized := hwell
  refine ⟨meetingKeccak_injOn, ?_, ?_, by decide, (value_meetingSession [1]).symm⟩
  · simp only [List.forall_mem_cons]
    refine ⟨⟨hproof, fun x hx => ?_⟩, ⟨hreceipt, fun x hx => ?_⟩, ⟨rfl, fun x hx => ?_⟩,
      ⟨rfl, fun x hx => ?_⟩, nofun⟩
    -- the proof hashes its preimage, which is that of the receipt
    · rw [List.mem_singleton.mp hx, hpreimage]
      exact hlisted _ (by simp [Encoded.hashed])
    · exact hlisted x (List.mem_append_left _ hx)
    · exact hlisted x (List.mem_append_right _ hx)
    · exact hlisted x (List.mem_append_right _ hx)
  · have hproof : (Encoded.proof meetingProof).WellSized := hproof
    rw [Encoded.value_eq meetingKeccak.length_hash hproof,
      Encoded.value_eq meetingKeccak.length_hash hreceipt]
    exact congrArg meetingKeccak.hash hpreimage

/-- The two session receipts agree but for their signatures. -/
theorem value_determines_session :
    (Encoded.session (meetingSession [])).unsigned =
      (Encoded.session (meetingSession [1])).unsigned ∨
      (Encoded.session (meetingSession [])).Overlaps meetingKeccak.hash
        (.session (meetingSession [1])) ∨
      (Encoded.session (meetingSession [1])).Overlaps meetingKeccak.hash
        (.session (meetingSession [])) :=
  value_determines meetingKeccak.hash meetingKeccak.length_hash (.session (meetingSession []))
    (.session (meetingSession [1])) rfl rfl
    (meetingKeccak_injOn.mono fun x hx =>
      meeting_listed.1 x (List.mem_append_right _ (hx.elim id id)))
    (value_meetingSession [1]).symm

end NilStore.Chain
