import NilStore.Proofs.BridgeAgreement
import NilStore.Proofs.ReceiptEncodings
import NilStore.Proofs.ReceiptNonces

/-!
# `NilStore.Proofs.BridgeReplay`: what a signature over an intent is good for

A wallet signs an intent as EIP-712 typed data, in which a `uint64` is a word of 32 bytes. The chain
writes `PaddedBigBytes(big.NewInt(int64(x)), 32)` instead. That is the same word up to `2^63`, and
the word of `2^64 - x` above it (`chainWord_eq_iff`). So a signature over a small number is also one
over a large number, for the chain.

`bridge_signature_once` takes any run. An accepted intent is the one that was signed exactly when
its numbers are at most `2^63`. Where all messages of the run keep to these numbers, a signature is
accepted once, with the values that were signed. `bridge_signature_twice` replays the signature over
nonce 5 with the nonce `2^64 - 5`.
-/

set_option autoImplicit false

namespace NilStore.Chain

open NilStore.Lib

variable {β : Type}

/-! ### Numbers -/

/-- The word that the hashes of the bridge write for a `uint64`. -/
def chainWord (x : UInt64) : Bytes := paddedBigBytes (newInt64 x)

/-- A chain id takes one word of the digest. -/
theorem length_chainWord (x : UInt64) : (chainWord x).length = 32 := length_beBytes 32 _

/-- The magnitude of a `uint64` that is read as an `int64`. -/
theorem natAbs_newInt64 (x : UInt64) :
    (newInt64 x).natAbs = if x.toNat ≤ 2 ^ 63 then x.toNat else 2 ^ 64 - x.toNat := by
  have hx := x.toNat_lt
  have hint : newInt64 x = (x.toNat : Int).bmod (2 ^ 64) := BitVec.toInt_eq_toNat_bmod x.toBitVec
  rw [hint, Int.bmod_def]
  split <;> split <;> omega

/-- The chain writes the word of a number exactly when the number is at most `2^63`. -/
theorem chainWord_eq_iff (x : UInt64) : chainWord x = uint64Word x ↔ x.toNat ≤ 2 ^ 63 := by
  have hx := x.toNat_lt
  have habs := natAbs_newInt64 x
  constructor
  · intro h
    have hsame : (newInt64 x).natAbs = x.toNat := by
      refine beBytes_inj ?_ ?_ h
      · rw [habs]
        split <;> omega
      · show x.toNat < _
        omega
    rw [habs] at hsame
    split at hsame <;> omega
  · intro h
    rw [if_pos h] at habs
    rw [chainWord, paddedBigBytes, habs]
    rfl

/-! ### Intents -/

/-- An intent of either kind. -/
inductive BridgeIntent where
  | create (intent : EvmCreateDealIntent)
  | update (intent : EvmUpdateContentIntent)
deriving DecidableEq

namespace BridgeIntent

/-- The nonce an intent is signed with. -/
def nonce : BridgeIntent → UInt64
  | .create intent => intent.nonce
  | .update intent => intent.nonce

/-- The numbers of the intent. -/
def numbers : BridgeIntent → List UInt64
  | .create intent => [intent.durationBlocks, intent.nonce]
  | .update intent => [intent.dealId, intent.sizeBytes, intent.nonce]

/-- The numbers are at most `2^63`. -/
def Exact (i : BridgeIntent) : Prop := ∀ x ∈ i.numbers, x.toNat ≤ 2 ^ 63

-- Over the list, and not over all of `UInt64`.
instance (i : BridgeIntent) : Decidable i.Exact := List.decidableBAll _ i.numbers

/-- The signed fields agree, where numbers agree when the relation holds. -/
def Agree (R : UInt64 → UInt64 → Prop) : BridgeIntent → BridgeIntent → Prop
  | .create i, .create j =>
      hexToAddress i.creatorEvm = hexToAddress j.creatorEvm ∧ R i.durationBlocks j.durationBlocks ∧
        i.serviceHint = j.serviceHint ∧ i.initialEscrow = j.initialEscrow ∧
        i.maxMonthlySpend = j.maxMonthlySpend ∧ R i.nonce j.nonce
  | .update i, .update j =>
      hexToAddress i.creatorEvm = hexToAddress j.creatorEvm ∧ R i.dealId j.dealId ∧ i.cid = j.cid ∧
        R i.sizeBytes j.sizeBytes ∧ R i.nonce j.nonce
  | _, _ => False

/-- Every signed field is the same. -/
def SameSigned (i j : BridgeIntent) : Prop := i.Agree (· = ·) j

/-- Intents that agree under a finer relation agree under a coarser one. -/
theorem Agree.mono {R S : UInt64 → UInt64 → Prop} {i j : BridgeIntent} (h : i.Agree R j)
    (himp : ∀ x ∈ i.numbers, ∀ y, R x y → S x y) : i.Agree S j := by
  cases i with
  | create i =>
      cases j with
      | create j =>
          obtain ⟨hcreator, hduration, hhint, hescrow, hspend, hnonce⟩ := h
          exact ⟨hcreator, himp _ (by simp [numbers]) _ hduration, hhint, hescrow, hspend,
            himp _ (by simp [numbers]) _ hnonce⟩
      | update j => exact h
  | update i =>
      cases j with
      | create j => exact h
      | update j =>
          obtain ⟨hcreator, hdeal, hcid, hsize, hnonce⟩ := h
          exact ⟨hcreator, himp _ (by simp [numbers]) _ hdeal, hcid,
            himp _ (by simp [numbers]) _ hsize, himp _ (by simp [numbers]) _ hnonce⟩

/-- The nonces of intents that agree are related. -/
theorem Agree.nonce {R : UInt64 → UInt64 → Prop} {i j : BridgeIntent} (h : i.Agree R j) :
    R i.nonce j.nonce := by
  cases i <;> cases j <;> first | exact h.elim | exact h.2.2.2.2.2 | exact h.2.2.2.2

/-- What holds of an intent and itself holds of its numbers. -/
theorem Agree.self {R : UInt64 → UInt64 → Prop} {i : BridgeIntent} (h : i.Agree R i) :
    ∀ x ∈ i.numbers, R x x := by
  cases i with
  | create i =>
      obtain ⟨-, hduration, -, -, -, hnonce⟩ := h
      simp [numbers, hduration, hnonce]
  | update i =>
      obtain ⟨-, hdeal, -, hsize, hnonce⟩ := h
      simp [numbers, hdeal, hsize, hnonce]

section Hash

variable (keccak256 : Bytes → Bytes) (encode : UInt64 → Bytes)

/-- The hash of the struct, as the handlers compute it. -/
def structHash : BridgeIntent → Bytes
  | .create intent => hashCreateDeal keccak256 intent
  | .update intent => hashUpdateContent keccak256 intent

/-- The words of the struct, with an encoding of the numbers. -/
def words : BridgeIntent → List Bytes
  | .create intent =>
      [createDealTypeHash keccak256, pad32 (hexToAddress intent.creatorEvm),
        encode intent.durationBlocks, keccak256 (utf8 intent.serviceHint),
        keccak256 (utf8 (intString intent.initialEscrow)),
        keccak256 (utf8 (intString intent.maxMonthlySpend)), encode intent.nonce]
  | .update intent =>
      [updateContentTypeHash keccak256, pad32 (hexToAddress intent.creatorEvm),
        encode intent.dealId,
        keccak256 (utf8 intent.cid), encode intent.sizeBytes, encode intent.nonce]

/-- The digest with an encoding of the numbers, in the domain of a chain. -/
def digestWith (chainId : UInt64) (i : BridgeIntent) : Bytes :=
  computeEIP712Digest keccak256 (hashDomainSeparator keccak256 chainId)
    (keccak256 (i.words keccak256 encode).flatten)

/-- What is hashed for the digest, but for the domain and the names of the types. -/
def hashedWith (chainId : UInt64) (i : BridgeIntent) : List Bytes :=
  digestPreimage (hashDomainSeparator keccak256 chainId)
    (keccak256 (i.words keccak256 encode).flatten) ::
    (i.words keccak256 encode).flatten ::
    match i with
    | .create intent => [utf8 intent.serviceHint, utf8 (intString intent.initialEscrow),
        utf8 (intString intent.maxMonthlySpend)]
    | .update intent => [utf8 intent.cid]

end Hash

/-- The handlers hash the words with the numbers as the chain writes them. -/
theorem structHash_eq (keccak256 : Bytes → Bytes) (i : BridgeIntent) :
    i.structHash keccak256 = keccak256 (i.words keccak256 chainWord).flatten := by
  cases i with
  | create intent =>
      simp only [structHash, hashCreateDeal, createDealPreimage, words, chainWord,
        List.flatten_cons, List.flatten_nil, List.append_nil, List.append_assoc]
  | update intent =>
      simp only [structHash, hashUpdateContent, updateContentPreimage, words, chainWord,
        List.flatten_cons, List.flatten_nil, List.append_nil, List.append_assoc]

/-- Encodings that agree on the numbers have the same words. -/
theorem words_congr (keccak256 : Bytes → Bytes) {encode encode' : UInt64 → Bytes} {i : BridgeIntent}
    (h : ∀ x ∈ i.numbers, encode x = encode' x) :
      i.words keccak256 encode = i.words keccak256 encode' := by
  cases i with
  | create intent =>
      simp only [words,
        h _ (show intent.durationBlocks ∈ numbers (.create intent) by simp [numbers]),
        h _ (show intent.nonce ∈ numbers (.create intent) by simp [numbers])]
  | update intent =>
      simp only [words, h _ (show intent.dealId ∈ numbers (.update intent) by simp [numbers]),
        h _ (show intent.sizeBytes ∈ numbers (.update intent) by simp [numbers]),
        h _ (show intent.nonce ∈ numbers (.update intent) by simp [numbers])]

end BridgeIntent

/-- An address has 20 bytes whatever text it is read from. -/
theorem length_hexToAddress (s : Str) : (hexToAddress s).length = 20 := by
  rw [hexToAddress, bytesToWidth, List.length_append, List.length_replicate, List.length_drop]
  omega

/-- A padded address takes one word. -/
theorem length_pad32_address (s : Str) : (pad32 (hexToAddress s)).length = 32 := by
  rw [pad32, List.length_append, List.length_replicate, length_hexToAddress]

/-- Addresses with one padding are one address. -/
theorem pad32_address_inj {s t : Str} (h : pad32 (hexToAddress s) = pad32 (hexToAddress t)) :
    hexToAddress s = hexToAddress t := by
  rw [pad32, pad32, length_hexToAddress, length_hexToAddress] at h
  exact List.append_cancel_left h

/-- The texts of amounts differ, and none is that of a missing amount. -/
theorem intString_injective : Function.Injective intString := by
  have hnil : ∀ n : Int, "<nil>".toList ≠ decimal n := by
    intro n h
    have hint : ("<nil>" : String).isInt = true := by
      rw [String.toList_inj.mp h]
      exact Int.isInt_repr n
    rcases String.isInt_iff.mp hint with hnat | ⟨t, hminus, -⟩
    · have hdigit := (String.isNat_iff.mp hnat).2.1 '<' (by decide)
      exact absurd hdigit (by decide)
    · have hhead := congrArg (fun s => s.toList.head?) hminus
      simp at hhead
  intro m n h
  cases m with
  | none =>
      cases n with
      | none => rfl
      | some n => exact absurd h (hnil n)
  | some m =>
      cases n with
      | none => exact absurd h.symm (hnil m)
      | some n => rw [decimal_injective h]

namespace BridgeIntent

section

variable {keccak256 : Bytes → Bytes} {encode encode' : UInt64 → Bytes}

/-- Every word that an intent is hashed from has 32 bytes. -/
theorem length_words (hkeccak : ∀ b, (keccak256 b).length = 32)
    (hencode : ∀ x, (encode x).length = 32)
    (i : BridgeIntent) : ∀ word ∈ i.words keccak256 encode, word.length = 32 := by
  cases i with
  | create intent =>
      simp [words, hkeccak, hencode, length_pad32_address, createDealTypeHash, keccak256String]
  | update intent =>
      simp [words, hkeccak, hencode, length_pad32_address, updateContentTypeHash, keccak256String]

/-- A digest determines the signed fields. It is a hash of the domain and of the struct, which is a
hash of words, two or three of which are hashes of texts. So the argument goes down three levels,
and at each one no two of the hashed bytes collide. -/
theorem agree_of_digest {H : Set Bytes} (hkeccak : ∀ b, (keccak256 b).length = 32)
    (hinj : Set.InjOn keccak256 H) (hencode : ∀ x, (encode x).length = 32)
    (hencode' : ∀ x, (encode' x).length = 32) {c c' : UInt64} {i j : BridgeIntent}
    (hi : ∀ b ∈ i.hashedWith keccak256 encode c, b ∈ H)
    (hj : ∀ b ∈ j.hashedWith keccak256 encode' c', b ∈ H)
    (h : i.digestWith keccak256 encode c = j.digestWith keccak256 encode' c') :
    i.Agree (fun x y => encode x = encode' y) j := by
  -- the two preimages are equal, and have the same prefix
  have hdigest := hinj (hi _ List.mem_cons_self) (hj _ List.mem_cons_self) h
  rw [digestPreimage, digestPreimage, List.append_assoc, List.append_assoc] at hdigest
  have hdomain := List.append_cancel_left hdigest
  have hstruct := List.append_inj_right hdomain
    (by rw [hashDomainSeparator, hashDomainSeparator, hkeccak, hkeccak])
  have hflat := hinj (hi _ (List.mem_cons_of_mem _ List.mem_cons_self))
    (hj _ (List.mem_cons_of_mem _ List.mem_cons_self)) hstruct
  have hwords := words_inj (by decide) (length_words hkeccak hencode i)
    (length_words hkeccak hencode' j) hflat
  cases i with
  | create i =>
      cases j with
      | create j =>
          simp only [words, List.cons.injEq, and_true] at hwords
          obtain ⟨-, hcreator, hduration, hhint, hescrow, hspend, hnonce⟩ := hwords
          refine ⟨pad32_address_inj hcreator, hduration, ?_, ?_, ?_, hnonce⟩
          -- a text and the two amounts are hashed once more
          · exact utf8_eq_of_hash hinj (hi _ (by simp [hashedWith]))
              (hj _ (by simp [hashedWith])) hhint
          · exact intString_injective (utf8_eq_of_hash hinj (hi _ (by simp [hashedWith]))
              (hj _ (by simp [hashedWith])) hescrow)
          · exact intString_injective (utf8_eq_of_hash hinj (hi _ (by simp [hashedWith]))
              (hj _ (by simp [hashedWith])) hspend)
      | update j =>
          have hlength := congrArg List.length hwords
          simp [words] at hlength
  | update i =>
      cases j with
      | create j =>
          have hlength := congrArg List.length hwords
          simp [words] at hlength
      | update j =>
          simp only [words, List.cons.injEq, and_true] at hwords
          obtain ⟨-, hcreator, hdeal, hcid, hsize, hnonce⟩ := hwords
          refine ⟨pad32_address_inj hcreator, hdeal, ?_, hsize, hnonce⟩
          exact utf8_eq_of_hash hinj (hi _ (by simp [hashedWith]))
            (hj _ (by simp [hashedWith])) hcid

end

end BridgeIntent

/-! ### Signatures and executions -/

/-- A signature recovers to an address for one digest only. -/
def RecoversOnce (env : Env β) : Prop :=
  ∀ {digest digest' sig addr : Bytes}, env.sigToAddress digest sig = some addr →
    env.sigToAddress digest' sig = some addr → digest = digest'

/-- The account has signed the intent as typed data in the domain of a chain. -/
def OwnerSigned (env : Env β) (chainId : UInt64) (intent : BridgeIntent)
    (signature signer : Bytes) : Prop :=
  env.sigToAddress (intent.digestWith env.keccak256 uint64Word chainId) signature = some signer

/-- An intent that the bridge has executed: the chain id of its domain, its signature with the
recovery id in `{0, 1}`, and the account that this recovers to. -/
structure BridgeUse where
  chainId : UInt64
  intent : BridgeIntent
  signature : Bytes
  signer : Bytes
deriving DecidableEq

/-- The use of a nonce. -/
def BridgeUse.use (u : BridgeUse) : Str × UInt64 := (lowerHex u.signer, u.intent.nonce)

/-- The bytes that are hashed when the use is checked, and when its intent is signed as it is. -/
def BridgeUse.hashed (keccak256 : Bytes → Bytes) (u : BridgeUse) : List Bytes :=
  u.intent.hashedWith keccak256 chainWord u.chainId ++
    u.intent.hashedWith keccak256 uint64Word u.chainId

/-- The execution of an intent that a handler has accepted. -/
def bridgeUse (env : Env β) (s : KeeperState β) (intent : Option BridgeIntent) (sig : Bytes) :
    List BridgeUse := Option.toList do
  let i ← intent
  let signer ← recoverEvmAddressFromDigest env
    (intentDigest env s.getParams (i.structHash env.keccak256)) sig
  return ⟨s.getParams.eip712ChainId, i, normaliseV sig, signer⟩

/-- The intent that an event has executed. -/
def Event.bridged (env : Env β) (s : KeeperState β) : Event → List BridgeUse
  | .deliver ctx (.createDealFromEvm msg) =>
      if ((createDealFromEvm env ctx msg).exec s).1.isOk then
        bridgeUse env s (msg.intent.map .create) msg.evmSignature
      else []
  | .deliver ctx (.updateDealContentFromEvm msg) =>
      if ((updateDealContentFromEvm env ctx msg).exec s).1.isOk then
        bridgeUse env s (msg.intent.map .update) msg.evmSignature
      else []
  | _ => []

/-- The intent of a message. -/
def Event.intent : Event → Option BridgeIntent
  | .deliver _ (.createDealFromEvm msg) => msg.intent.map .create
  | .deliver _ (.updateDealContentFromEvm msg) => msg.intent.map .update
  | _ => none

/-- The step is what the intent says: it makes a deal for the signer with the duration, the hint and
the amounts of the intent, or puts the content of the intent into a deal of the signer. -/
def BridgeUse.Performed (env : Env β) (ctx : Ctx) (s s' : KeeperState β) (u : BridgeUse) : Prop :=
  match u.intent with
  | .create intent => ∃ deal, DealOfIntent env ctx intent u.signer deal ∧
    DealCreated env ctx s s' u.signer deal
  | .update intent => ∃ deal root, decodeManifestRoot intent.cid = some root ∧
      ContentUpdated env ctx s s' u.signer intent.dealId.toNat (env.codec.accAddressString u.signer)
        intent.sizeBytes deal root

/-- What an execution has checked and done. -/
structure Executed (env : Env β) (ctx : Ctx) (s s' : KeeperState β) (u : BridgeUse) : Prop where
  recovers : env.sigToAddress (u.intent.digestWith env.keccak256 chainWord u.chainId) u.signature =
    some u.signer
  nonce_lt : lastUsed 0 s.evmNonces (lowerHex u.signer) < u.intent.nonce
  evmNonces : s'.evmNonces = s.evmNonces.set (lowerHex u.signer) u.intent.nonce
  performed : u.Performed env ctx s s'

/-- The executions of a run. -/
def bridgeUses (env : Env β) (s : KeeperState β) (es : List Event) : List BridgeUse :=
  trace (apply env) (fun s e => e.bridged env s) s es

/-! ### One event -/

section Events

variable {env : Env β} {ctx : Ctx} {s s' : KeeperState β}

/-- The use of an accepted intent is found again. -/
theorem bridgeUse_eq {i : BridgeIntent} {sig signer : Bytes} {creator : Str} {nonce : UInt64}
    (h : Authorized env s (i.structHash env.keccak256) sig creator nonce signer) :
    bridgeUse env s (some i) sig = [⟨s.getParams.eip712ChainId, i, normaliseV sig, signer⟩] ∧
      env.sigToAddress (i.digestWith env.keccak256 chainWord s.getParams.eip712ChainId)
        (normaliseV sig) = some signer := by
  have hrec := h.recovers
  constructor
  · rw [bridgeUse]
    simp [hrec]
  · rw [recoverEvmAddressFromDigest] at hrec
    split at hrec
    · cases hrec
    · rw [BridgeIntent.digestWith, ← BridgeIntent.structHash_eq env.keccak256 i]
      exact hrec

/-- A creation that succeeds is an execution. -/
theorem createDealFromEvm_executed {msg : MsgCreateDealFromEvm} {r : Nat}
    (h : (createDealFromEvm env ctx msg).exec s = (.ok r, s')) :
    ∃ u, bridgeUse env s (msg.intent.map .create) msg.evmSignature = [u] ∧
      msg.intent.map .create = some u.intent ∧ Executed env ctx s s' u := by
  obtain ⟨intent, signer, deal, hintent, hauth, hdeal, hcreated, -, hframe⟩ :=
    createDealFromEvm_ok h
  have hmap : msg.intent.map BridgeIntent.create = some (.create intent) := by rw [hintent]; rfl
  have hauth' : Authorized env s ((BridgeIntent.create intent).structHash env.keccak256)
      msg.evmSignature intent.creatorEvm intent.nonce signer := hauth
  obtain ⟨huse, hrec⟩ := bridgeUse_eq hauth'
  refine ⟨⟨s.getParams.eip712ChainId, .create intent, normaliseV msg.evmSignature, signer⟩, ?_,
    hmap, hrec, hauth.nonce_lt, ?_, deal, hdeal, hcreated⟩
  · rw [hmap]
    exact huse
  · rw [hframe]
    rfl

/-- An update that succeeds is an execution. -/
theorem updateDealContentFromEvm_executed {msg : MsgUpdateDealContentFromEvm} {u : Unit}
    (h : (updateDealContentFromEvm env ctx msg).exec s = (.ok u, s')) :
    ∃ u, bridgeUse env s (msg.intent.map .update) msg.evmSignature = [u] ∧
      msg.intent.map .update = some u.intent ∧ Executed env ctx s s' u := by
  obtain ⟨intent, signer, deal, root, hintent, hauth, hroot, hupdated, hframe⟩ :=
    updateDealContentFromEvm_ok h
  have hmap : msg.intent.map BridgeIntent.update = some (.update intent) := by rw [hintent]; rfl
  have hauth' : Authorized env s ((BridgeIntent.update intent).structHash env.keccak256)
      msg.evmSignature intent.creatorEvm intent.nonce signer := hauth
  obtain ⟨huse, hrec⟩ := bridgeUse_eq hauth'
  refine ⟨⟨s.getParams.eip712ChainId, .update intent, normaliseV msg.evmSignature, signer⟩, ?_,
    hmap, hrec, hauth.nonce_lt, ?_, deal, root, hroot, hupdated⟩
  · rw [hmap]
    exact huse
  · rw [hframe]
    rfl

/-- An event executes one intent and consumes its nonce, or executes none and leaves the nonces
alone. -/
theorem apply_bridged (env : Env β) (s : KeeperState β) (e : Event) :
    (e.bridged env s = [] ∧ (apply env s e).evmNonces = s.evmNonces) ∨
      ∃ u, e.bridged env s = [u] ∧ e.intent = some u.intent ∧
        Executed env e.ctx s (apply env s e) u := by
  -- only a signed message of the bridge touches the nonces
  cases e with
  | endBlock ctx =>
      refine .inl ⟨rfl, ?_⟩
      rw [apply, (checkMissedProofs_spec env ctx s).frame]
  | call ctx input =>
      cases hexec : (Precompile.run env ctx input).exec s with
      | mk res s' =>
          refine .inl ⟨rfl, ?_⟩
          rw [apply, hexec]
          exact (call_nonces hexec).2
  | deliver ctx msg =>
      -- the two messages, and each may fail, which rolls everything back
      by_cases hsigned : msg.isSigned
      · cases msg with
        | createDealFromEvm msg =>
            cases hexec : (createDealFromEvm env ctx msg).exec s with
            | mk res s' =>
                cases res with
                | error fault =>
                    have hsame : apply env s (.deliver ctx (.createDealFromEvm msg)) = s :=
                      Tx.commitOrRollback_of_error (Tx.exec_bind_error.mpr (Or.inl hexec))
                    refine .inl ⟨?_, by rw [hsame]⟩
                    rw [Event.bridged, hexec]
                    rfl
                | ok r =>
                    have hnext : apply env s (.deliver ctx (.createDealFromEvm msg)) = s' :=
                      Tx.commitOrRollback_of_ok (a := ()) (discard_ok.mpr ⟨r, hexec⟩)
                    obtain ⟨u, huse, hintent, hexecuted⟩ := createDealFromEvm_executed hexec
                    refine .inr ⟨u, ?_, hintent, ?_⟩
                    · rw [Event.bridged, hexec]
                      exact huse
                    · rw [hnext]
                      exact hexecuted
        | updateDealContentFromEvm msg =>
            cases hexec : (updateDealContentFromEvm env ctx msg).exec s with
            | mk res s' =>
                cases res with
                | error fault =>
                    have hsame : apply env s (.deliver ctx (.updateDealContentFromEvm msg)) = s :=
                      Tx.commitOrRollback_of_error hexec
                    refine .inl ⟨?_, by rw [hsame]⟩
                    rw [Event.bridged, hexec]
                    rfl
                | ok r =>
                    have hnext : apply env s (.deliver ctx (.updateDealContentFromEvm msg)) = s' :=
                      Tx.commitOrRollback_of_ok hexec
                    obtain ⟨u, huse, hintent, hexecuted⟩ := updateDealContentFromEvm_executed hexec
                    refine .inr ⟨u, ?_, hintent, ?_⟩
                    · rw [Event.bridged, hexec]
                      exact huse
                    · rw [hnext]
                      exact hexecuted
        | _ => exact hsigned.elim
      -- any other message executes no intent
      · have hnone : (Event.deliver ctx msg).bridged env s = [] := by
          cases msg <;> first | rfl | exact absurd trivial hsigned
        refine .inl ⟨hnone, ?_⟩
        rcases deliver_cases env ctx msg s with heq | hok
        · rw [heq]
        · exact (handle_frame hok).evmNonces hsigned

end Events

/-! ### Runs -/

section Runs

variable {env : Env β} {s₀ : KeeperState β} {es : List Event}

/-- The nonces of the executions of a run are consumed one after the other. -/
theorem bridgeUses_consumes (env : Env β) (s₀ : KeeperState β) (es : List Event) :
    Consumes 0 s₀.evmNonces ((bridgeUses env s₀ es).map BridgeUse.use)
      (run (apply env) s₀ es).evmNonces := by
  rw [bridgeUses, ← trace_map]
  refine run_consumes (fun _ _ => True) KeeperState.evmNonces
    (fun s (e : Event) => (e.bridged env s).map BridgeUse.use) (fun past e _ => ?_)
      (fun _ _ _ _ => trivial)
  rcases apply_bridged env (run (apply env) s₀ past) e with ⟨hnone, hsame⟩ | ⟨u, hone, -, hexecuted⟩
  · rw [hnone, hsame]
    exact .done _
  · rw [hone, hexecuted.evmNonces]
    exact .one hexecuted.nonce_lt

/-- An execution of a run is that of one of its events. -/
theorem executed_of_mem {u : BridgeUse} (h : u ∈ bridgeUses env s₀ es) :
    ∃ past e rest, es = past ++ e :: rest ∧ e.intent = some u.intent ∧
      Executed env e.ctx (run (apply env) s₀ past) (run (apply env) s₀ (past ++ [e])) u := by
  obtain ⟨past, e, rest, heq, hu⟩ := mem_trace h
  rcases apply_bridged env (run (apply env) s₀ past) e
    with ⟨hnone, -⟩ | ⟨v, hone, hintent, hexecuted⟩
  · rw [hnone] at hu
    cases hu
  · rw [hone] at hu
    obtain rfl := List.mem_singleton.mp hu
    rw [← run_snoc (apply env) s₀ past e] at hexecuted
    exact ⟨past, e, rest, heq, hintent, hexecuted⟩

/-- In the run, a signature by one account is accepted once, and only with the fields that the
account has signed, where no two of the listed bytes have one hash. -/
structure SignedOnce (env : Env β) (H : Set Bytes) (s₀ : KeeperState β) (es : List Event) :
    Prop where
  once : (bridgeUses env s₀ es).Pairwise fun u v =>
    ¬(u.signature = v.signature ∧ u.signer = v.signer)
  signed : ∀ u ∈ bridgeUses env s₀ es, ∀ chainId intent,
    (∀ b ∈ intent.hashedWith env.keccak256 uint64Word chainId, b ∈ H) →
    OwnerSigned env chainId intent u.signature u.signer → u.intent.SameSigned intent

variable {H : Set Bytes}

/-- Exact numbers have the words that a wallet writes. -/
theorem BridgeIntent.Exact.words_eq {i : BridgeIntent} (h : i.Exact) (keccak256 : Bytes → Bytes) :
    i.words keccak256 chainWord = i.words keccak256 uint64Word :=
  words_congr keccak256 fun x hx => (chainWord_eq_iff x).mpr (h x hx)

/-- Two executions under one signature have intents that agree in what the chain writes. -/
theorem agree_of_signature (hrecover : RecoversOnce env) (hinj : Set.InjOn env.keccak256 H)
    (hashed : ∀ u ∈ bridgeUses env s₀ es, ∀ b ∈ u.hashed env.keccak256, b ∈ H) {u v : BridgeUse}
    (hu : u ∈ bridgeUses env s₀ es) (hv : v ∈ bridgeUses env s₀ es)
    (hsig : u.signature = v.signature) (hsigner : u.signer = v.signer) :
    u.intent.Agree (fun x y => chainWord x = chainWord y) v.intent := by
  obtain ⟨_, _, _, -, -, hexu⟩ := executed_of_mem hu
  obtain ⟨_, _, _, -, -, hexv⟩ := executed_of_mem hv
  have hrecu := hexu.recovers
  rw [hsig, hsigner] at hrecu
  exact BridgeIntent.agree_of_digest env.length_keccak256 hinj length_chainWord length_chainWord
    (fun b hb => hashed u hu b (List.mem_append_left _ hb))
    (fun b hb => hashed v hv b (List.mem_append_left _ hb)) (hrecover hrecu hexv.recovers)

/-- An execution has the fields that its account has signed, but for numbers above `2^63`. -/
theorem agree_of_ownerSigned (hrecover : RecoversOnce env) (hinj : Set.InjOn env.keccak256 H)
    (hashed : ∀ u ∈ bridgeUses env s₀ es, ∀ b ∈ u.hashed env.keccak256, b ∈ H) {u : BridgeUse}
    (hu : u ∈ bridgeUses env s₀ es) {chainId : UInt64} {intent : BridgeIntent}
    (hintent : ∀ b ∈ intent.hashedWith env.keccak256 uint64Word chainId, b ∈ H)
    (hsigned : OwnerSigned env chainId intent u.signature u.signer) :
    u.intent.Agree (fun x y => chainWord x = uint64Word y) intent := by
  obtain ⟨_, _, _, -, -, hexu⟩ := executed_of_mem hu
  exact BridgeIntent.agree_of_digest env.length_keccak256 hinj length_chainWord length_uint64Word
    (fun b hb => hashed u hu b (List.mem_append_left _ hb)) hintent (hrecover hexu.recovers hsigned)

/-- An accepted intent is the one that was signed exactly when its numbers are at most `2^63`. Where
all messages keep to such numbers, a signature is accepted once, with the fields that were signed.
The encoder of the chain writes larger numbers as other ones, and this is all that can go wrong. -/
theorem bridge_signature_once (env : Env β) (hrecover : RecoversOnce env) (H : Set Bytes)
    (hinj : Set.InjOn env.keccak256 H) (s₀ : KeeperState β) (es : List Event)
    (hashed : ∀ u ∈ bridgeUses env s₀ es, ∀ b ∈ u.hashed env.keccak256, b ∈ H) :
    ((∀ e ∈ es, ∀ i ∈ e.intent, i.Exact) → SignedOnce env H s₀ es) ∧
      ∀ u ∈ bridgeUses env s₀ es,
        (OwnerSigned env u.chainId u.intent u.signature u.signer ↔ u.intent.Exact) ∧
        ∃ past e rest, es = past ++ e :: rest ∧
          u.Performed env e.ctx (run (apply env) s₀ past) (run (apply env) s₀ (past ++ [e])) := by
  constructor
  -- where the numbers are exact, no later use can have the nonce of an earlier one
  · intro hexact
    have hnumbers : ∀ u ∈ bridgeUses env s₀ es, u.intent.Exact := by
      intro u hu
      obtain ⟨past, e, rest, rfl, hintent, -⟩ := executed_of_mem hu
      exact hexact e (by simp) _ hintent
    have hincreasing := List.pairwise_map.mp (bridgeUses_consumes env s₀ es).increasing
    refine ⟨?_, fun u hu chainId intent hintent hsigned => ?_⟩
    · refine List.Pairwise.imp_of_mem ?_ hincreasing
      rintro u v hu hv hlt ⟨hsig, hsigner⟩
      -- The chain writes the same nonce for both, so it is the same nonce.
      have hnonce := (agree_of_signature hrecover hinj hashed hu hv hsig hsigner).nonce
      have hu' : u.intent.nonce ∈
        u.intent.numbers := by cases u.intent <;> simp [BridgeIntent.nonce, BridgeIntent.numbers]
      have hv' : v.intent.nonce ∈
        v.intent.numbers := by cases v.intent <;> simp [BridgeIntent.nonce, BridgeIntent.numbers]
      rw [(chainWord_eq_iff _).mpr (hnumbers u hu _ hu'),
        (chainWord_eq_iff _).mpr (hnumbers v hv _ hv'),
        uint64Word_inj] at hnonce
      have hless := hlt (show lowerHex u.signer = lowerHex v.signer by rw [hsigner])
      rw [BridgeUse.use, BridgeUse.use, hnonce] at hless
      exact UInt64.lt_irrefl _ hless
    · refine (agree_of_ownerSigned hrecover hinj hashed hu hintent hsigned).mono
        fun x hx y hxy => ?_
      rw [(chainWord_eq_iff x).mpr (hnumbers u hu x hx)] at hxy
      exact uint64Word_inj.mp hxy
  · intro u hu
    obtain ⟨past, e, rest, heq, -, hexecuted⟩ := executed_of_mem hu
    refine ⟨⟨fun hsigned x hx => ?_, fun hexact => ?_⟩, past, e, rest, heq, hexecuted.performed⟩
    · have hagree := agree_of_ownerSigned hrecover hinj hashed hu
        (fun b hb => hashed u hu b (List.mem_append_right _ hb)) hsigned
      exact (chainWord_eq_iff x).mp (hagree.self x hx)
    · rw [OwnerSigned, BridgeIntent.digestWith, ← hexact.words_eq]
      exact hexecuted.recovers

end Runs

/-! ### On the small chain -/

/-- A book in which no signature is listed twice recovers each signature for one digest. -/
theorem recoversOnce_bookEnv {book : AddressBook} {keccak sha : HashTable}
    {signers : List (Bytes × Bytes × Bytes)} {assignFuel : Nat}
    (h : (signers.map fun e => e.2.1).Nodup) :
    RecoversOnce (bookEnv book keccak sha signers assignFuel) := by
  have hlisted : ∀ {digest sig addr : Bytes},
      (bookEnv book keccak sha signers assignFuel).sigToAddress digest sig = some addr →
      ∃ e ∈ signers, e.1 = digest ∧ e.2.1 = sig := by
    intro digest sig addr hrec
    simp only [bookEnv, Option.map_eq_some_iff] at hrec
    obtain ⟨e, hfind, -⟩ := hrec
    exact ⟨e, List.mem_of_find?_eq_some hfind, by simpa using List.find?_some hfind⟩
  intro digest digest' sig addr hrec hrec'
  obtain ⟨e, he, rfl, hsig⟩ := hlisted hrec
  obtain ⟨e', he', rfl, hsig'⟩ := hlisted hrec'
  rw [List.inj_on_of_nodup_map h he he' (hsig.trans hsig'.symm)]

/-- On the sample chain each signature recovers one account for one digest only. -/
theorem bridgeEnv_recoversOnce : RecoversOnce bridgeEnv := recoversOnce_bookEnv (by decide +kernel)

/-- The sample digests are distinct. -/
theorem bridgeKeccak_injOn :
    Set.InjOn bridgeEnv.keccak256 {x | x ∈ bridgeKeccak.entries.map (·.1)} :=
  HashTable.injOn_hash (by decide +kernel)

/-- The account's creation and update. -/
def honestRun : List Event :=
  [.deliver (ctxAt 1) (.createDealFromEvm (createBridgeMsg 5)),
    .deliver (ctxAt 1) (.updateDealContentFromEvm contentBridgeMsg)]

/-- The creation, and the creation with another nonce under the same signature. -/
def replayRun : List Event :=
  [.deliver (ctxAt 1) (.createDealFromEvm (createBridgeMsg 5)),
    .deliver (ctxAt 1) (.createDealFromEvm (createBridgeMsg 18446744073709551611))]

/-- The honest run uses each signature once. -/
theorem honest_uses : bridgeUses bridgeEnv registeredState honestRun =
    [⟨31337, .create (createIntent 5), createSignature, signerAddr⟩,
      ⟨31337, .update contentIntent, contentSignature, signerAddr⟩] := by
  decide +kernel

/-- What is hashed for the account's creation and update is listed. -/
theorem honest_hashed : ∀ u ∈ bridgeUses bridgeEnv registeredState honestRun,
    ∀ b ∈ u.hashed bridgeEnv.keccak256, b ∈ bridgeKeccak.entries.map (·.1) := by
  rw [honest_uses]
  decide +kernel

/-- The account's creation and update are accepted once. -/
theorem bridge_signature_once_honest :
    SignedOnce bridgeEnv {x | x ∈ bridgeKeccak.entries.map (·.1)} registeredState honestRun ∧
      (bridgeUses bridgeEnv registeredState honestRun).length = 2 :=
  ⟨(bridge_signature_once bridgeEnv bridgeEnv_recoversOnce _ bridgeKeccak_injOn
      registeredState honestRun
      honest_hashed).1 (by decide +kernel), by rw [honest_uses]; rfl⟩

/-- Two creations are accepted under one signature, over the nonce 5, which the second one does not
have. -/
theorem bridge_signature_twice :
    RecoversOnce bridgeEnv ∧
      Set.InjOn bridgeEnv.keccak256 {x | x ∈ bridgeKeccak.entries.map (·.1)} ∧
      bridgeUses bridgeEnv registeredState replayRun =
        [⟨31337, .create (createIntent 5), createSignature, signerAddr⟩,
          ⟨31337, .create (createIntent 18446744073709551611), createSignature, signerAddr⟩] ∧
      (∀ u ∈ bridgeUses bridgeEnv registeredState replayRun,
        ∀ b ∈ u.intent.hashedWith bridgeEnv.keccak256 chainWord u.chainId,
          b ∈ bridgeKeccak.entries.map (·.1)) ∧
      OwnerSigned bridgeEnv 31337 (.create (createIntent 5)) createSignature signerAddr ∧
      ¬SignedOnce bridgeEnv {x | x ∈ bridgeKeccak.entries.map (·.1)} registeredState replayRun := by
  have huses : bridgeUses bridgeEnv registeredState replayRun =
      [⟨31337, .create (createIntent 5), createSignature, signerAddr⟩,
        ⟨31337, .create (createIntent 18446744073709551611), createSignature, signerAddr⟩] := by
    decide +kernel
  have hsigned : bridgeEnv.sigToAddress ((BridgeIntent.create (createIntent 5)).digestWith
      bridgeEnv.keccak256 uint64Word 31337) createSignature = some signerAddr := by
    decide +kernel
  -- the two uses have one signature and one signer
  refine ⟨bridgeEnv_recoversOnce, bridgeKeccak_injOn, huses, by rw [huses]; decide +kernel, hsigned,
    fun h => ?_⟩
  have honce := h.once
  rw [huses] at honce
  exact (List.pairwise_cons.mp honce).1 _ (List.mem_singleton.mpr rfl) ⟨rfl, rfl⟩

end NilStore.Chain
