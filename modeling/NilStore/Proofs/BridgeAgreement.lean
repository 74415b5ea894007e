import NilStore.Chain.Ledger

/-!
# `NilStore.Proofs.BridgeAgreement`: the EVM bridge does what the owner's own messages do

`CreateDealFromEvm` and `UpdateDealContentFromEvm` are copies of `CreateDeal` and
`UpdateDealContent`, which check in another order. Take an intent that the bridge accepts as
signed: it names this chain and its signer, the signature recovers to that signer, and the nonce is
new. Then the handler of the bridge succeeds exactly when the native one does for the bech32 text
of the signer, and the states that they leave differ in the nonce alone (`bridge_agrees`).

The owner of a deal can be another account only through an `owner=` in the service hint, which the
bridge ignores. So the statement about creations is for hints without one.
-/

set_option autoImplicit false

namespace NilStore.Chain

open NilStore.Lib

variable {β : Type}

/-! ### Intents that the bridge accepts as signed -/

/-- The intent is for this chain, names its signer, and is signed by it with a new nonce. -/
structure SignedIntent (env : Env β) (ctx : Ctx) (s : KeeperState β) (structHash sig : Bytes)
    (creatorEvm chainId : Str) (nonce : UInt64) (evmAddr : Bytes) : Prop where
  chain : trimSpace chainId = ctx.chainId
  named : toLower (trimSpace creatorEvm) ≠ []
  authorized : Authorized env s structHash sig creatorEvm nonce evmAddr

/-- The text is the bech32 text of the account. -/
structure OwnerText (codec : AddressCodec) (owner : Str) (addr : Bytes) : Prop where
  prints : codec.accAddressString addr = owner
  reads : codec.accAddressFromBech32 owner = some addr

/-- The state after a handler of the bridge: that of the native handler, with the nonce consumed. -/
def withEvmNonce (evmAddr : Bytes) (nonce : UInt64) (s : KeeperState β) : KeeperState β :=
  { s with evmNonces := s.evmNonces.set (lowerHex evmAddr) nonce }

/-- The two handlers succeed on the same states, with related answers, and then leave the same
state but for the nonce. -/
structure AgreesWith {α γ : Type} (evmAddr : Bytes) (nonce : UInt64) (answers : α → γ → Prop)
    (s : KeeperState β) (bridge : Handler β α) (native : Handler β γ) : Prop where
  of_bridge : ∀ {a s'}, bridge.exec s = (.ok a, s') →
    ∃ c s₂, native.exec s = (.ok c, s₂) ∧ answers a c ∧ s' = withEvmNonce evmAddr nonce s₂
  of_native : ∀ {c s₂}, native.exec s = (.ok c, s₂) →
    ∃ a, bridge.exec s = (.ok a, withEvmNonce evmAddr nonce s₂) ∧ answers a c

section Intents

variable {env : Env β} {ctx : Ctx} {s : KeeperState β} {structHash sig evmAddr : Bytes}
  {creatorEvm chainId : Str} {nonce : UInt64}

/-- An authorised signature has 65 bytes. -/
theorem Authorized.length_sig (h : Authorized env s structHash sig creatorEvm nonce evmAddr) :
    sig.length = 65 := by
  by_contra hlength
  have hrec := h.recovers
  rw [recoverEvmAddressFromDigest, if_pos hlength] at hrec
  cases hrec

/-- A signed intent passes, and its nonce is consumed. -/
theorem SignedIntent.authorizeIntent_bind {α : Type}
    (h : SignedIntent env ctx s structHash sig creatorEvm chainId nonce evmAddr)
    (g : Bytes → Handler β α) :
    (authorizeIntent env structHash sig creatorEvm nonce >>= g).exec s =
      (g evmAddr).exec (withEvmNonce evmAddr nonce s) := by
  obtain ⟨hrec, hclaimed, hnonce⟩ := h.authorized
  have hnew : ¬nonce ≤ lastNonce s.evmNonces (lowerHex evmAddr) := UInt64.not_le.mpr hnonce
  have hexec : (authorizeIntent env structHash sig creatorEvm nonce).exec s =
      (.ok evmAddr, withEvmNonce evmAddr nonce s) := by
    simp only [authorizeIntent, Tx.exec_gets_bind, Tx.exec_ofExcept_bind_ok,
      Tx.exec_failIf_bind_ok, Tx.exec_update_bind, Tx.exec_pure, orFail_eq_ok, not_not]
    exact ⟨evmAddr, hrec, h.named, hclaimed, hnew, rfl⟩
  rw [Tx.exec_bind, hexec]

end Intents

/-! ### Updating the content -/

/-- The native message for an update intent. -/
def EvmUpdateContentIntent.native (owner : Str) (intent : EvmUpdateContentIntent) :
    MsgUpdateDealContent :=
  ⟨owner, intent.dealId, intent.cid, intent.sizeBytes⟩

section Update

variable {env : Env β} {ctx : Ctx} {s : KeeperState β} {msg : MsgUpdateDealContentFromEvm}
  {intent : EvmUpdateContentIntent} {owner : Str} {evmAddr : Bytes}

/-- For a signed intent the content update through the bridge does what the native message of the
same owner does. The two make the same checks in another order: the bridge looks at the cid and the
size first, the native message last. -/
theorem updateDealContentFromEvm_agrees (hintent : msg.intent = some intent)
    (hsigned : SignedIntent env ctx s (hashUpdateContent env.keccak256 intent) msg.evmSignature
      intent.creatorEvm intent.chainId intent.nonce evmAddr)
    (howner : OwnerText env.codec owner evmAddr) :
    AgreesWith evmAddr intent.nonce (fun _ _ => True) s (updateDealContentFromEvm env ctx msg)
      (updateDealContent env ctx (intent.native owner)) := by
  -- the checks that only the bridge has are passed by a signed intent
  have hlength : ¬msg.evmSignature.length ≠ 65 := not_not.mpr hsigned.authorized.length_sig
  have hchain : ¬trimSpace intent.chainId ≠ ctx.chainId := not_not.mpr hsigned.chain
  -- the native message, with the fields that it takes from the intent
  obtain ⟨m, hnative⟩ : ∃ m, m = intent.native owner := ⟨_, rfl⟩
  obtain ⟨hcreator, hid, hcid', hsize'⟩ : m.creator = owner ∧ m.dealId = intent.dealId ∧
      m.cid = intent.cid ∧ m.size = intent.sizeBytes := by
    rw [hnative]
    exact ⟨rfl, rfl, rfl, rfl⟩
  rw [← hnative]
  constructor
  -- a success of the bridge is one of the native message
  · intro a s' h
    simp only [updateDealContentFromEvm, Tx.exec_ofExcept_bind_ok, Tx.exec_failIf_bind_ok,
      Tx.exec_gets_bind, orFail_eq_ok] at h
    obtain ⟨intent', hintent', hcid, hsize, -, -, h⟩ := h
    rw [hintent] at hintent'
    cases hintent'
    rw [hsigned.authorizeIntent_bind] at h
    simp only [Tx.exec_reads_bind_ok, Tx.exec_failIf_bind_ok, payTermDeposit_bind_ok,
      Tx.exec_ofExcept_bind_ok, Tx.exec_update, orFail_eq_ok, Prod.mk.injEq, not_not] at h
    obtain ⟨deal, hget, hdeal, b, hpaid, root, hroot, -, rfl⟩ := h
    refine ⟨(), { s with
      bank := b
      deals := s.deals.set intent.dealId.toNat
        (commitContent deal root intent.sizeBytes
          (depositPaid s.getParams deal intent.sizeBytes)) }, ?_, trivial, rfl⟩
    simp only [updateDealContent, Tx.exec_ofExcept_bind_ok, Tx.exec_reads_bind_ok,
      Tx.exec_failIf_bind_ok, Tx.exec_gets_bind, payTermDeposit_bind_ok, Tx.exec_update,
      orFail_eq_ok, not_not]
    rw [hcreator, hid, hcid', hsize']
    exact ⟨evmAddr, howner.reads, deal, hget, hdeal.trans howner.prints, b, hpaid,
      hcid, hsize, root, hroot, rfl⟩
  · intro c s₂ h
    simp only [updateDealContent, Tx.exec_ofExcept_bind_ok, Tx.exec_reads_bind_ok,
      Tx.exec_failIf_bind_ok, Tx.exec_gets_bind, payTermDeposit_bind_ok, Tx.exec_update,
      orFail_eq_ok, Prod.mk.injEq, not_not] at h
    rw [hcreator, hid, hcid', hsize'] at h
    obtain ⟨payer, hpayer, deal, hget, hdeal, b, hpaid, hcid, hsize, root, hroot, -, rfl⟩ := h
    rw [howner.reads] at hpayer
    cases hpayer
    refine ⟨(), ?_, trivial⟩
    simp only [updateDealContentFromEvm, Tx.exec_ofExcept_bind_ok, Tx.exec_failIf_bind_ok,
      Tx.exec_gets_bind, orFail_eq_ok]
    refine ⟨intent, hintent, hcid, hsize, hchain, hlength, ?_⟩
    rw [hsigned.authorizeIntent_bind]
    simp only [Tx.exec_reads_bind_ok, Tx.exec_failIf_bind_ok, payTermDeposit_bind_ok,
      Tx.exec_ofExcept_bind_ok, Tx.exec_update, orFail_eq_ok, not_not]
    exact ⟨deal, hget, hdeal.trans howner.prints.symm, b, hpaid, root, hroot, rfl⟩

end Update

/-! ### Creating a deal -/

/-- The native message for a creation intent. -/
def EvmCreateDealIntent.native (owner : Str) (intent : EvmCreateDealIntent) : MsgCreateDeal where
  creator := owner
  durationBlocks := intent.durationBlocks
  serviceHint := intent.serviceHint
  maxMonthlySpend := intent.maxMonthlySpend
  initialEscrowAmount := intent.initialEscrow

/-- The hint names no owner. -/
def NoOwnerOverride (serviceHint : Str) : Prop :=
  ∀ hint, parseServiceHint (trimSpace serviceHint) = .ok hint → hint.owner = []

section Create

variable {env : Env β} {ctx : Ctx} {s : KeeperState β} {msg : MsgCreateDealFromEvm}
  {intent : EvmCreateDealIntent} {owner : Str} {evmAddr : Bytes}

/-- For a signed intent the creation through the bridge does what the native message of the same
owner does, if the hint names no owner. A hint with an owner would make the native deal that
owner's, where the bridge gives it to the signer. -/
theorem createDealFromEvm_agrees (hintent : msg.intent = some intent) (hnamed : ctx.chainId ≠ [])
    (hsigned : SignedIntent env ctx s (hashCreateDeal env.keccak256 intent) msg.evmSignature
      intent.creatorEvm intent.chainId intent.nonce evmAddr)
    (howner : OwnerText env.codec owner evmAddr) (hhint : NoOwnerOverride intent.serviceHint) :
    AgreesWith evmAddr intent.nonce (fun dealId r => r.dealId = dealId) s
      (createDealFromEvm env ctx msg) (createDeal env ctx (intent.native owner)) := by
  -- the checks that only the bridge has are passed by a signed intent
  have hlength : ¬msg.evmSignature.length ≠ 65 := not_not.mpr hsigned.authorized.length_sig
  have hchain : ¬(trimSpace intent.chainId = [] ∨ trimSpace intent.chainId ≠ ctx.chainId) := by
    rw [hsigned.chain]
    rintro (hempty | hother)
    · exact hnamed hempty
    · exact hother rfl
  -- the native message, with the fields that it takes from the intent
  obtain ⟨m, hnative⟩ : ∃ m, m = intent.native owner := ⟨_, rfl⟩
  obtain ⟨hcreator, hduration', hhint', hspend', hescrow'⟩ : m.creator = owner ∧
      m.durationBlocks = intent.durationBlocks ∧ m.serviceHint = intent.serviceHint ∧
      m.maxMonthlySpend = intent.maxMonthlySpend ∧
      m.initialEscrowAmount = intent.initialEscrow := by
    rw [hnative]
    exact ⟨rfl, rfl, rfl, rfl, rfl⟩
  rw [← hnative]
  constructor
  -- a success of the bridge is one of the native message
  · intro r s' h
    simp only [createDealFromEvm, Tx.exec_ofExcept_bind_ok, Tx.exec_failIf_bind_ok,
      Tx.exec_gets_bind, orFail_eq_ok, nonNegative_eq_ok] at h
    obtain ⟨intent', hintent', hduration, escrow, hescrow, spend, hspend, -, -, hmin, h⟩ := h
    rw [hintent] at hintent'
    cases hintent'
    rw [hsigned.authorizeIntent_bind] at h
    simp only [payDealCreationFee_bind_ok, Tx.exec_ofExcept_bind_ok, Tx.exec_failIf_bind_ok,
      nextDealId_bind, Tx.exec_reads_bind_ok, bankCall_bind_ok, Tx.exec_update_bind, Tx.exec_pure,
      mapError_eq_ok, Prod.mk.injEq, Except.ok.injEq] at h
    obtain ⟨b₁, hfee, hint, hparsed, stripe, hstripe, hbase, assigned, hassign, b₂, hsend, rfl,
      rfl⟩ := h
    have hdealOwner : dealOwner env.codec owner hint = .ok owner := if_pos (hhint hint hparsed)
    refine ⟨⟨s.dealCount, assigned⟩, { s with
      bank := b₂
      dealCount := s.dealCount + 1
      deals := s.deals.set s.dealCount (newDeal ctx s.dealCount owner escrow spend
        intent.durationBlocks hint stripe.2 assigned) }, ?_, rfl, ?_⟩
    · simp only [createDeal, Tx.exec_ofExcept_bind_ok, Tx.exec_gets_bind, Tx.exec_failIf_bind_ok,
        payDealCreationFee_bind_ok, nextDealId_bind, Tx.exec_reads_bind_ok, bankCall_bind_ok,
        Tx.exec_update_bind, Tx.exec_pure, orFail_eq_ok, mapError_eq_ok, nonNegative_eq_ok]
      rw [hcreator, hduration', hhint', hspend', hescrow']
      exact ⟨evmAddr, howner.reads, hmin, b₁, hfee, hint, hparsed, owner, hdealOwner, stripe,
        hstripe, assigned, hassign, hduration, hbase, escrow, hescrow, spend, hspend,
        b₂, hsend, rfl⟩
    · rw [howner.prints]
      rfl
  · intro r s₂ h
    simp only [createDeal, Tx.exec_ofExcept_bind_ok, Tx.exec_gets_bind, Tx.exec_failIf_bind_ok,
      payDealCreationFee_bind_ok, nextDealId_bind, Tx.exec_reads_bind_ok, bankCall_bind_ok,
      Tx.exec_update_bind, Tx.exec_pure, orFail_eq_ok, mapError_eq_ok, nonNegative_eq_ok,
      Prod.mk.injEq, Except.ok.injEq] at h
    rw [hcreator, hduration', hhint', hspend', hescrow'] at h
    obtain ⟨payer, hpayer, hmin, b₁, hfee, hint, hparsed, owner', hdealOwner, stripe, hstripe,
      assigned, hassign, hduration, hbase, escrow, hescrow, spend, hspend, b₂, hsend, rfl, rfl⟩ := h
    rw [howner.reads] at hpayer
    cases hpayer
    rw [dealOwner, if_pos (hhint hint hparsed)] at hdealOwner
    cases hdealOwner
    refine ⟨s.dealCount, ?_, rfl⟩
    -- the same facts, in the order of the bridge
    simp only [createDealFromEvm, Tx.exec_ofExcept_bind_ok, Tx.exec_failIf_bind_ok,
      Tx.exec_gets_bind, orFail_eq_ok, nonNegative_eq_ok]
    refine ⟨intent, hintent, hduration, escrow, hescrow, spend, hspend, hchain, hlength, hmin, ?_⟩
    rw [hsigned.authorizeIntent_bind]
    simp only [payDealCreationFee_bind_ok, Tx.exec_ofExcept_bind_ok, Tx.exec_failIf_bind_ok,
      nextDealId_bind, Tx.exec_reads_bind_ok, bankCall_bind_ok, Tx.exec_update_bind, Tx.exec_pure,
      mapError_eq_ok]
    refine ⟨b₁, hfee, hint, hparsed, stripe, hstripe, hbase, assigned, hassign, b₂, hsend, ?_⟩
    rw [howner.prints]
    rfl

end Create

/-! ### The statement -/

/-- What the bridge does for a signed intent is what the native handlers do for its owner, for
content updates and for creations. Each succeeds exactly when the other does, and then the states
differ in the recorded nonce only. A creation asks for a chain with an id, since the bridge refuses
an empty one, and for a hint that names no owner of its own. -/
theorem bridge_agrees (env : Env β) (ctx : Ctx) (s : KeeperState β) (owner : Str) (evmAddr : Bytes)
    (howner : OwnerText env.codec owner evmAddr) :
    (∀ msg intent, msg.intent = some intent →
      SignedIntent env ctx s (hashUpdateContent env.keccak256 intent) msg.evmSignature
        intent.creatorEvm intent.chainId intent.nonce evmAddr →
      AgreesWith evmAddr intent.nonce (fun _ _ => True) s (updateDealContentFromEvm env ctx msg)
        (updateDealContent env ctx (intent.native owner))) ∧
    (∀ msg intent, msg.intent = some intent → ctx.chainId ≠ [] →
      SignedIntent env ctx s (hashCreateDeal env.keccak256 intent) msg.evmSignature
        intent.creatorEvm intent.chainId intent.nonce evmAddr →
      NoOwnerOverride intent.serviceHint →
      AgreesWith evmAddr intent.nonce (fun dealId r => r.dealId = dealId) s
        (createDealFromEvm env ctx msg) (createDeal env ctx (intent.native owner))) := by
  refine ⟨?_, ?_⟩
  · intro msg intent hintent hsigned
    exact updateDealContentFromEvm_agrees hintent hsigned howner
  · intro msg intent hintent hnamed hsigned hhint
    exact createDealFromEvm_agrees hintent hnamed hsigned howner hhint

/-! ### On a small chain -/

/-- A deal that the EVM account asks for, and content for it. -/
def createIntent (nonce : UInt64) : EvmCreateDealIntent where
  creatorEvm := lowerHex signerAddr
  durationBlocks := 100
  serviceHint := "General".toList
  initialEscrow := some 1000
  maxMonthlySpend := some 1000
  nonce := nonce
  chainId := "test-1".toList

/-- The content update of the sample run, with a nonce after that of the creation. -/
def contentIntent : EvmUpdateContentIntent where
  creatorEvm := lowerHex signerAddr
  dealId := 0
  cid := List.replicate 96 '0'
  sizeBytes := 1
  nonce := 6
  chainId := "test-1".toList

/-- The Keccak-256 of the type, the hint, the amounts, the struct and the digest of the creation
with nonce 5, and of the type, the root, the struct and the digest of the update. -/
def bridgeHashes : List Bytes :=
  -- in this order; each is the hash of the bytes at its place in the list of preimages
  [[0xc4, 0xb3, 0x27, 0x0d, 0x10, 0xe1, 0x66, 0x87, 0x5b, 0x58, 0x76, 0x86, 0x47, 0x7d, 0x7c,
     0x02, 0xef, 0xef, 0x05, 0x91, 0xd6, 0x0c, 0x6a, 0xdc, 0x82, 0x3f, 0x03, 0xb9, 0x6b, 0x19,
     0xb2, 0xdf],
    [0x5a, 0x23, 0x87, 0x24, 0xf4, 0x92, 0x3a, 0x50, 0x4a, 0x7b, 0xc7, 0xb1, 0xda, 0x49, 0xb8,
     0xad, 0x37, 0x18, 0x76, 0x64, 0xeb, 0x29, 0x29, 0x80, 0xfe, 0xf1, 0x9a, 0x34, 0x41, 0x92,
     0x8b, 0x2c],
    [0xd6, 0x30, 0x87, 0xbe, 0xa9, 0xf1, 0x80, 0x0e, 0xed, 0x94, 0x38, 0x29, 0xfc, 0x1d, 0x61,
     0xe7, 0x86, 0x97, 0x64, 0x80, 0x5b, 0xaa, 0x32, 0x59, 0x07, 0x8c, 0x1c, 0xaf, 0x3d, 0x4f,
     0x5a, 0x48],
    [0xe7, 0x6b, 0xb4, 0x21, 0x72, 0x6d, 0xce, 0xa6, 0x95, 0x74, 0x82, 0x30, 0x12, 0xda, 0xb3,
     0x94, 0x2f, 0xcc, 0xff, 0x62, 0xaf, 0xba, 0xd2, 0xb3, 0xa2, 0xaf, 0x32, 0x88, 0x83, 0xda,
     0xd8, 0x9f],
    [0x8f, 0x58, 0xd2, 0x30, 0xb4, 0xb2, 0x6a, 0xa3, 0x03, 0x41, 0xa2, 0x64, 0x53, 0x62, 0x31,
     0x86, 0xbb, 0x29, 0xe8, 0x81, 0x51, 0xfa, 0x9c, 0x83, 0x87, 0x23, 0x01, 0x45, 0xf2, 0xd1,
     0x63, 0x65],
    [0xf9, 0x54, 0x51, 0x6d, 0xcf, 0x89, 0x4c, 0x99, 0x53, 0x9b, 0xb1, 0x0d, 0xcc, 0x8b, 0xd0,
     0x2b, 0x56, 0x3d, 0x9d, 0x00, 0x92, 0x03, 0x23, 0x10, 0x3a, 0x4f, 0x2e, 0x38, 0x1e, 0x3b,
     0x91, 0xf6],
    [0xd7, 0x98, 0x73, 0x0f, 0x79, 0x86, 0xda, 0x09, 0x7f, 0x97, 0x62, 0xd3, 0xb0, 0x4c, 0x94,
     0xc3, 0x39, 0x28, 0xfa, 0xb0, 0x2d, 0x94, 0x78, 0xa7, 0x21, 0x0b, 0x90, 0x95, 0x7c, 0xd2,
     0x04, 0x26],
    [0x3d, 0xa3, 0xd6, 0xda, 0x27, 0xf8, 0x14, 0xc0, 0xd6, 0x2d, 0x1f, 0x36, 0xe8, 0xa3, 0x2a,
     0x44, 0x31, 0x1e, 0x28, 0xcf, 0x89, 0xd4, 0x0d, 0x75, 0xe9, 0x1d, 0x1e, 0xa4, 0xee, 0x29,
     0x1b, 0x19],
    [0x6b, 0x95, 0xcb, 0xd4, 0x10, 0x20, 0xa5, 0xbe, 0xf5, 0xe6, 0xae, 0xe2, 0x15, 0x24, 0xbd,
     0x6e, 0xdf, 0xf1, 0x52, 0xb9, 0x53, 0xcf, 0xdd, 0x91, 0xfe, 0x82, 0x9d, 0x58, 0x80, 0x8b,
     0xde, 0x02]]

/-- The `i`-th of the sample digests. -/
def bridgeHash (i : Nat) : Bytes := bridgeHashes.getD i []

/-- What these hashes are of. -/
def bridgePreimages : List Bytes :=
  [utf8 ("CreateDeal(address creator,uint64 duration,string service_hint,string initial_escrow," ++
      "string max_monthly_spend,uint64 nonce)").toList,
    utf8 "General".toList, utf8 "1000".toList,
    bridgeHash 0 ++ pad32 signerAddr ++ paddedBigBytes 100 ++ bridgeHash 1 ++ bridgeHash 2 ++
      bridgeHash 2 ++ paddedBigBytes 5,
    digestPreimage (domainHashes.getD 3 []) (bridgeHash 3),
    utf8
      ("UpdateContent(address creator,uint64 deal_id,string cid,uint64 size,uint64 nonce)").toList,
    utf8 (List.replicate 96 '0'),
    bridgeHash 5 ++ pad32 signerAddr ++ paddedBigBytes 0 ++ bridgeHash 6 ++ paddedBigBytes 1 ++
      paddedBigBytes 6,
    digestPreimage (domainHashes.getD 3 []) (bridgeHash 7)]

/-- The digests of the two sample intents and of the domain they are signed for. -/
def bridgeKeccak : HashTable where
  entries := domainPreimages.zip domainHashes ++ bridgePreimages.zip bridgeHashes
  lengths := by decide +kernel

/-- The signatures of the EVM account over the two digests. -/
def createSignature : Bytes :=
  [0x0f, 0x88, 0x91, 0xf9, 0xb7, 0x09, 0xd8, 0x11, 0x45, 0xe5, 0x0f, 0x17, 0x1f, 0xf6, 0xd0,
   0xdb, 0x6e, 0xfe, 0x20, 0xc5, 0x95, 0x98, 0xb5, 0x83, 0x34, 0xea, 0xbc, 0x64, 0x1a, 0x9a,
   0xc6, 0xfb, 0x67, 0x6d, 0x86, 0x74, 0xe1, 0xf1, 0x1e, 0x38, 0x79, 0xa5, 0xdd, 0x66, 0xbf,
   0x50, 0x10, 0x60, 0xfa, 0xbc, 0x77, 0xe6, 0x06, 0x03, 0x98, 0x64, 0x1d, 0x47, 0x07, 0xb9,
   0x9e, 0xe2, 0xa8, 0x3e, 0x00]

/-- The signature over the content update. -/
def contentSignature : Bytes :=
  [0x7c, 0x15, 0x55, 0xf8, 0x81, 0x7a, 0x82, 0x06, 0x8f, 0x42, 0xe3, 0x48, 0xd8, 0x75, 0x94,
   0x90, 0x37, 0x8b, 0x4e, 0xd1, 0xd0, 0x73, 0x7d, 0x79, 0x53, 0x42, 0x57, 0x3d, 0xc1, 0x7d,
   0xe6, 0xcb, 0x26, 0xae, 0x50, 0x9a, 0x75, 0x2b, 0xf9, 0xa0, 0x27, 0xfe, 0x54, 0x32, 0xa5,
   0xe4, 0x87, 0xb7, 0xab, 0x11, 0xf8, 0x31, 0xb9, 0x14, 0x40, 0x69, 0x2d, 0x43, 0x0b, 0xb7,
   0x9b, 0x04, 0x79, 0xbb, 0x01]

/-- The sample chain, on which the two signatures recover to the account. -/
def bridgeEnv : Env Ledger :=
  bookEnv signerBook bridgeKeccak sampleSha
    [(bridgeHash 4, createSignature, signerAddr), (bridgeHash 8, contentSignature, signerAddr)] 8

/-- The creation and the update as anyone may send them. -/
def createBridgeMsg (nonce : UInt64) : MsgCreateDealFromEvm :=
  ⟨providerText, some (createIntent nonce), createSignature⟩

/-- The content update as it is sent through the bridge. -/
def contentBridgeMsg : MsgUpdateDealContentFromEvm :=
  ⟨providerText, some contentIntent, contentSignature⟩

/-- One provider. -/
def registeredState : KeeperState Ledger :=
  run (apply bridgeEnv) (genesis defaultParams signerBank)
    [.deliver (ctxAt 1) (registerMsg providerText)]

/-- One provider, and the deal of the EVM account. -/
def bridgedState : KeeperState Ledger :=
  run (apply bridgeEnv) registeredState
    [.deliver (ctxAt 1) (.createDealFromEvm (createBridgeMsg 5))]

/-- The account's text stands for its address. -/
theorem signer_ownerText : OwnerText bridgeEnv.codec signerText signerAddr :=
  ⟨by decide +kernel, by decide +kernel⟩

/-- The bridge creates and fills the deal, and the native handlers do the same. -/
theorem bridge_agrees_signer :
    (∃ r s' s₂, (createDealFromEvm bridgeEnv (ctxAt 1) (createBridgeMsg 5)).exec registeredState =
        (.ok 0, s') ∧
      (createDeal bridgeEnv (ctxAt 1) ((createIntent 5).native signerText)).exec registeredState =
        (.ok r, s₂) ∧ r.dealId = 0 ∧ s' = withEvmNonce signerAddr 5 s₂) ∧
    ∃ s' s₂, (updateDealContentFromEvm bridgeEnv (ctxAt 1) contentBridgeMsg).exec bridgedState =
        (.ok (), s') ∧
      (updateDealContent bridgeEnv (ctxAt 1) (contentIntent.native signerText)).exec bridgedState =
        (.ok (), s₂) ∧ s' = withEvmNonce signerAddr 6 s₂ := by
  refine ⟨?_, ?_⟩
  -- both verdicts are run, and the agreement gives the native side
  · have hverdict : ((createDealFromEvm bridgeEnv (ctxAt 1) (createBridgeMsg 5)).exec
        registeredState).1 = .ok 0 := by decide +kernel
    obtain ⟨s', hbridge⟩ := Tx.exists_exec_eq hverdict
    have hsigned : SignedIntent bridgeEnv (ctxAt 1) registeredState
        (hashCreateDeal bridgeEnv.keccak256 (createIntent 5)) createSignature
        (createIntent 5).creatorEvm (createIntent 5).chainId (createIntent 5).nonce signerAddr :=
      ⟨by decide +kernel, by decide +kernel, by decide +kernel, by decide +kernel,
        by decide +kernel⟩
    have hhint : NoOwnerOverride (createIntent 5).serviceHint := by
      -- the hint is only its base
      intro hint hparsed
      have howner : (parseServiceHint (trimSpace (createIntent 5).serviceHint)).toOption.map
          (·.owner) = some [] := by decide +kernel
      rw [hparsed] at howner
      exact Option.some.inj howner
    obtain ⟨r, s₂, hnative, hid, hstate⟩ := ((bridge_agrees bridgeEnv (ctxAt 1) registeredState
      signerText signerAddr signer_ownerText).2 (createBridgeMsg 5) (createIntent 5) rfl
      (by decide) hsigned hhint).of_bridge hbridge
    exact ⟨r, s', s₂, hbridge, hnative, hid, hstate⟩
  · have hverdict : ((updateDealContentFromEvm bridgeEnv (ctxAt 1) contentBridgeMsg).exec
        bridgedState).1 = .ok () := by decide +kernel
    obtain ⟨s', hbridge⟩ := Tx.exists_exec_eq hverdict
    have hsigned : SignedIntent bridgeEnv (ctxAt 1) bridgedState
        (hashUpdateContent bridgeEnv.keccak256 contentIntent) contentSignature
        contentIntent.creatorEvm contentIntent.chainId contentIntent.nonce signerAddr :=
      ⟨by decide +kernel, by decide +kernel, by decide +kernel, by decide +kernel,
        by decide +kernel⟩
    obtain ⟨u, s₂, hnative, -, hstate⟩ := ((bridge_agrees bridgeEnv (ctxAt 1) bridgedState
      signerText signerAddr signer_ownerText).1 contentBridgeMsg contentIntent rfl
      hsigned).of_bridge hbridge
    exact ⟨s', s₂, hbridge, hnative, hstate⟩

end NilStore.Chain
