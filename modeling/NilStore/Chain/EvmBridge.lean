import NilStore.Chain.Deals

/-!
# `NilStore.Chain.EvmBridge`: deals on behalf of an EVM account

The handlers `CreateDealFromEvm` and `UpdateDealContentFromEvm` of `keeper/msg_server.go`.
Anyone may send these messages. What authorizes them is a signature of the EVM account over
the EIP-712 digest of the intent, and a nonce that must grow: `authorizeIntent` is the part
that both handlers share.
-/

set_option autoImplicit false

namespace NilStore.Chain

open NilStore.Lib

variable {β : Type}

/-! ### Who signed, and whether the nonce is new -/

/-- The signature with its recovery id in `{0, 1}`. Wallets send it as 27 or 28, and anything from
27 on is lowered by 27. -/
def normaliseV (sig : Bytes) : Bytes :=
  match sig[64]? with
  | some v => if 27 ≤ v then sig.set 64 (v - 27) else sig
  | none => sig

/-- `recoverEvmAddressFromDigest`. A signature of another length than 65 recovers nobody. -/
def recoverEvmAddressFromDigest (env : Env β) (digest sig : Bytes) : Option Bytes :=
  if sig.length ≠ 65 then none else env.sigToAddress digest (normaliseV sig)

/-- The claimed signer of an intent, lower-cased and with its `0x`. It is compared with the text of
the recovered address. -/
def normaliseCreator (creatorEvm : Str) : Str :=
  let creator := toLower (trimSpace creatorEvm)
  if hasPrefix creator "0x".toList then creator else "0x".toList ++ creator

/-- The digest of a struct hash in the domain of the chain. The id of the domain is a param, not the
one of the intent. -/
def intentDigest (env : Env β) (params : Params) (structHash : Bytes) : Bytes :=
  computeEIP712Digest env.keccak256
    (hashDomainSeparator env.keccak256 params.eip712ChainId) structHash

/-- Recover the signer of a struct hash, compare it with the claimed one, and consume the
nonce. -/
def authorizeIntent (env : Env β) (structHash : Bytes) (sig : Bytes) (creatorEvm : Str)
    (nonce : UInt64) : Handler β Bytes := do
  let params ← Tx.gets KeeperState.getParams
  let evmAddr ← Tx.ofExcept
    (orFail (recoverEvmAddressFromDigest env (intentDigest env params structHash) sig)
      (errUnauthorized "failed to recover EVM signer"))
  Tx.failIf (toLower (trimSpace creatorEvm) = []) (errInvalidRequest "creator_evm is required")
  Tx.failIf (lowerHex evmAddr ≠ normaliseCreator creatorEvm)
    (errUnauthorized "signature does not match creator_evm")
  let last ← Tx.gets fun s => lastNonce s.evmNonces (lowerHex evmAddr)
  Tx.failIf (nonce ≤ last) (errUnauthorized "bridge nonce must be strictly increasing")
  Tx.update fun s => { s with evmNonces := s.evmNonces.set (lowerHex evmAddr) nonce }
  return evmAddr

/-- The signature recovers to the address, which is the claimed signer, and the nonce is
above the last one of that address. -/
structure Authorized (env : Env β) (s : KeeperState β) (structHash sig : Bytes) (creatorEvm : Str)
    (nonce : UInt64) (evmAddr : Bytes) : Prop where
  recovers : recoverEvmAddressFromDigest env (intentDigest env s.getParams structHash) sig =
    some evmAddr
  claimed : lowerHex evmAddr = normaliseCreator creatorEvm
  nonce_lt : lastNonce s.evmNonces (lowerHex evmAddr) < nonce

/-- A bridge handler that returned has passed the signature and the nonce check. The rest ran for
the recovered address, with that address's nonce already recorded. -/
theorem authorizeIntent_bind_ok {α : Type} {env : Env β} {structHash sig : Bytes}
    {creatorEvm : Str} {nonce : UInt64} {g : Bytes → Handler β α} {s s' : KeeperState β} {a : α}
    (h : (authorizeIntent env structHash sig creatorEvm nonce >>= g).exec s = (.ok a, s')) :
    ∃ evmAddr, Authorized env s structHash sig creatorEvm nonce evmAddr ∧
      (g evmAddr).exec { s with evmNonces := s.evmNonces.set (lowerHex evmAddr) nonce } =
        (.ok a, s') := by
  rw [Tx.exec_bind_ok] at h
  obtain ⟨evmAddr, s₁, hauth, hrest⟩ := h
  simp only [authorizeIntent, Tx.exec_gets_bind, Tx.exec_ofExcept_bind_ok, Tx.exec_failIf_bind_ok,
    Tx.exec_update_bind, Tx.exec_pure, orFail_eq_ok, Prod.mk.injEq, Except.ok.injEq,
    not_not] at hauth
  obtain ⟨addr, hrec, -, hclaim, hnonce, rfl, rfl⟩ := hauth
  exact ⟨addr, ⟨hrec, hclaim, UInt64.not_le.mp hnonce⟩, hrest⟩

/-! ### `CreateDealFromEvm` -/

/-- `CreateDealFromEvm`. The intent is checked and its nonce is used before the fee is charged; the
rest is as in `CreateDeal`. -/
def createDealFromEvm (env : Env β) (ctx : Ctx) (msg : MsgCreateDealFromEvm) : Handler β Nat := do
  let intent ← Tx.ofExcept (orFail msg.intent (errInvalidRequest "intent is required"))
  -- the amounts and the chain are checked before the signature is looked at
  Tx.failIf (intent.durationBlocks = 0) (errInvalidRequest "Deal duration cannot be zero")
  let escrow ← Tx.ofExcept
    (nonNegative intent.initialEscrow "invalid initial escrow amount: ")
  let maxMonthlySpend ← Tx.ofExcept
    (nonNegative intent.maxMonthlySpend "invalid max monthly spend: ")
  Tx.failIf (trimSpace intent.chainId = [] ∨ trimSpace intent.chainId ≠ ctx.chainId)
    (errUnauthorized ("intent chain_id \"" ++ fmtS intent.chainId ++
      "\" does not match chain \"" ++ fmtS ctx.chainId ++ "\""))
  Tx.failIf (msg.evmSignature.length ≠ 65)
    (errUnauthorized "invalid EVM signature length (expected 65 bytes)")
  let params ← Tx.gets KeeperState.getParams
  Tx.failIf (0 < params.minDurationBlocks ∧ intent.durationBlocks < params.minDurationBlocks)
    (errInvalidRequest
      ("deal duration must be >= " ++ toString params.minDurationBlocks ++ " blocks"))
  let evmAddr ← authorizeIntent env (hashCreateDeal env.keccak256 intent) msg.evmSignature
    intent.creatorEvm intent.nonce
  payDealCreationFee env ctx params evmAddr
  let hint ← Tx.ofExcept
    ((parseServiceHint (trimSpace intent.serviceHint)).mapError errInvalidRequest)
  let stripe ← Tx.ofExcept (requestedStripe hint)
  Tx.failIf (¬validHintBase hint.base)
    (errInvalidRequest ("invalid service hint: " ++ fmtS hint.base))
  -- here the id is taken after the hint has been read, unlike in `createDeal`
  let dealId ← nextDealId
  let assigned ← Tx.reads fun s =>
    (assignProviders env (UInt64.ofNat dealId) ctx.lastBlockHash hint.base stripe.1
      s.providers).mapError (wrapf "failed to assign providers: ")
  bankCall (fun b => env.bank.sendCoinsFromAccountToModule ctx b evmAddr moduleName
    (bondCoin escrow)) (errInsufficientFunds "failed to send coins")
  let deal := newDeal ctx dealId (env.codec.accAddressString evmAddr) escrow maxMonthlySpend
    intent.durationBlocks hint stripe.2 assigned
  Tx.update fun s => { s with deals := s.deals.set dealId deal }
  return deal.id

/-- The deal that an intent asks for: owner, duration, hint and amounts are the signed ones. -/
def DealOfIntent (env : Env β) (ctx : Ctx) (intent : EvmCreateDealIntent) (evmAddr : Bytes)
    (deal : Deal) : Prop :=
  ∃ escrow spend hint mode, intent.initialEscrow = some escrow ∧
    intent.maxMonthlySpend = some spend ∧
    parseServiceHint (trimSpace intent.serviceHint) = .ok hint ∧
    deal = newDeal ctx deal.id (env.codec.accAddressString evmAddr) escrow spend
      intent.durationBlocks hint mode deal.providers

/-- What an accepted `CreateDealFromEvm` did: the intent was authorised, and it created the deal
that `DealOfIntent` reads off the intent for the recovered address. -/
theorem createDealFromEvm_ok {env : Env β} {ctx : Ctx} {msg : MsgCreateDealFromEvm}
    {s s' : KeeperState β} {r : Nat} (h : (createDealFromEvm env ctx msg).exec s = (.ok r, s')) :
    ∃ intent evmAddr deal, msg.intent = some intent ∧
      Authorized env s (hashCreateDeal env.keccak256 intent) msg.evmSignature intent.creatorEvm
        intent.nonce evmAddr ∧
      DealOfIntent env ctx intent evmAddr deal ∧
      DealCreated env ctx s s' evmAddr deal ∧ r = deal.id ∧
      s' = { s with
        bank := s'.bank
        dealCount := s'.dealCount
        deals := s'.deals
        evmNonces := s.evmNonces.set (lowerHex evmAddr) intent.nonce } := by
  -- the checks on the intent, then the authorisation, which is the first to write
  simp only [createDealFromEvm, Tx.exec_ofExcept_bind_ok, Tx.exec_failIf_bind_ok,
    Tx.exec_gets_bind, orFail_eq_ok, nonNegative_eq_ok] at h
  obtain ⟨intent, hintent, -, escrow, ⟨hescrow, hpos⟩, spend, ⟨hspend, hcap⟩, -, -, -, h⟩ := h
  obtain ⟨evmAddr, hauth, h⟩ := authorizeIntent_bind_ok h
  simp only [payDealCreationFee_bind_ok, Tx.exec_ofExcept_bind_ok, Tx.exec_failIf_bind_ok,
    nextDealId_bind, Tx.exec_reads_bind_ok, bankCall_bind_ok, Tx.exec_update_bind, Tx.exec_pure,
    mapError_eq_ok, Prod.mk.injEq, Except.ok.injEq] at h
  obtain ⟨b₁, hfee, hint, hhint, stripe, hstripe, -, assigned, hassign, b₂, hsend, hr, hs'⟩ := h
  subst hs'
  refine ⟨intent, evmAddr, _, hintent, hauth,
    ⟨escrow, spend, hint, stripe.2, hescrow, hspend, hhint, rfl⟩,
    ⟨rfl, ⟨b₁, hfee, hsend⟩, hpos, ?_, rfl, rfl⟩, hr.symm, rfl⟩
  exact ⟨_, spend, intent.durationBlocks, _, hint, stripe, hhint, hstripe, hassign, hcap, rfl⟩

/-! ### `UpdateDealContentFromEvm` -/

/-- `UpdateDealContentFromEvm`. The owner of the deal is compared with the address that the
signature recovers to. -/
def updateDealContentFromEvm (env : Env β) (ctx : Ctx) (msg : MsgUpdateDealContentFromEvm) :
    Handler β Unit := do
  let intent ← Tx.ofExcept (orFail msg.intent (errInvalidRequest "intent is required"))
  Tx.failIf (trimSpace intent.cid = []) (errInvalidRequest "CID cannot be empty")
  Tx.failIf (intent.sizeBytes = 0) (errInvalidRequest "Size cannot be zero")
  Tx.failIf (trimSpace intent.chainId ≠ ctx.chainId)
    (errUnauthorized ("intent chain_id \"" ++ fmtS intent.chainId ++
      "\" does not match chain \"" ++ fmtS ctx.chainId ++ "\""))
  Tx.failIf (msg.evmSignature.length ≠ 65) (errUnauthorized "invalid EVM signature length")
  let params ← Tx.gets KeeperState.getParams
  let evmAddr ← authorizeIntent env (hashUpdateContent env.keccak256 intent) msg.evmSignature
    intent.creatorEvm intent.nonce
  let deal ← Tx.reads fun s =>
    orFail (s.deals.get intent.dealId.toNat)
      (errNotFound ("deal " ++ toString intent.dealId ++ " not found"))
  Tx.failIf (deal.owner ≠ env.codec.accAddressString evmAddr)
    (errUnauthorized "only deal owner can update content")
  payTermDeposit env ctx evmAddr (termDeposit params deal intent.sizeBytes)
  let manifestRoot ← Tx.ofExcept
    (orFail (decodeManifestRoot intent.cid)
      (errInvalidRequest ("invalid manifest root: " ++ fmtS intent.cid)))
  -- no root is named that the deal is expected to have
  let deal' :=
    commitContent deal manifestRoot intent.sizeBytes (depositPaid params deal intent.sizeBytes)
  Tx.update fun s => { s with deals := s.deals.set intent.dealId.toNat deal' }

/-- What an accepted `UpdateDealContentFromEvm` did: the intent was authorised, its cid decoded, and
the content of the deal was replaced for the recovered address. -/
theorem updateDealContentFromEvm_ok {env : Env β} {ctx : Ctx} {msg : MsgUpdateDealContentFromEvm}
    {s s' : KeeperState β} {u : Unit}
    (h : (updateDealContentFromEvm env ctx msg).exec s = (.ok u, s')) :
    ∃ intent evmAddr deal root, msg.intent = some intent ∧
      Authorized env s (hashUpdateContent env.keccak256 intent) msg.evmSignature intent.creatorEvm
        intent.nonce evmAddr ∧
      decodeManifestRoot intent.cid = some root ∧
      ContentUpdated env ctx s s' evmAddr intent.dealId.toNat
        (env.codec.accAddressString evmAddr) intent.sizeBytes deal root ∧
      s' = { s with
        bank := s'.bank
        deals := s'.deals
        evmNonces := s.evmNonces.set (lowerHex evmAddr) intent.nonce } := by
  -- the checks on the intent come first, then the authorisation, which writes the nonce
  simp only [updateDealContentFromEvm, Tx.exec_ofExcept_bind_ok, Tx.exec_failIf_bind_ok,
    Tx.exec_gets_bind, orFail_eq_ok] at h
  obtain ⟨intent, hintent, -, -, -, -, h⟩ := h
  obtain ⟨evmAddr, hauth, h⟩ := authorizeIntent_bind_ok h
  simp only [Tx.exec_reads_bind_ok, Tx.exec_failIf_bind_ok, payTermDeposit_bind_ok,
    Tx.exec_ofExcept_bind_ok, Tx.exec_update, orFail_eq_ok, Prod.mk.injEq, not_not] at h
  obtain ⟨deal, hget, howner, b, hpaid, root, hroot, -, hs'⟩ := h
  subst hs'
  exact ⟨intent, evmAddr, deal, root, hintent, hauth, hroot,
    ⟨hget, howner, decodeManifestRoot_length hroot, hpaid, rfl⟩, rfl⟩

end NilStore.Chain
