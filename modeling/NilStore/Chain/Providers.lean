import NilStore.Chain.Keeper

/-!
# `NilStore.Chain.Providers`: params, registration and rewards

The handlers `UpdateParams`, `RegisterProvider` and `WithdrawRewards` of
`keeper/msg_server.go` and `keeper/msg_update_params.go`, and the bank calls that all
handlers share.

Each handler comes with one lemma `…_ok` that says what a successful run did: the checks it
passed, and the state it left.
-/

set_option autoImplicit false

namespace NilStore.Chain

open NilStore.Lib

variable {β : Type}

/-! ### Bank calls -/

/-- Write the bank state that a bank call leaves, or fail. A failed call leaves the bank as it
was. -/
def bankCall (call : β → Option β) (fault : Fault) : Handler β Unit :=
  Tx.updateOr (fun s => (call s.bank).map fun b => { s with bank := b }) fault

/-- A bank call of a handler succeeds exactly when the bank takes it, and then only the bank has
changed. -/
@[simp] theorem bankCall_ok {call : β → Option β} {fault : Fault}
    {s s' : KeeperState β} {u : Unit} :
    (bankCall call fault).exec s = (.ok u, s') ↔
      ∃ b, call s.bank = some b ∧ { s with bank := b } = s' := by
  rw [bankCall, Tx.exec_updateOr_ok, Option.map_eq_some_iff]

/-- A bank call of a handler fails exactly when the bank refuses it, and then nothing has
changed. -/
@[simp] theorem bankCall_error {call : β → Option β} {fault e : Fault} {s s' : KeeperState β} :
    (bankCall call fault).exec s = (.error e, s') ↔
      call s.bank = none ∧ fault = e ∧ s = s' := by
  rw [bankCall, Tx.exec_updateOr_error, Option.map_eq_none_iff]

/-- A handler that goes on after a bank call returned exactly when the bank took it and the rest
returned on the new bank. -/
theorem bankCall_bind_ok {α : Type} {call : β → Option β} {fault : Fault} {g : Unit → Handler β α}
    {s s' : KeeperState β} {a : α} :
    (bankCall call fault >>= g).exec s = (.ok a, s') ↔
      ∃ b, call s.bank = some b ∧ (g ()).exec { s with bank := b } = (.ok a, s') := by
  rw [bankCall, Tx.exec_updateOr_bind_ok]
  cases call s.bank <;> simp

/-- A handler that goes on after a bank call failed either at the call, which left the state as it
was, or in the rest. -/
theorem bankCall_bind_error {α : Type} {call : β → Option β} {fault e : Fault}
    {g : Unit → Handler β α} {s s' : KeeperState β} :
    (bankCall call fault >>= g).exec s = (.error e, s') ↔
      call s.bank = none ∧ fault = e ∧ s = s' ∨
        ∃ b, call s.bank = some b ∧ (g ()).exec { s with bank := b } = (.error e, s') := by
  rw [bankCall, Tx.exec_updateOr_bind_error]
  cases call s.bank <;> simp

/-! ### `UpdateParams` -/

/-- `UpdateParams`. The new params replace all of the old ones, when they validate. -/
def updateParams (env : Env β) (msg : MsgUpdateParams) : Handler β Unit := do
  let authority ← Tx.ofExcept
    (orFail (env.codec.accAddressFromBech32 msg.authority) (errorf "invalid authority address"))
  Tx.failIf (env.authority ≠ authority)
    (.err .errInvalidSigner ("invalid authority; expected " ++
      fmtS (env.codec.accAddressString env.authority) ++ ", got " ++ fmtS msg.authority))
  Tx.ofExcept msg.params.validate
  Tx.update fun s => { s with params := some msg.params }

/-- What an accepted `UpdateParams` did: the sender is the authority, the parameters are valid, and
only they changed. -/
theorem updateParams_ok {env : Env β} {msg : MsgUpdateParams} {s s' : KeeperState β} {u : Unit}
    (h : (updateParams env msg).exec s = (.ok u, s')) :
    env.codec.accAddressFromBech32 msg.authority = some env.authority ∧
      msg.params.validate = .ok () ∧ s' = { s with params := some msg.params } := by
  simp only [updateParams, Tx.exec_ofExcept_bind_ok, Tx.exec_failIf_bind_ok, Tx.exec_update,
    Prod.mk.injEq, orFail_eq_ok, not_not] at h
  obtain ⟨authority, haddr, rfl, ⟨⟩, hval, -, hs'⟩ := h
  exact ⟨haddr, hval, hs'.symm⟩

/-! ### `RegisterProvider` -/

/-- The checks of one endpoint, and its canonical form. Its length is that of its bytes, after
trimming. -/
def parseEndpoint (env : Env β) (raw : Str) : Except Fault Multiaddr := do
  let ep := trimSpace raw
  rejectIf (ep = []) (errInvalidRequest "endpoint must be non-empty")
  rejectIf (256 < (utf8 ep).length) (errInvalidRequest "endpoint too long")
  rejectIf (¬hasPrefix ep ['/']) (errInvalidRequest "invalid endpoint multiaddr")
  rejectIf (ep.any fun r => isSpace r || r.toNat < 0x20)
    (errInvalidRequest "endpoint contains whitespace/control characters")
  orFail (env.newMultiaddr ep) (errInvalidRequest "invalid endpoint multiaddr")

/-- The loop over the endpoints: canonical, without repetition, one of them HTTP. The number is
checked before any of them is read. -/
def parseEndpoints (env : Env β) (raws : List Str) : Except Fault (List Str) := do
  rejectIf (raws.length = 0)
    (errInvalidRequest "endpoints is required (at least one Multiaddr)")
  rejectIf (8 < raws.length) (errInvalidRequest "too many endpoints (max 8)")
  let parsed ← raws.mapM (parseEndpoint env)
  rejectIf (¬parsed.any (·.hasHttp))
    (errInvalidRequest "at least one HTTP or HTTPS endpoint is required")
  -- The first occurrence of each endpoint stays, in order.
  return parsed.foldl
    (fun seen ep => if ep.canonical ∈ seen then seen else seen ++ [ep.canonical]) []

/-- A provider as `RegisterProvider` creates it. It is active at once, with a reputation of 100. -/
def newProvider (address : Str) (msg : MsgRegisterProvider) (endpoints : List Str) : Provider where
  address := address
  totalStorage := msg.totalStorage
  usedStorage := 0
  capabilities := msg.capabilities
  status := "Active".toList
  reputationScore := 100
  endpoints := endpoints

/-- `RegisterProvider`. It looks for the text of the creator, and stores under the canonical text of
its address. -/
def registerProvider (env : Env β) (msg : MsgRegisterProvider) : Handler β Unit := do
  let creatorAddr ← Tx.ofExcept
    (orFail (env.codec.accAddressFromBech32 msg.creator)
      (errInvalidAddress "invalid creator address"))
  Tx.failIf (msg.capabilities ≠ "Archive".toList ∧ msg.capabilities ≠ "General".toList ∧
      msg.capabilities ≠ "Edge".toList)
    (errInvalidRequest ("invalid capabilities: " ++ fmtS msg.capabilities))
  let endpoints ← Tx.ofExcept (parseEndpoints env msg.endpoints)
  let registered ← Tx.gets fun s => (s.providers.get msg.creator).isSome
  Tx.failIf registered
    (errInvalidRequest ("provider " ++ fmtS msg.creator ++ " already registered"))
  let address := env.codec.accAddressString creatorAddr
  Tx.update fun s =>
    { s with providers := s.providers.set address (newProvider address msg endpoints) }

/-- What an accepted `RegisterProvider` did: a record under the canonical text of the sender's
address, with the endpoints that were checked. -/
theorem registerProvider_ok {env : Env β} {msg : MsgRegisterProvider} {s s' : KeeperState β}
    {u : Unit} (h : (registerProvider env msg).exec s = (.ok u, s')) :
    ∃ addr endpoints, env.codec.accAddressFromBech32 msg.creator = some addr ∧
      s' = { s with
        providers := s.providers.set (env.codec.accAddressString addr)
          (newProvider (env.codec.accAddressString addr) msg endpoints) } := by
  simp only [registerProvider, Tx.exec_ofExcept_bind_ok, Tx.exec_failIf_bind_ok,
    Tx.exec_gets_bind, Tx.exec_update, Prod.mk.injEq, orFail_eq_ok] at h
  obtain ⟨addr, haddr, -, endpoints, -, -, -, hs'⟩ := h
  exact ⟨addr, endpoints, haddr, hs'.symm⟩

/-! ### `WithdrawRewards` -/

/-- `WithdrawRewards`: the rewards are minted and paid out. The account is emptied last. -/
def withdrawRewards (env : Env β) (ctx : Ctx) (msg : MsgWithdrawRewards) : Handler β Int := do
  let providerAddr ← Tx.ofExcept
    (orFail (env.codec.accAddressFromBech32 msg.creator)
      (errInvalidAddress "invalid provider address"))
  let rewards ← Tx.reads fun s =>
    orFail (s.providerRewards.get msg.creator) (errNotFound "no rewards found")
  Tx.failIf (rewards ≤ 0) (errInvalidRequest "no rewards to withdraw")
  bankCall (fun b => env.bank.mintCoins ctx b moduleName (bondCoin rewards))
    (errorf "failed to mint coins")
  bankCall (fun b => env.bank.sendCoinsFromModuleToAccount ctx b moduleName providerAddr
    (bondCoin rewards)) (errInsufficientFunds "failed to send coins")
  Tx.update fun s => { s with providerRewards := s.providerRewards.set msg.creator 0 }
  return rewards

/-- What an accepted `WithdrawRewards` did: a positive credit was minted, sent to the sender and set
back to zero. -/
theorem withdrawRewards_ok {env : Env β} {ctx : Ctx} {msg : MsgWithdrawRewards}
    {s s' : KeeperState β} {r : Int} (h : (withdrawRewards env ctx msg).exec s = (.ok r, s')) :
    ∃ addr b₁ b₂, env.codec.accAddressFromBech32 msg.creator = some addr ∧
      s.providerRewards.get msg.creator = some r ∧ 0 < r ∧
      env.bank.mintCoins ctx s.bank moduleName (bondCoin r) = some b₁ ∧
      env.bank.sendCoinsFromModuleToAccount ctx b₁ moduleName addr (bondCoin r) = some b₂ ∧
      s' = { s with
        bank := b₂
        providerRewards := s.providerRewards.set msg.creator 0 } := by
  simp only [withdrawRewards, Tx.exec_ofExcept_bind_ok, Tx.exec_reads_bind_ok,
    Tx.exec_failIf_bind_ok, bankCall_bind_ok, Tx.exec_update_bind, Tx.exec_pure, Prod.mk.injEq,
    orFail_eq_ok, Except.ok.injEq, not_le] at h
  obtain ⟨addr, haddr, rewards, hget, hpos, b₁, hmint, b₂, hsend, rfl, hs'⟩ := h
  exact ⟨addr, b₁, b₂, haddr, hget, hpos, hmint, hsend, hs'.symm⟩

end NilStore.Chain
