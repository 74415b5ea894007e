import NilStore.Chain.Msgs
import NilStore.Core.Ffi
import NilStore.Lib.KVStore

/-!
# `NilStore.Chain.Keeper`: the module's state and what it is built on

`keeper/keeper.go`. `KeeperState` has one store for each collection of the keeper, and the
bank's own state `β` beside them, since the handlers move coins. `Env` is everything else that
a handler reads: the bank keeper, addresses, accounts, hashes and the loaded trusted setup.
What this module relies on in them are fields of `BankKeeper` and `AddressCodec`.

Events and logs are left out.
-/

set_option autoImplicit false

namespace NilStore.Chain

open NilStore.Lib

/-! ### The context of a call -/

/-- `sdk.Context`: what the handlers read of it. Heights are positive `int64`, so they do not wrap
in `uint64`. -/
structure Ctx where
  blockHeight : Nat
  height_lt : blockHeight < 2 ^ 63
  chainId : Str
  lastBlockHash : Bytes
deriving DecidableEq

/-- `uint64(ctx.BlockHeight())`. The handlers compare heights in this form. -/
def Ctx.height64 (ctx : Ctx) : UInt64 := UInt64.ofNat ctx.blockHeight

/-- A block height fits the 64 bits the keeper stores it in, so converting it back loses nothing. -/
@[simp] theorem Ctx.toNat_height64 (ctx : Ctx) : ctx.height64.toNat = ctx.blockHeight := by
  have := ctx.height_lt
  rw [Ctx.height64, UInt64.toNat_ofNat', Nat.mod_eq_of_lt (by omega)]

/-- `types.ModuleName`. It names the account that holds the escrows and the locked fees. -/
def moduleName : Str := "nilchain".toList

/-- `authtypes.FeeCollectorName`. The creation fee goes there. -/
def feeCollectorName : Str := "fee_collector".toList

/-! ### The bank -/

/-- The change of one balance when the amount leaves an account. Other accounts and other denoms are
not changed. -/
def debit (addr : Bytes) (coin : Coin) (a : Bytes) (d : Str) : Int :=
  if a = addr ∧ d = coin.denom then coin.amount else 0

/-- `types.BankKeeper` over a bank state, for one coin at a time. A call either fails or moves
exactly the amount; it may fail for reasons of the bank's own (locked coins, disabled denoms,
blocked recipients), except that the module can burn what it has. -/
structure BankKeeper (β : Type) where
  moduleAddress : Str → Bytes
  moduleAddress_ne : moduleAddress feeCollectorName ≠ moduleAddress moduleName
  balance : β → Bytes → Str → Int
  sendCoinsFromAccountToModule : Ctx → β → (sender : Bytes) → (recipientModule : Str) → Coin →
    Option β
  sendCoinsFromModuleToAccount : Ctx → β → (senderModule : Str) → (recipient : Bytes) → Coin →
    Option β
  mintCoins : Ctx → β → (module : Str) → Coin → Option β
  burnCoins : Ctx → β → (module : Str) → Coin → Option β
  -- each call moves the amount that it is asked for, and nothing else
  balance_toModule : ∀ {ctx b sender m coin b'},
    sendCoinsFromAccountToModule ctx b sender m coin = some b' → ∀ a d,
      balance b' a d =
        balance b a d - debit sender coin a d + debit (moduleAddress m) coin a d
  balance_toAccount : ∀ {ctx b m recipient coin b'},
    sendCoinsFromModuleToAccount ctx b m recipient coin = some b' → ∀ a d,
      balance b' a d =
        balance b a d - debit (moduleAddress m) coin a d + debit recipient coin a d
  balance_mint : ∀ {ctx b m coin b'}, mintCoins ctx b m coin = some b' → ∀ a d,
      balance b' a d = balance b a d + debit (moduleAddress m) coin a d
  balance_burn : ∀ {ctx b m coin b'}, burnCoins ctx b m coin = some b' → ∀ a d,
      balance b' a d = balance b a d - debit (moduleAddress m) coin a d
  burn_isSome : ∀ ctx b amount, 0 ≤ amount →
    amount ≤ balance b (moduleAddress moduleName) bondDenom →
    (burnCoins ctx b moduleName (bondCoin amount)).isSome

/-- The bond-denom balance of the module account. It is what the escrows and the locked fees are
paid from. -/
def BankKeeper.moduleBalance {β : Type} (bank : BankKeeper β) (b : β) : Int :=
  bank.balance b (bank.moduleAddress moduleName) bondDenom

/-! ### Addresses and accounts -/

/-- `sdk.AccAddress` and its bech32 text. A text may write an address in more than one way
(upper case is accepted), but the text that an accepted address prints reads back, and it is
neither empty nor padded. -/
structure AddressCodec where
  accAddressFromBech32 : Str → Option Bytes
  accAddressString : Bytes → Str
  roundTrip : ∀ {s a}, accAddressFromBech32 s = some a →
    accAddressFromBech32 (accAddressString a) = some a
  string_ne_nil : ∀ {s a}, accAddressFromBech32 s = some a → accAddressString a ≠ []
  trimSpace_string : ∀ {s a}, accAddressFromBech32 s = some a →
    trimSpace (accAddressString a) = accAddressString a

/-- An account of the auth module: the signature check of its public key, if it has one. An account
that has never signed has none. -/
structure Account where
  verifySignature : Option ((msg : Bytes) → (sig : Bytes) → Bool)

/-- A parsed `multiaddr`: its canonical text, and whether one of its protocols is HTTP or
HTTPS. -/
structure Multiaddr where
  canonical : Str
  hasHttp : Bool

/-- What the handlers call besides their own state. Each field stands for code of a library or of
another module, with the laws that are used of it. -/
structure Env (β : Type) where
  bank : BankKeeper β
  codec : AddressCodec
  authority : Bytes
  keccak256 : Bytes → Bytes
  length_keccak256 : ∀ b, (keccak256 b).length = 32
  sha256 : Bytes → Bytes
  /-- `crypto.SigToPub` then `crypto.PubkeyToAddress`. -/
  sigToAddress : (digest : Bytes) → (sig : Bytes) → Option Bytes
  newMultiaddr : Str → Option Multiaddr
  getAccount : Ctx → Bytes → Option Account
  /-- `KZG_CTX` of the Rust core. -/
  kzgCtx : Option Core.KzgContext
  /-- How often the loop of `AssignProviders` may run. -/
  assignFuel : Nat

/-- The address of the module account. It is derived from the name of the module. -/
def Env.moduleAddr {β : Type} (env : Env β) : Bytes := env.bank.moduleAddress moduleName

/-! ### The state -/

/-- `collections.Join`. The keys are ordered by the first part and then by the second. -/
def join {κ ν : Type} (a : κ) (b : ν) : κ ×ₗ ν := toLex (a, b)

/-- `collections.Join` loses neither part of a composite key. -/
@[simp] theorem join_inj {κ ν : Type} {a a' : κ} {b b' : ν} :
    join a b = join a' b' ↔ a = a' ∧ b = b' := by
  rw [join, join, toLex_inj, Prod.mk.injEq]

/-- The collections of `Keeper`, and the state of the bank. A sequence is the number that comes
next, and a map is a store under its keys. -/
structure KeeperState (β : Type) where
  params : Option Params
  proofCount : Nat
  proofs : KVStore Nat Proof
  dealCount : Nat
  deals : KVStore Nat Deal
  providers : KVStore Str Provider
  dealProviderStatus : KVStore (Nat ×ₗ Str) UInt64
  dealProviderFailures : KVStore (Nat ×ₗ Str) UInt64
  providerRewards : KVStore Str Int
  receiptNoncesByDealFile : KVStore (Nat ×ₗ Str) UInt64
  evmNonces : KVStore Str UInt64
  dealHeatStates : KVStore Nat DealHeatState
  retrievalSessions : KVStore Bytes RetrievalSession
  retrievalSessionsByOwner : KVStore (Str ×ₗ Bytes) UInt64
  retrievalSessionsByProvider : KVStore (Str ×ₗ Bytes) UInt64
  retrievalSessionNonces : KVStore ((Str ×ₗ Nat) ×ₗ Str) UInt64
  bank : β

/-- A handler: it changes the state, and answers or fails. What it wrote before a failure is there
until somebody rolls it back. -/
abbrev Handler (β α : Type) := Tx (KeeperState β) Fault α

section

variable {β : Type}

/-- The state in which every collection is empty. The params are not stored yet either. -/
def KeeperState.empty (bank : β) : KeeperState β where
  params := none
  proofCount := 0
  proofs := .empty
  dealCount := 0
  deals := .empty
  providers := .empty
  dealProviderStatus := .empty
  dealProviderFailures := .empty
  providerRewards := .empty
  receiptNoncesByDealFile := .empty
  evmNonces := .empty
  dealHeatStates := .empty
  retrievalSessions := .empty
  retrievalSessionsByOwner := .empty
  retrievalSessionsByProvider := .empty
  retrievalSessionNonces := .empty
  bank := bank

/-- `Keeper.GetParams`. Where none are stored it answers the default ones. -/
def KeeperState.getParams (s : KeeperState β) : Params := s.params.getD defaultParams

/-- The nonce stored at a key, zero when there is none. Nonces therefore start at one. -/
def lastNonce {κ : Type} [LinearOrder κ] (m : KVStore κ UInt64) (k : κ) : UInt64 :=
  (m.get k).getD 0

/-! ### Updates that cannot fail -/

/-- `Keeper.IncrementHeat`. A failure and a success are counted apart, and both set the height of
the last update. -/
def incrementHeat (ctx : Ctx) (dealId : Nat) (bytesServed : UInt64) (failed : Bool)
    (s : KeeperState β) : KeeperState β :=
  let state := (s.dealHeatStates.get dealId).getD ⟨0, 0, 0, 0⟩
  let state' : DealHeatState :=
    { bytesServedTotal := state.bytesServedTotal + bytesServed
      failedChallengesTotal := state.failedChallengesTotal + (if failed then 1 else 0)
      lastUpdateHeight := ctx.blockHeight
      successfulRetrievalsTotal := state.successfulRetrievalsTotal + (if failed then 0 else 1) }
  { s with dealHeatStates := s.dealHeatStates.set dealId state' }

/-- `msgServer.trackProviderHealth`. A proof that is accepted ends the count of the failures in a
row. -/
def trackProviderHealth (dealId : Nat) (provider : Str) (proofOK : Bool) (s : KeeperState β) :
    KeeperState β :=
  let key := join dealId provider
  if proofOK then { s with dealProviderFailures := s.dealProviderFailures.remove key }
  else
    let failures := lastNonce s.dealProviderFailures key + 1
    { s with dealProviderFailures := s.dealProviderFailures.set key failures }

/-- Store a proof summary under the next proof id. The counter goes up with every summary. -/
def storeProof (ctx : Ctx) (creator : Str) (commitment : String) (ok : Bool)
    (s : KeeperState β) : KeeperState β :=
  let summary : Proof := ⟨s.proofCount, creator, commitment, ok, ctx.blockHeight⟩
  { s with proofCount := s.proofCount + 1, proofs := s.proofs.set s.proofCount summary }

/-- `msgServer.recordProofSummary`. Its commitment names the deal, the epoch and the tier. -/
def recordProofSummary (ctx : Ctx) (msg : MsgProveLiveness) (tierName : String) (ok : Bool) :
    KeeperState β → KeeperState β :=
  storeProof ctx msg.creator
    ("deal:" ++ toString msg.dealId ++ "/epoch:" ++ toString msg.epochId ++ "/tier:" ++ tierName) ok

/-- `msgServer.recordEvidenceSummary`. Its commitment names the kind, the deal and the parties. -/
def recordEvidenceSummary (ctx : Ctx) (dealId : UInt64) (provider : Str) (kind : String)
    (sessionId : Bytes) (reporter : Str) (ok : Bool) : KeeperState β → KeeperState β :=
  storeProof ctx provider
    ("evidence:" ++ kind ++ " deal=" ++ toString dealId ++ " provider=" ++ fmtS provider ++
      " session=" ++ fmtS (hexEncode sessionId) ++ " reporter=" ++ fmtS reporter) ok

end

/-! ### `AssignProviders` -/

/-- Put a text in front of an error, as `fmt.Errorf("…: %w", err)` does. A panic is no error and
stays as it is. -/
def wrapf (pre : String) : Fault → Fault
  | .err code text => .err code (pre ++ text)
  | fault => fault

/-- The filter of `AssignProviders`. An active provider fits by its capabilities, and an unknown
hint fits none. -/
def isCandidate (serviceHint : Str) (provider : Provider) : Bool :=
  provider.status == "Active".toList &&
    if serviceHint = "Hot".toList then
      provider.capabilities == "General".toList || provider.capabilities == "Edge".toList
    else if serviceHint = "Cold".toList then
      provider.capabilities == "Archive".toList || provider.capabilities == "General".toList
    else serviceHint == [] || serviceHint == "General".toList

/-- The variables of the selection loop; `assigned` has the first `i` providers. -/
structure Selection where
  seedBase : Bytes
  assigned : List Str
  selectedIndices : List Nat
  selectedAddresses : List Str

/-- The selection loop of `AssignProviders`. A round that hits a candidate again takes a new
seed, so the number of rounds is not bounded by the count; `none` when the fuel is spent. -/
def selectProviders (sha256 : Bytes → Bytes) (candidates : List Provider) (count : Nat) :
    (fuel : Nat) → Selection → Option (List Str)
  | fuel, st =>
      if count ≤ st.assigned.length then some st.assigned
      else
        match fuel with
        -- the seed is not enough: the source would go on for ever where every hash hits a candidate
        -- again
        | 0 => none
        | fuel + 1 =>
            let i := UInt64.ofNat st.assigned.length
            let currentHash := sha256 (st.seedBase ++ uint64ToBigEndian i)
            let idx := ofBeBytes (currentHash.take 8) % candidates.length
            match candidates[idx]? with
            | none => none
            | some provider =>
                if idx ∈ st.selectedIndices ∨ provider.address ∈ st.selectedAddresses then
                  selectProviders sha256 candidates count fuel
                    { st with seedBase := sha256 currentHash }
                else
                  selectProviders sha256 candidates count fuel
                    { st with
                      assigned := st.assigned ++ [provider.address]
                      selectedIndices := idx :: st.selectedIndices
                      selectedAddresses := provider.address :: st.selectedAddresses }

/-- `Keeper.AssignProviders`. It takes as many as were asked for or as there are candidates, in the
order in which the seed draws them. -/
def assignProviders {β : Type} (env : Env β) (dealId : UInt64) (blockHash : Bytes)
    (serviceHint : Str) (count : UInt64) (providers : KVStore Str Provider) :
    Except Fault (List Str) :=
  let allProviders := providers.entries.map (·.2)
  if allProviders = [] then .error (errorf "no providers registered")
  else
    let candidates := allProviders.filter (isCandidate serviceHint)
    if candidates = [] then
      .error (errorf ("no suitable providers for service hint '" ++ fmtS serviceHint ++ "'"))
    else
      let count := min count.toNat candidates.length
      let seedBase := uint64ToBigEndian dealId ++ blockHash
      match selectProviders env.sha256 candidates count env.assignFuel ⟨seedBase, [], [], []⟩ with
      | none => .error .outOfFuel
      | some assigned => .ok assigned

/-- What the selection loop keeps: the addresses are distinct, they belong to candidates, and
there are at most `count` of them. -/
structure Selection.Sound (candidates : List Provider) (count : Nat) (st : Selection) : Prop where
  selected : ∀ p, p ∈ st.selectedAddresses ↔ p ∈ st.assigned
  nodup : st.assigned.Nodup
  candidate : ∀ p ∈ st.assigned, ∃ q ∈ candidates, q.address = p
  length_le : st.assigned.length ≤ count

/-- The loop ends with `count` distinct addresses of candidates. The invariant is `Selection.Sound`:
what has been assigned so far is distinct, comes from the candidates and is not too much. -/
theorem selectProviders_ok {sha256 : Bytes → Bytes} {candidates : List Provider}
    {count fuel : Nat} {st : Selection} {assigned : List Str}
    (hst : st.Sound candidates count)
    (h : selectProviders sha256 candidates count fuel st = some assigned) :
    assigned.Nodup ∧ (∀ p ∈ assigned, ∃ q ∈ candidates, q.address = p) ∧
      assigned.length = count := by
  -- the induction is on the fuel; a round either fills a place or changes only the seed
  induction fuel generalizing st with
  | zero =>
      rw [selectProviders] at h
      split at h
      · rename_i hcount
        cases h
        exact ⟨hst.nodup, hst.candidate, le_antisymm hst.length_le hcount⟩
      · cases h
  | succ fuel ih =>
      rw [selectProviders] at h
      split at h
      · rename_i hcount
        cases h
        exact ⟨hst.nodup, hst.candidate, le_antisymm hst.length_le hcount⟩
      · rename_i hcount
        simp only at h
        -- an index that is not there ends the loop without a result
        split at h
        · cases h
        · rename_i provider hprovider
          split at h
          · -- Only the seed has changed.
            refine ih ?_ h
            exact ⟨hst.selected, hst.nodup, hst.candidate, hst.length_le⟩
          · rename_i hnew
            have hfresh : provider.address ∉ st.assigned := fun hin =>
              hnew (Or.inr ((hst.selected _).mpr hin))
            refine ih ⟨fun p => ?_, ?_, fun p hp => ?_, ?_⟩ h
            · simp only [List.mem_cons, List.mem_append, List.not_mem_nil, or_false,
                hst.selected p]
              exact or_comm
            · exact List.Nodup.append hst.nodup (List.nodup_singleton _)
                (List.disjoint_singleton.mpr hfresh)
            · rcases List.mem_append.mp hp with hp | hp
              · exact hst.candidate p hp
              · exact ⟨provider, List.mem_of_getElem? hprovider, (List.mem_singleton.mp hp).symm⟩
            · rw [List.length_append, List.length_singleton]
              omega

/-- The assigned addresses are distinct and registered, and there are as many as asked for, or
as there are candidates. -/
theorem assignProviders_ok {β : Type} {env : Env β} {dealId : UInt64} {blockHash : Bytes}
    {serviceHint : Str} {count : UInt64} {providers : KVStore Str Provider} {assigned : List Str}
    (h : assignProviders env dealId blockHash serviceHint count providers = .ok assigned) :
    assigned.Nodup ∧ (∀ p ∈ assigned, ∃ k q, providers.get k = some q ∧ q.address = p) ∧
      assigned.length =
        min count.toNat
          ((providers.entries.map (·.2)).filter (isCandidate serviceHint)).length := by
  -- the three refusals of `AssignProviders` come before the loop
  rw [assignProviders] at h
  simp only at h
  split at h
  · cases h
  · split at h
    · cases h
    · split at h
      · cases h
      · rename_i hsel
        cases h
        obtain ⟨hnodup, hcand, hlen⟩ := selectProviders_ok
          ⟨fun p => Iff.rfl, List.nodup_nil, by simp, Nat.zero_le _⟩ hsel
        refine ⟨hnodup, fun p hp => ?_, hlen⟩
        obtain ⟨q, hq, haddr⟩ := hcand p hp
        obtain ⟨⟨k, q'⟩, hentry, rfl⟩ := List.mem_map.mp (List.mem_filter.mp hq).1
        exact ⟨k, q', KVStore.mem_entries.mp hentry, haddr⟩

end NilStore.Chain
