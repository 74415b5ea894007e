import NilStore.Chain.Run
import NilStore.Core.ScalarField

/-!
# `NilStore.Chain.Ledger`: a bank, a codec and hashes that keep the laws

The handlers take bank, address codec and hashes as parameters with laws. Here are instances of
them. A `Ledger` is a store of balances, and its moves fail exactly when the sender has too little.
An `AddressBook` is a finite bech32 codec, and a `HashTable` a finite piece of a hash function:
on the listed texts and preimages they answer what the list says, elsewhere `none` and zeros.

`bookEnv` puts them together. It is what runs on concrete inputs are evaluated in.
-/

set_option autoImplicit false

namespace NilStore.Chain

open NilStore.Lib

/-! ### A bank -/

/-- The balance of each account in each denom. It is the state of the small bank below. -/
abbrev Ledger := KVStore (Bytes ×ₗ Str) Int

namespace Ledger

/-- The balance; an account without an entry has nothing. Balances may be asked for at any
address. -/
def balance (b : Ledger) (addr : Bytes) (denom : Str) : Int := (b.get (join addr denom)).getD 0

/-- Add an amount to one balance. A negative amount takes it away. -/
def credit (b : Ledger) (addr : Bytes) (coin : Coin) : Ledger :=
  b.set (join addr coin.denom) (b.balance addr coin.denom + coin.amount)

/-- Take an amount from one balance, which must have it. A negative amount is refused. -/
def withdraw (b : Ledger) (addr : Bytes) (coin : Coin) : Option Ledger :=
  if 0 ≤ coin.amount ∧ coin.amount ≤ b.balance addr coin.denom then
    some (b.credit addr ⟨coin.denom, -coin.amount⟩)
  else none

/-- Move an amount. It is taken first, so an account may send to itself. -/
def transfer (b : Ledger) (sender recipient : Bytes) (coin : Coin) : Option Ledger :=
  (b.withdraw sender coin).map fun b' => b'.credit recipient coin

/-- A credit raises the one balance it names by the coin and leaves every other balance alone. -/
theorem balance_credit (b : Ledger) (addr : Bytes) (coin : Coin) (a : Bytes) (d : Str) :
    (b.credit addr coin).balance a d = b.balance a d + debit addr coin a d := by
  rw [credit, balance, KVStore.get_set, debit]
  by_cases hkey : a = addr ∧ d = coin.denom
  · obtain ⟨rfl, rfl⟩ := hkey
    rw [if_pos rfl, if_pos ⟨rfl, rfl⟩]
    rfl
  · rw [if_neg (fun heq => hkey (join_inj.mp heq)), if_neg hkey, add_zero]
    rfl

/-- A withdrawal that succeeds lowers the one balance it names by the coin and leaves every other
balance alone. -/
theorem balance_withdraw {b b' : Ledger} {addr : Bytes} {coin : Coin}
    (h : b.withdraw addr coin = some b') (a : Bytes) (d : Str) :
    b'.balance a d = b.balance a d - debit addr coin a d := by
  rw [withdraw] at h
  split at h
  · cases h
    rw [balance_credit, debit, debit]
    split
    · rfl
    · rw [add_zero, sub_zero]
  · cases h

/-- A transfer is a withdrawal and a credit. Where sender and recipient are the same address the two
cancel. -/
theorem balance_transfer {b b' : Ledger} {sender recipient : Bytes} {coin : Coin}
    (h : b.transfer sender recipient coin = some b') (a : Bytes) (d : Str) :
    b'.balance a d = b.balance a d - debit sender coin a d + debit recipient coin a d := by
  obtain ⟨b₁, hwithdraw, rfl⟩ := Option.map_eq_some_iff.mp h
  rw [balance_credit, balance_withdraw hwithdraw]

end Ledger

/-- The addresses of the two module accounts of this model: the first 20 bytes of the SHA-256 of
their names. -/
def moduleAddressOf (name : Str) : Bytes :=
  if name = moduleName then
    [0x1a, 0xa2, 0x44, 0x1b, 0x76, 0xa0, 0x5a, 0xab, 0x03, 0xd4, 0x33, 0x34, 0x99, 0xbc, 0xaa, 0xee,
      0xf9, 0x67, 0x7b, 0xb3]
  else
    [0xf1, 0x82, 0x96, 0x76, 0xdb, 0x57, 0x76, 0x82, 0xe9, 0x44, 0xfc, 0x34, 0x93, 0xd4, 0x51, 0xb6,
      0x7f, 0xf3, 0xe2, 0x9f]

/-- The ledger as a bank. Its laws are those that the handlers rely on. -/
def ledgerBank : BankKeeper Ledger where
  moduleAddress := moduleAddressOf
  moduleAddress_ne := by decide
  balance := Ledger.balance
  sendCoinsFromAccountToModule := fun _ b sender m coin =>
    b.transfer sender (moduleAddressOf m) coin
  sendCoinsFromModuleToAccount := fun _ b m recipient coin =>
    b.transfer (moduleAddressOf m) recipient coin
  mintCoins := fun _ b m coin => some (b.credit (moduleAddressOf m) coin)
  burnCoins := fun _ b m coin => b.withdraw (moduleAddressOf m) coin
  balance_toModule := fun h a d => Ledger.balance_transfer h a d
  balance_toAccount := fun h a d => Ledger.balance_transfer h a d
  balance_mint := by
    intro ctx b m coin b' h a d
    cases h
    exact Ledger.balance_credit b _ coin a d
  balance_burn := fun h a d => Ledger.balance_withdraw h a d
  burn_isSome := by
    intro ctx b amount hpos hle
    rw [Ledger.withdraw, if_pos ⟨hpos, hle⟩]
    rfl

/-! ### A codec -/

/-- Some texts and the addresses they write. No text comes twice, and none is blank or has blanks
around it. -/
structure AddressBook where
  entries : List (Str × Bytes)
  texts_nodup : (entries.map (·.1)).Nodup
  texts : ∀ e ∈ entries, e.1 ≠ [] ∧ trimSpace e.1 = e.1

namespace AddressBook

variable (book : AddressBook)

/-- The address a text stands for: what the book's first entry with that text says. -/
def address (text : Str) : Option Bytes :=
  (book.entries.find? fun e => e.1 = text).map (·.2)

/-- The text of an address: that of the book's first entry for it, empty where the book has none. -/
def text (addr : Bytes) : Str :=
  ((book.entries.find? fun e => e.2 = addr).map (·.1)).getD []

variable {book}

/-- The text of a listed address is listed with it. -/
theorem text_mem {s : Str} {a : Bytes} (h : book.address s = some a) :
    (book.text a, a) ∈ book.entries := by
  obtain ⟨e, hfind, rfl⟩ := Option.map_eq_some_iff.mp h
  have hmem := List.mem_of_find?_eq_some hfind
  have hsome : (book.entries.find? fun e' => e'.2 = e.2).isSome := by
    rw [List.find?_isSome]
    exact ⟨e, hmem, by simp⟩
  obtain ⟨e', hfind'⟩ := Option.isSome_iff_exists.mp hsome
  have heq : e'.2 = e.2 := by simpa using List.find?_some hfind'
  rw [text, hfind', ← heq]
  exact List.mem_of_find?_eq_some hfind'

/-- The texts of a book are distinct, so an entry of the book is the one `address` finds. -/
theorem address_of_mem {s : Str} {a : Bytes} (h : (s, a) ∈ book.entries) :
    book.address s = some a := by
  have hsome : (book.entries.find? fun e => e.1 = s).isSome := by
    rw [List.find?_isSome]
    exact ⟨_, h, by simp⟩
  obtain ⟨e, hfind⟩ := Option.isSome_iff_exists.mp hsome
  have heq : e.1 = s := by simpa using List.find?_some hfind
  -- The texts are distinct, so the entry found is the listed one.
  have hsame := List.inj_on_of_nodup_map book.texts_nodup (List.mem_of_find?_eq_some hfind) h heq
  rw [address, hfind, hsame]
  rfl

end AddressBook

/-- The book as a codec. An address without a text has no account on the small chain. -/
def AddressBook.codec (book : AddressBook) : AddressCodec where
  accAddressFromBech32 := book.address
  accAddressString := book.text
  roundTrip := fun h => AddressBook.address_of_mem (AddressBook.text_mem h)
  string_ne_nil := fun h => (book.texts _ (AddressBook.text_mem h)).1
  trimSpace_string := fun h => (book.texts _ (AddressBook.text_mem h)).2

/-! ### Hashes -/

/-- Some preimages and their 32-byte hashes. It stands for the hash function on the inputs that a
run needs. -/
structure HashTable where
  entries : List (Bytes × Bytes)
  lengths : ∀ e ∈ entries, e.2.length = 32

/-- The digest the table gives for a message, and the zero hash for a message it does not list. -/
def HashTable.hash (table : HashTable) (b : Bytes) : Bytes :=
  ((table.entries.find? fun e => e.1 = b).map (·.2)).getD zeroHash

/-- Every digest of a table is 32 bytes long, those of messages it does not list included. -/
theorem HashTable.length_hash (table : HashTable) (b : Bytes) : (table.hash b).length = 32 := by
  rw [HashTable.hash]
  cases hfind : table.entries.find? fun e => e.1 = b with
  | none => rfl
  | some e => exact table.lengths e (List.mem_of_find?_eq_some hfind)

/-! ### A trusted setup -/

/-- Crates that know some points with their logarithms and some hashes, and build the trees of
`rs_merkle` over them. -/
def tableCrates (points : List (Bytes × Core.Scalar)) (blake2s : HashTable) : Core.Crates where
  g1FromCompressed := fun b => (points.find? fun e => e.1 = b).map (·.2)
  g1ToCompressed := fun p => ((points.find? fun e => e.2 = p).map (·.1)).getD []
  blake2s256 := blake2s.hash
  merkleRoot := PromotedMerkle.root fun left right => blake2s.hash (left ++ right)
  merkleVerify := fun path root index leaf numLeaves =>
    if index < numLeaves ∧ PromotedMerkle.pathLength numLeaves index ≤ path.length then
      some (PromotedMerkle.foldPath (fun left right => blake2s.hash (left ++ right)) numLeaves index
        leaf path == some root)
    else none

/-- The table's crates meet what the model asks of `rs_merkle`: a leaf is hashed alone, a pair is
hashed concatenated. -/
theorem tableCrates_rsMerkle (points : List (Bytes × Core.Scalar)) (blake2s : HashTable) :
    Core.RsMerkle (tableCrates points blake2s) where
  merkleRoot_eq := fun _ => rfl
  merkleVerify_eq := fun _ _ _ _ _ hindex hpath => if_pos ⟨hindex, hpath⟩

/-- The setup whose secret is 1: the value at 1 of the polynomial with these evaluations is the
first of them. -/
def tableSetup (points : List (Bytes × Core.Scalar)) (blake2s : HashTable) : Core.KzgContext where
  crates := tableCrates points blake2s
  commitEvals := fun evals => evals.headD 0
  g2Points := [1, 1]
  g1Generator := 1

/-! ### Together -/

/-- An environment of listed addresses, hashes and signatures, without a loaded setup. It accepts
one endpoint and knows no account of the auth module. -/
def bookEnv (book : AddressBook) (keccak sha : HashTable) (signers : List (Bytes × Bytes × Bytes))
    (assignFuel : Nat) : Env Ledger where
  bank := ledgerBank
  codec := book.codec
  authority := []
  keccak256 := keccak.hash
  length_keccak256 := keccak.length_hash
  sha256 := sha.hash
  sigToAddress := fun digest sig =>
    (signers.find? fun e => e.1 = digest ∧ e.2.1 = sig).map (·.2.2)
  newMultiaddr := fun text =>
    if text = "/ip4/127.0.0.1/tcp/8080/http".toList then some ⟨text, true⟩ else none
  getAccount := fun _ _ => none
  kzgCtx := none
  assignFuel := assignFuel

/-! ### A small chain -/

/-- The bech32 text of the owner of the sample runs. The two providers follow. -/
def ownerText : Str := "nil1qyqszqgpqyqszqgpqyqszqgpqyqszqgpdqqjtx".toList

/-- The bech32 text of the provider of the sample runs. -/
def providerText : Str := "nil1qgpqyqszqgpqyqszqgpqyqszqgpqyqszuyxhqs".toList

/-- The bech32 text of the second provider of the sample runs. -/
def otherText : Str := "nil1qvpsxqcrqvpsxqcrqvpsxqcrqvpsxqcra58k23".toList

/-- The address of the owner of the sample deals. -/
def ownerAddr : Bytes := List.replicate 20 1

/-- The address behind `providerText`. -/
def providerAddr : Bytes := List.replicate 20 2

/-- The address behind `otherText`. -/
def otherAddr : Bytes := List.replicate 20 3

/-- The address book of the sample runs: the owner and the two providers. -/
def sampleBook : AddressBook where
  entries := [(ownerText, ownerAddr), (providerText, providerAddr), (otherText, otherAddr)]
  texts_nodup := by decide
  texts := by decide +kernel

/-- The SHA-256 that the first assignment of a chain asks for: deal 0, an empty block hash, round
0. -/
def sampleSha : HashTable where
  entries := [(List.replicate 16 0,
    [0x37, 0x47, 0x08, 0xff, 0xf7, 0x71, 0x9d, 0xd5, 0x97, 0x9e, 0xc8, 0x75, 0xd5, 0x6c, 0xd2, 0x28,
      0x6f, 0x6d, 0x3c, 0xf7, 0xec, 0x31, 0x7a, 0x3b, 0x25, 0x63, 0x2a, 0xab, 0x28, 0xec, 0x37,
      0xbb])]
  lengths := by decide

/-- The small chain, whose hashes are those listed. Providers are drawn with at most eight
attempts. -/
def sampleEnv (keccak : HashTable) (signers : List (Bytes × Bytes × Bytes)) : Env Ledger :=
  bookEnv sampleBook keccak sampleSha signers 8

/-- No hash at all, for runs that ask for none. -/
def noKeccak : HashTable := ⟨[], by decide⟩

/-- The accounts have a million each. The module account is empty. -/
def sampleBank : Ledger :=
  [ownerAddr, providerAddr, otherAddr].foldl (fun b addr => Ledger.credit b addr (bondCoin 1000000))
    KVStore.empty

/-- The bound check on a block height, as `simp` meets it inside an unfolded `Ctx`. -/
theorem decide_height {height : Nat} (h : height < 2 ^ 63) : decide (height < 2 ^ 63) = true :=
  decide_eq_true h

/-- The heights of the blocks `1, …, n`. -/
theorem decide_height_fin {n : Nat} (h : n + 1 < 2 ^ 63) (i : Fin n) :
    decide (i.val + 1 < 2 ^ 63) = true :=
  decide_eq_true (by omega)

/-- The context of a block. The chain has one id, and there was no block before. -/
def ctxAt (height : Nat) (h : decide (height < 2 ^ 63) = true := by exact Eq.refl true) : Ctx where
  blockHeight := height
  height_lt := of_decide_eq_true h
  chainId := "test-1".toList
  lastBlockHash := []

/-- A registration of the provider. It serves any hint that asks for `General`. -/
def registerMsg (creator : Str) : Msg :=
  .registerProvider
    { creator := creator
      capabilities := "General".toList
      totalStorage := 0
      endpoints := ["/ip4/127.0.0.1/tcp/8080/http".toList] }

/-- A deal of the owner. Both of its amounts are a thousand. -/
def createMsg (duration : UInt64) (hint : String) : Msg :=
  .createDeal
    { creator := ownerText
      durationBlocks := duration
      serviceHint := hint.toList
      maxMonthlySpend := some 1000
      initialEscrowAmount := some 1000 }

/-- The content of the deal with id 0. It has one byte under the zero root. -/
def commitMsg : Msg := .updateDealContent ⟨ownerText, 0, List.replicate 96 '0', 1⟩

/-- A session over the first two blobs of deal 0. It is the first one of its owner, deal and
provider. -/
def openMsg : MsgOpenRetrievalSession where
  creator := ownerText
  dealId := 0
  provider := providerText
  manifestRoot := List.replicate 48 0
  startMduIndex := 0
  startBlobIndex := 0
  blobCount := 2
  nonce := 1
  expiresAt := 100

/-- The Keccak-256 of the identity of that session: its id. -/
def openId : Bytes :=
  [0x7e, 0x40, 0xb2, 0x89, 0x0c, 0x89, 0xe1, 0x09, 0x4c, 0x80, 0x6e, 0xd3, 0x8c, 0xe5, 0xe0, 0x1a,
    0x99, 0xe5, 0x93, 0x7b, 0x91, 0x48, 0xdf, 0xec, 0x7a, 0xa8, 0x02, 0xa0, 0xd7, 0x10, 0x35, 0x2f]

/-- The digest that the sample opening needs: the id of its session. -/
def openKeccak : HashTable where
  entries :=
    [(sessionIdPreimage ownerAddr 0 providerAddr (List.replicate 48 0) 0 0 2 1 100, openId)]
  lengths := by decide

/-- One provider, a deal with content, and a session. Most samples go on from here. -/
def openRun : List Event :=
  [.deliver (ctxAt 1) (registerMsg providerText), .deliver (ctxAt 1) (createMsg 100 "General"),
    .deliver (ctxAt 1) commitMsg, .endBlock (ctxAt 1),
    .deliver (ctxAt 2) (.openRetrievalSession openMsg)]

/-! ### An EVM account on the small chain -/

/-- The account of the private key 1. Its signatures over the sample intents are listed. -/
def signerText : Str := "nil10e0525sfrf53yh2aljmm3sn9jq5njk7lmnd2xt".toList

/-- The address of that account, to which the sample signatures recover. -/
def signerAddr : Bytes :=
  [0x7e, 0x5f, 0x45, 0x52, 0x09, 0x1a, 0x69, 0x12, 0x5d, 0x5d, 0xfc, 0xb7, 0xb8, 0xc2, 0x65, 0x90,
    0x29, 0x39, 0x5b, 0xdf]

/-- A provider and the EVM account. The small chain of the bridge has no other accounts. -/
def signerBook : AddressBook where
  entries := [(providerText, providerAddr), (signerText, signerAddr)]
  texts_nodup := by decide
  texts := by decide +kernel

/-- The EVM account has a million. It pays the deposits of its deals. -/
def signerBank : Ledger := Ledger.credit KVStore.empty signerAddr (bondCoin 1000000)

/-- The Keccak-256 of the strings of the domain, and of the domain. -/
def domainHashes : List Bytes :=
  [[0x8b, 0x73, 0xc3, 0xc6, 0x9b, 0xb8, 0xfe, 0x3d, 0x51, 0x2e, 0xcc, 0x4c, 0xf7, 0x59, 0xcc, 0x79,
      0x23, 0x9f, 0x7b, 0x17, 0x9b, 0x0f, 0xfa, 0xca, 0xa9, 0xa7, 0x5d, 0x52, 0x2b, 0x39, 0x40,
      0x0f],
    [0xda, 0xa2, 0x3a, 0xc5, 0x21, 0xc8, 0xf8, 0xc9, 0x3c, 0x6d, 0x56, 0x62, 0xf3, 0x82, 0x6e, 0x35,
      0xf2, 0x08, 0x77, 0xd8, 0x26, 0x88, 0xb4, 0x7b, 0xa6, 0xc2, 0xa8, 0x80, 0xb0, 0xa6, 0xf1,
      0xf6],
    [0xc8, 0x9e, 0xfd, 0xaa, 0x54, 0xc0, 0xf2, 0x0c, 0x7a, 0xdf, 0x61, 0x28, 0x82, 0xdf, 0x09, 0x50,
      0xf5, 0xa9, 0x51, 0x63, 0x7e, 0x03, 0x07, 0xcd, 0xcb, 0x4c, 0x67, 0x2f, 0x29, 0x8b, 0x8b,
      0xc6],
    [0x26, 0xaa, 0xd0, 0x1b, 0x0d, 0x06, 0xaf, 0xa8, 0xcb, 0xe3, 0xa3, 0x1c, 0x8f, 0x62, 0x1b, 0x63,
      0xae, 0xbe, 0x30, 0x68, 0xb6, 0xd8, 0x82, 0xf3, 0x3b, 0xaf, 0x05, 0xb1, 0x4b, 0xaa, 0x95,
      0xce]]

/-- What these hashes are of. -/
def domainPreimages : List Bytes :=
  [utf8 ("EIP712Domain(string name,string version,uint256 chainId," ++
      "address verifyingContract)").toList,
    utf8 "NilStore".toList, utf8 "1".toList,
    (domainHashes.take 3).flatten ++ paddedBigBytes 31337 ++ zeroHash]

/-! ### A proof on the small chain -/

/-- The compressed point at infinity. It commits to a blob of zeros. -/
def identityPoint : Bytes := 0xc0 :: List.replicate 47 0

/-- The nodes from the leaf of a blob of zeros to the root of an MDU, where each sibling on the way
is 32 zeros. -/
def sampleNodes : List Bytes :=
  -- from the leaf upwards; each is the hash of the one before and 32 zeros
  [[0x6b, 0x5d, 0x9f, 0xbe, 0x47, 0xcb, 0xe8, 0xb1, 0x67, 0x19, 0x54, 0xbf, 0xb8, 0x2a, 0xcd,
      0x58, 0x5d, 0x92, 0x98, 0xd0, 0xe7, 0x5f, 0x3d, 0x14, 0x40, 0x35, 0x2a, 0x53, 0x14, 0x49,
      0x27, 0x38],
    [0x11, 0x2c, 0x02, 0x44, 0xd7, 0xf7, 0x47, 0x9f, 0x1c, 0x3f, 0x27, 0x2a, 0x18, 0x06, 0x9f,
      0xf1, 0x90, 0x35, 0xc7, 0xce, 0x7a, 0x06, 0x45, 0x4a, 0x04, 0x58, 0x3a, 0xdb, 0xb4, 0xf2,
      0x69, 0x5e],
    [0x0b, 0xf2, 0x64, 0x8d, 0x60, 0xa7, 0x29, 0xc2, 0xe2, 0x89, 0x9c, 0x34, 0xdf, 0xf9, 0x93,
      0x2b, 0x1c, 0x42, 0xa7, 0x19, 0xe1, 0xd2, 0x3f, 0x5c, 0xb4, 0xb5, 0xf0, 0x1d, 0xd7, 0xe6,
      0xe9, 0x1e],
    [0xd0, 0x0d, 0x42, 0x7e, 0x20, 0x36, 0xce, 0x46, 0xb3, 0x9c, 0xf7, 0xf0, 0x85, 0x13, 0xde,
      0xef, 0x23, 0xcd, 0x53, 0x74, 0xd9, 0x38, 0x8f, 0x22, 0x0e, 0x9d, 0x7b, 0x53, 0xc6, 0x9b,
      0x2b, 0x0a],
    [0xa3, 0x64, 0x6b, 0xf2, 0xd4, 0x87, 0x3a, 0x37, 0xc9, 0x3f, 0xd9, 0x39, 0x99, 0x1f, 0x71,
      0x2c, 0x5a, 0x0f, 0x48, 0xe4, 0x96, 0xc8, 0xa7, 0xb7, 0x52, 0xb4, 0x0e, 0x5f, 0xf8, 0xfd,
      0xca, 0x64],
    [0xff, 0x6a, 0x37, 0x6a, 0x32, 0xe9, 0xfb, 0xcf, 0xfb, 0x8e, 0x2b, 0x08, 0x07, 0x54, 0x7e,
      0xf2, 0x3d, 0x14, 0x97, 0x04, 0x4a, 0xbb, 0x68, 0x9c, 0x4c, 0x3b, 0x3b, 0xdd, 0xeb, 0x47,
      0x69, 0x1b],
    [0xdb, 0x6d, 0xdd, 0x57, 0xc3, 0xad, 0x3d, 0xef, 0x20, 0x9d, 0x42, 0x92, 0x30, 0x23, 0x83,
      0xa4, 0x0c, 0xdd, 0xa6, 0xbd, 0xad, 0x11, 0xe7, 0xa4, 0x88, 0xae, 0x39, 0x64, 0xd9, 0x6c,
      0xb3, 0x94]]

/-- The Blake2s of the leaf and of the inner nodes. Each inner node is the hash of the one below it
and of the zero hash. -/
def sampleBlake2s : HashTable where
  entries := (identityPoint :: sampleNodes.map (· ++ zeroHash)).zip sampleNodes
  lengths := by decide +kernel

/-- The root of the MDU. It is the last of the nodes. -/
def sampleMduRoot : Bytes := sampleNodes.getLastD []

/-- The commitment to the polynomial that is constantly the root of the MDU. -/
def sampleManifestRoot : Bytes :=
  [0xb4, 0x11, 0x39, 0x7d, 0xf5, 0xfb, 0x34, 0x5e, 0xba, 0x89, 0x57, 0xe4, 0x09, 0x93, 0x1d, 0x77,
    0x83, 0x29, 0x1c, 0x7f, 0x6e, 0x46, 0xe1, 0x30, 0xa4, 0xec, 0x11, 0x22, 0x38, 0x39, 0x45, 0x8f,
    0xe1, 0x9d, 0xdc, 0x25, 0x63, 0x71, 0x92, 0xab, 0xc5, 0x0a, 0x27, 0x3e, 0x47, 0x5f, 0x8b, 0x47]

/-- A trusted setup over the table's crates, enough of one for the sample proofs to be checked. -/
def sampleSetup : Core.KzgContext :=
  tableSetup [(identityPoint, 0), (sampleManifestRoot, Core.reduceBytes32ToScalar sampleMduRoot)]
    sampleBlake2s

/-- The proof that the first byte of the first blob of the MDU is zero. All the siblings of its path
are zero hashes. -/
def sampleProof (mduIndex : UInt64) : ChainedProof where
  mduIndex := mduIndex
  mduRootFr := sampleMduRoot
  manifestOpening := identityPoint
  blobCommitment := identityPoint
  merklePath := List.replicate 6 zeroHash
  blobIndex := 0
  zValue := zeroHash
  yValue := zeroHash
  kzgOpeningProof := identityPoint

/-- The content of deal 0 that the proof is about. -/
def commitSampleMsg : Msg := .updateDealContent ⟨ownerText, 0, hexEncode sampleManifestRoot, 1⟩

/-- The small chain with the setup loaded. Proofs are checked on it. -/
def sampleProofEnv (keccak : HashTable) : Env Ledger :=
  { sampleEnv keccak [] with kzgCtx := some sampleSetup }

/-- One provider, and a deal with that content. The hint is left open. -/
def sampleContentRun (hint : String) : List Event :=
  [.deliver (ctxAt 1) (registerMsg providerText), .deliver (ctxAt 1) (createMsg 100 hint),
    .deliver (ctxAt 1) commitSampleMsg]

/-- The setup accepts the proof for an MDU of 64 blobs. -/
example : verifyBatchProof (some sampleSetup) sampleManifestRoot 64 (sampleProof 0) =
    .verdict true := by decide +kernel

end NilStore.Chain
