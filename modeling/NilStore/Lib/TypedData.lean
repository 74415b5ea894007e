import NilStore.Lib.GoString

/-!
# `NilStore.Lib.TypedData`: the standard EIP-712 digest

What a wallet signs for a typed-data object: the lists of members by type name, the name of the
primary type, and the fields of the domain and of the message. A type is written as its name and its
members, in their order (`encodeType`), and each field as one word. Here a member is a string or has
an atomic type, so a type refers to no other.

An object that does not fit its types has no digest.
-/

set_option autoImplicit false

namespace NilStore.Lib

/-- A member of a struct type: its name, and its type as a text. -/
structure TypedMember where
  name : String
  type : String
deriving DecidableEq

/-- The value of a field: a number, or a text that stands for itself, an address or bytes. -/
inductive TypedValue where
  | number (n : Nat)
  | text (s : Str)

/-- A typed-data object: the types, which of them the message has, the domain and the message. -/
structure TypedData where
  types : List (String × List TypedMember)
  primaryType : String
  domain : List (String × TypedValue)
  message : List (String × TypedValue)

/-- `encodeType`. The name and the members are written out as one text. -/
def encodeType (name : String) (members : List TypedMember) : Str :=
  name.toList ++ '(' ::
    [','].intercalate (members.map fun m => m.type.toList ++ ' ' :: m.name.toList) ++ [')']

/-- The bytes of a text with a `0x` in front. -/
def hexBytes (s : Str) : Option Bytes :=
  if hasPrefix s "0x".toList then hexDecode (s.drop 2) else none

/-- The word of a field. -/
def encodeValue (keccak256 : Bytes → Bytes) (type : String) : TypedValue → Option Bytes
  | .number n =>
      if type = "uint64" ∧ n < 2 ^ 64 ∨ type = "uint256" ∧ n < 2 ^ 256 then some (beBytes 32 n)
      else none
  | .text s =>
      if type = "string" then some (keccak256 (utf8 s))
      else if type = "address" then
        (hexBytes s).bind fun b => if b.length = 20 then some (List.replicate 12 0 ++ b) else none
      else if type = "bytes32" then
        (hexBytes s).bind fun b => if b.length = 32 then some b else none
      else none

/-- `encodeData`: the words of the members, in their order. -/
def encodeData (keccak256 : Bytes → Bytes) (fields : List (String × TypedValue)) :
    List TypedMember → Option Bytes
  | [] => some []
  | m :: rest => do
      let value ← fields.lookup m.name
      let word ← encodeValue keccak256 m.type value
      let words ← encodeData keccak256 fields rest
      return word ++ words

/-- `hashStruct`. It hashes the hash of the type and the words of the members. -/
def hashStruct (keccak256 : Bytes → Bytes) (types : List (String × List TypedMember))
    (name : String) (fields : List (String × TypedValue)) : Option Bytes := do
  let members ← types.lookup name
  let data ← encodeData keccak256 fields members
  return keccak256 (keccak256 (utf8 (encodeType name members)) ++ data)

/-- The digest of a typed-data object. It is what a wallet signs. -/
def TypedData.digest (keccak256 : Bytes → Bytes) (td : TypedData) : Option Bytes := do
  let domainSeparator ← hashStruct keccak256 td.types "EIP712Domain" td.domain
  let structHash ← hashStruct keccak256 td.types td.primaryType td.message
  return keccak256 ([0x19, 0x01] ++ domainSeparator ++ structHash)

section

variable {keccak256 : Bytes → Bytes} {types : List (String × List TypedMember)} {name : String}
  {fields : List (String × TypedValue)} {members : List TypedMember}

/-- A `uint64` that fits is encoded as a 32-byte word. -/
theorem encodeValue_uint64 {n : Nat} (h : n < 2 ^ 64) :
    encodeValue keccak256 "uint64" (.number n) = some (beBytes 32 n) := if_pos (.inl ⟨rfl, h⟩)

/-- A `uint256` that fits is encoded as a 32-byte word. -/
theorem encodeValue_uint256 {n : Nat} (h : n < 2 ^ 256) :
    encodeValue keccak256 "uint256" (.number n) = some (beBytes 32 n) := if_pos (.inr ⟨rfl, h⟩)

/-- A `string` is encoded as the hash of its UTF-8 bytes. -/
@[simp] theorem encodeValue_string (s : Str) :
    encodeValue keccak256 "string" (.text s) = some (keccak256 (utf8 s)) := by
  rw [encodeValue, if_pos rfl]

/-- An `address` is padded on the left to a word. -/
theorem encodeValue_address {s : Str} {b : Bytes} (h : hexBytes s = some b)
    (hlength : b.length = 20) :
    encodeValue keccak256 "address" (.text s) = some (List.replicate 12 0 ++ b) := by
  rw [encodeValue, if_neg (by decide), if_pos rfl, h, Option.bind_some, if_pos hlength]

/-- A `bytes32` is its own word. -/
theorem encodeValue_bytes32 {s : Str} {b : Bytes} (h : hexBytes s = some b)
    (hlength : b.length = 32) :
    encodeValue keccak256 "bytes32" (.text s) = some b := by
  rw [encodeValue, if_neg (by decide), if_neg (by decide), if_pos rfl, h, Option.bind_some,
    if_pos hlength]

/-- A struct without members has no data. -/
@[simp] theorem encodeData_nil : encodeData keccak256 fields [] = some [] := rfl

/-- The word of the first member, and the words of the others. -/
theorem encodeData_cons {m : TypedMember} {value : TypedValue} {word words : Bytes}
    (hfield : fields.lookup m.name = some value)
    (hword : encodeValue keccak256 m.type value = some word)
    (hwords : encodeData keccak256 fields members = some words) :
    encodeData keccak256 fields (m :: members) = some (word ++ words) := by
  rw [encodeData, hfield, Option.bind_eq_bind, Option.bind_some, hword, Option.bind_eq_bind,
    Option.bind_some, hwords]
  rfl

/-- The hash of a struct, once its members are known and encoded. -/
theorem hashStruct_eq {data : Bytes} (hmembers : types.lookup name = some members)
    (hdata : encodeData keccak256 fields members = some data) :
    hashStruct keccak256 types name fields =
      some (keccak256 (keccak256 (utf8 (encodeType name members)) ++ data)) := by
  rw [hashStruct, hmembers, Option.bind_eq_bind, Option.bind_some, hdata]
  rfl

/-- The digest of typed data, once its two struct hashes are known. -/
theorem TypedData.digest_eq {td : TypedData} {domainSeparator structHash : Bytes}
    (hdomain : hashStruct keccak256 td.types "EIP712Domain" td.domain = some domainSeparator)
    (hstruct : hashStruct keccak256 td.types td.primaryType td.message = some structHash) :
    td.digest keccak256 = some (keccak256 ([0x19, 0x01] ++ domainSeparator ++ structHash)) := by
  rw [TypedData.digest, hdomain, Option.bind_eq_bind, Option.bind_some, hstruct]
  rfl

end

end NilStore.Lib
