import Mathlib
import NilStore.Lib.Bytes

/-!
# `NilStore.Lib.GoString`: the string functions of Go's standard library

A Go string is modelled by the list of its characters. The functions are the ones of the
packages `strings`, `strconv` and `encoding/hex` that the chain calls, on valid UTF-8.

`utf8` is the byte string behind a string, and `utf8_injective` says that it determines the
string. `goText` goes the other way, with U+FFFD for a byte that begins no character. `decimal`
is the decimal text of an integer, also injective.
-/

set_option autoImplicit false

namespace NilStore.Lib

/-- A Go string: its characters. Its bytes are their UTF-8 encoding. -/
abbrev Str := List Char

instance instLawfulBEqStr : LawfulBEq Str := List.instLawfulBEq

/-- The bytes of the string, as the conversion `[]byte(s)` gives them. -/
def utf8 (s : Str) : Bytes := s.flatMap String.utf8EncodeChar

/-- The string is determined by its bytes. -/
theorem utf8_injective : Function.Injective utf8 := by
  intro s t h
  have henc : List.utf8Encode s = List.utf8Encode t := by
    simpa [List.utf8Encode, utf8] using congrArg List.toByteArray h
  have hs := List.utf8Decode?_utf8Encode (l := s)
  rw [henc, List.utf8Decode?_utf8Encode] at hs
  exact (by simpa using Option.some.inj hs : t = s).symm

/-- The characters of the bytes, at most as many as said. A byte that begins no character becomes
U+FFFD. -/
def decodeRunes : Nat → Bytes → Str
  | 0, _ => []
  | _ + 1, [] => []
  | fuel + 1, x :: rest =>
      match (ByteArray.mk (x :: rest).toArray).utf8DecodeChar? 0 with
      | some c => c :: decodeRunes fuel ((x :: rest).drop c.utf8Size)
      | none => Char.ofNat 0xFFFD :: decodeRunes fuel rest

/-- The text that Go makes of bytes. -/
def goText (b : Bytes) : Str := decodeRunes b.length b

/-- The bytes of a text make the text again. -/
theorem goText_utf8 (s : Str) : goText (utf8 s) = s := by
  -- there are as many units of fuel as bytes, and each character takes one byte or more
  suffices h : ∀ fuel, (utf8 s).length ≤ fuel → decodeRunes fuel (utf8 s) = s from h _ (le_refl _)
  induction s with
  | nil =>
      intro fuel _
      cases fuel <;> rfl
  | cons c s ih =>
      intro fuel hfuel
      have hcons : utf8 (c :: s) = String.utf8EncodeChar c ++ utf8 s := rfl
      have hlen : (String.utf8EncodeChar c).length = c.utf8Size := String.length_utf8EncodeChar c
      have hpos : 0 < c.utf8Size := Char.utf8Size_pos c
      -- the first character is read back from its bytes
      have hdecode : (ByteArray.mk (utf8 (c :: s)).toArray).utf8DecodeChar? 0 = some c := by
        have h := @ByteArray.utf8DecodeChar?_utf8EncodeChar_append ⟨(utf8 s).toArray⟩ c
        have happ : (String.utf8EncodeChar c).toByteArray ++ ⟨(utf8 s).toArray⟩ =
            ByteArray.mk (utf8 (c :: s)).toArray := by
          apply ByteArray.ext
          simp [hcons]
        rwa [happ] at h
      rw [hcons, List.length_append, hlen] at hfuel
      have hdrop : (utf8 (c :: s)).drop c.utf8Size = utf8 s := by rw [hcons, List.drop_left' hlen]
      cases hbytes : utf8 (c :: s) with
      | nil =>
          rw [hcons, List.append_eq_nil_iff] at hbytes
          rw [hbytes.1] at hlen
          exact absurd hlen hpos.ne
      | cons x rest =>
          cases fuel with
          | zero => omega
          | succ fuel =>
              rw [hbytes] at hdecode hdrop
              rw [decodeRunes, hdecode]
              simp only
              rw [hdrop, ih fuel (by omega)]

/-- `unicode.IsSpace`: the characters with the property White_Space. -/
def isSpace (c : Char) : Bool :=
  let n := c.toNat
  (9 ≤ n && n ≤ 13) || n == 32 || n == 0x85 || n == 0xA0 || n == 0x1680
    || (0x2000 ≤ n && n ≤ 0x200A) || n == 0x2028 || n == 0x2029 || n == 0x202F || n == 0x205F
    || n == 0x3000

/-- `strings.TrimSpace`. White space inside the text stays. -/
def trimSpace (s : Str) : Str := ((s.dropWhile isSpace).reverse.dropWhile isSpace).reverse

/-- Trimming leaves nothing exactly when there is nothing but white space. -/
theorem trimSpace_eq_nil_iff {s : Str} : trimSpace s = [] ↔ ∀ c ∈ s, isSpace c := by
  rw [trimSpace, List.reverse_eq_nil_iff, List.dropWhile_eq_nil_iff]
  simp only [List.mem_reverse]
  constructor
  · intro h
    by_contra hex
    push Not at hex
    obtain ⟨c, hc, hspace⟩ := hex
    -- What is left of the string starts with a character that is no white space.
    cases hdrop : s.dropWhile isSpace with
    | nil => exact hspace (List.dropWhile_eq_nil_iff.mp hdrop c hc)
    | cons d rest =>
        have hd : isSpace d = true := h d (by rw [hdrop]; exact List.mem_cons_self)
        have := List.head?_dropWhile_not isSpace s
        rw [hdrop] at this
        simp [hd] at this
  · intro h c hc
    exact h c (List.dropWhile_subset isSpace hc)

/-- Trimming leaves a string without white space alone. -/
theorem trimSpace_eq_self {s : Str} (h : ∀ c ∈ s, isSpace c = false) : trimSpace s = s := by
  have hdrop : ∀ {t : Str}, (∀ c ∈ t, isSpace c = false) → t.dropWhile isSpace = t := by
    intro t ht
    rw [List.dropWhile_eq_self_iff]
    intro hlen
    rw [ht _ (List.getElem_mem hlen)]
    exact Bool.false_ne_true
  rw [trimSpace, hdrop h, hdrop (fun c hc => h c (List.mem_reverse.mp hc)), List.reverse_reverse]

/-- `unicode.ToLower` on the characters whose lower case is ASCII; a character whose lower
case is not ASCII stays, since the chain compares lower-cased text with ASCII only. -/
def toLowerRune (c : Char) : Char :=
  if c.toNat = 0x212A then 'k'
  else if c.toNat = 0x130 then 'i'
  else c.toLower

/-- `strings.ToLower`. Each character is mapped for itself. -/
def toLower (s : Str) : Str := s.map toLowerRune

/-- `strings.HasPrefix`. -/
def hasPrefix (s pre : Str) : Bool := pre.isPrefixOf s

/-- `strings.TrimPrefix`. -/
def trimPrefix (s pre : Str) : Str := if hasPrefix s pre then s.drop pre.length else s

/-- The text before and after the first separator, if there is one: `strings.Index` and the
two slices around it. -/
def cut (sep : Char) (s : Str) : Option (Str × Str) :=
  match s.span (· ≠ sep) with
  | (_, []) => none
  | (before, _ :: after) => some (before, after)

/-- The value of a decimal digit. -/
def digitVal (c : Char) : Option Nat :=
  if '0' ≤ c ∧ c ≤ '9' then some (c.toNat - 48) else none

/-- `strconv.ParseUint(s, 10, 64)`: decimal digits only, at least one, and no overflow. -/
def parseUint (s : Str) : Option UInt64 :=
  if s = [] then none
  else
    (s.foldl (fun acc c => do
      let n ← acc
      let d ← digitVal c
      if n * 10 + d < 2 ^ 64 then some (n * 10 + d) else none) (some 0)).map UInt64.ofNat

/-- The lower-case hex digit of a number below 16. -/
def hexDigit (n : Nat) : Char :=
  if n < 10 then Char.ofNat (48 + n) else Char.ofNat (87 + n)

/-- `hex.EncodeToString`. Each byte becomes two digits. -/
def hexEncode (b : Bytes) : Str :=
  b.flatMap fun x => [hexDigit (x.toNat / 16), hexDigit (x.toNat % 16)]

/-- The value of a hex digit of either case. -/
def hexVal (c : Char) : Option Nat :=
  if '0' ≤ c ∧ c ≤ '9' then some (c.toNat - 48)
  else if 'a' ≤ c ∧ c ≤ 'f' then some (c.toNat - 87)
  else if 'A' ≤ c ∧ c ≤ 'F' then some (c.toNat - 55)
  else none

/-- `hex.DecodeString`: pairs of hex digits, nothing else. -/
def hexDecode : Str → Option Bytes
  | [] => some []
  | [_] => none
  | hi :: lo :: rest => do
      let h ← hexVal hi
      let l ← hexVal lo
      let tail ← hexDecode rest
      some (UInt8.ofNat (h * 16 + l) :: tail)

/-- A hexadecimal digit is read back as the number it was written for. -/
theorem hexVal_hexDigit {n : Nat} (h : n < 16) : hexVal (hexDigit n) = some n := by
  interval_cases n <;> rfl

/-- Decoding reads back what encoding has written. -/
theorem hexDecode_hexEncode (b : Bytes) : hexDecode (hexEncode b) = some b := by
  induction b with
  | nil => rfl
  | cons x rest ih =>
      have hx : x.toNat < 256 := x.toNat_lt
      have hbyte : x.toNat / 16 * 16 + x.toNat % 16 = x.toNat := Nat.div_add_mod' _ _
      rw [hexEncode, List.flatMap_cons, ← hexEncode, List.cons_append, List.cons_append,
        List.nil_append, hexDecode, hexVal_hexDigit (by omega), hexVal_hexDigit (by omega), ih]
      simp only [Option.bind_eq_bind, Option.bind_some, hbyte, UInt8.ofNat_toNat]

/-- The decimal text of an integer, as `math.Int.String` writes it. -/
def decimal (n : Int) : Str := (toString n).toList

/-- An integer is determined by its decimal text. -/
theorem decimal_injective : Function.Injective decimal := by
  intro m n h
  exact Int.repr_injective (String.toList_inj.mp h)

end NilStore.Lib
