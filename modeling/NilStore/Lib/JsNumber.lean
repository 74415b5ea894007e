import Mathlib.Data.Int.Log
import Mathlib.Data.Rat.Floor
import NilStore.Lib.GoString

/-!
# `NilStore.Lib.JsNumber`: the number that a text stands for

`Number` of JavaScript on a text without white space at its ends: a decimal literal with a sign, a
point and an exponent, or an integer with the prefix of its radix. The value of the literal is a
rational number, and the result is the nearest double, a tie to the even one.

A zero has no sign here.
-/

set_option autoImplicit false

namespace NilStore.Lib

/-- A value of the type `number`. -/
inductive JsNumber where
  | nan
  | infinity (negative : Bool)
  | finite (q : ℚ)
deriving DecidableEq

/-! ### Rounding -/

/-- The nearest integer, a tie to the even one. -/
def roundTiesEven (q : ℚ) : ℤ :=
  if q - ⌊q⌋ < 1 / 2 ∨ q - ⌊q⌋ = 1 / 2 ∧ ⌊q⌋ % 2 = 0 then ⌊q⌋ else ⌊q⌋ + 1

/-- The exponent of the last bit of a double near the number. -/
def lastBit (q : ℚ) : ℤ := max (Int.log 2 q - 52) (-1074)

/-- The nearest number with 53 significant bits, or with its last bit at the smallest exponent. -/
def nearestDouble (q : ℚ) : ℚ := roundTiesEven (q / 2 ^ lastBit q) * 2 ^ lastBit q

/-- The double for a number that is not negative, with a sign in front. -/
def JsNumber.ofRat (q : ℚ) (negative : Bool) : JsNumber :=
  if 2 ^ 1024 ≤ nearestDouble q then .infinity negative
  else .finite (if negative then -nearestDouble q else nearestDouble q)

/-! ### Literals -/

/-- The number that digits of a radix write. -/
def radixDigits (radix : Nat) (ds : Str) : Option Nat :=
  if ds = [] then none
  else
    ds.foldlM (fun n c => do
      let d ← hexVal c
      if d < radix then some (n * radix + d) else none) 0

/-- The radix that a prefix names, and the digits after it. -/
def radixPrefix : Str → Option (Nat × Str)
  | '0' :: c :: ds =>
      if c = 'x' ∨ c = 'X' then some (16, ds)
      else if c = 'o' ∨ c = 'O' then some (8, ds)
      else if c = 'b' ∨ c = 'B' then some (2, ds)
      else none
  | _ => none

/-- The exponent at the end of a decimal literal. -/
def exponentPart : Str → Option ℤ
  | [] => some 0
  | c :: rest =>
      if c = 'e' ∨ c = 'E' then
        match rest with
        | '-' :: ds => (radixDigits 10 ds).map fun n => -n
        | '+' :: ds => (radixDigits 10 ds).map fun n => n
        | ds => (radixDigits 10 ds).map fun n => n
      else none

/-- The value of a decimal literal without a sign. -/
def unsignedDecimal (s : Str) : Option ℚ :=
  let whole := s.takeWhile Char.isDigit
  let rest := s.dropWhile Char.isDigit
  let frac := if rest.head? = some '.' then rest.tail.takeWhile Char.isDigit else []
  let rest := if rest.head? = some '.' then rest.tail.dropWhile Char.isDigit else rest
  if whole = [] ∧ frac = [] then none
  else
    (exponentPart rest).map fun e =>
      (Nat.ofDigitChars 10 (whole ++ frac) 0 : ℕ) * (10 : ℚ) ^ (e - (frac.length : ℤ))

/-- A decimal literal behind its sign. -/
def decimalLiteral (negative : Bool) (s : Str) : JsNumber :=
  if s = "Infinity".toList then .infinity negative
  else
    match unsignedDecimal s with
    | some q => .ofRat q negative
    | none => .nan

/-- `StringNumericLiteral`, without the white space around it. -/
def numericLiteral (s : Str) : JsNumber :=
  if s = [] then .finite 0
  else
    match radixPrefix s with
    | some (radix, ds) =>
        match radixDigits radix ds with
        | some n => .ofRat n false
        | none => .nan
    | none =>
        match s with
        | '-' :: rest => decimalLiteral true rest
        | '+' :: rest => decimalLiteral false rest
        | s => decimalLiteral false s

/-! ### Integers -/

/-- An integer is not changed by rounding. -/
theorem roundTiesEven_intCast (n : ℤ) : roundTiesEven n = n := by
  rw [roundTiesEven, Int.floor_intCast, sub_self, if_pos (Or.inl (by norm_num))]

/-- Rounding gives the integer below the number or the next one. -/
theorem roundTiesEven_bounds (q : ℚ) : ⌊q⌋ ≤ roundTiesEven q ∧ roundTiesEven q ≤ ⌊q⌋ + 1 := by
  rw [roundTiesEven]
  split <;> omega

/-- An integer with at most 53 bits is a double. -/
theorem nearestDouble_natCast {n : ℕ} (h : n < 2 ^ 53) : nearestDouble n = n := by
  have hlog : Int.log 2 (n : ℚ) ≤ 52 := by
    rw [Int.log_natCast]
    have hlt : Nat.log 2 n < 53 := Nat.log_lt_of_lt_pow' (by decide) h
    omega
  obtain ⟨k, hk⟩ : ∃ k : ℕ, lastBit n = -(k : ℤ) := by
    have hle : lastBit n ≤ 0 := max_le (by omega) (by decide)
    exact ⟨(-lastBit n).toNat, by omega⟩
  -- The number is a multiple of its last bit.
  have hscale : (n : ℚ) / 2 ^ lastBit n = ((n * 2 ^ k : ℤ) : ℚ) := by
    rw [hk, zpow_neg, zpow_natCast, div_inv_eq_mul]
    push_cast
    rfl
  rw [nearestDouble, hscale, roundTiesEven_intCast, ← hscale]
  exact div_mul_cancel₀ _ (zpow_ne_zero _ two_ne_zero)

/-- A `uint64` that is not zero stays positive, and it is far from the largest double. -/
theorem nearestDouble_range {n : ℕ} (hpos : 0 < n) (h : n < 2 ^ 64) :
    0 < nearestDouble n ∧ nearestDouble n < 2 ^ 1024 := by
  have hn : (0 : ℚ) < n := Nat.cast_pos.mpr hpos
  have hbit : (0 : ℚ) < 2 ^ lastBit n := zpow_pos two_pos _
  have hle : (2 : ℚ) ^ lastBit n ≤ n := by
    have hlog : (2 : ℚ) ^ Int.log 2 (n : ℚ) ≤
      n := by exact_mod_cast Int.zpow_log_le_self one_lt_two hn
    have hbelow : lastBit n ≤ Int.log 2 (n : ℚ) := by
      have hnonneg : 0 ≤ Int.log 2 (n : ℚ) := by
        rw [Int.log_natCast]
        omega
      exact max_le (by omega) (by omega)
    exact le_trans (zpow_le_zpow_right₀ one_le_two hbelow) hlog
  have hone : 1 ≤ (n : ℚ) / 2 ^ lastBit n := (one_le_div hbit).mpr hle
  obtain ⟨hlow, hhigh⟩ := roundTiesEven_bounds ((n : ℚ) / 2 ^ lastBit n)
  have hfloor : (1 : ℤ) ≤ ⌊(n : ℚ) / 2 ^ lastBit n⌋ := Int.le_floor.mpr (by exact_mod_cast hone)
  -- rounding adds less than one unit of the last bit
  have hround : (roundTiesEven ((n : ℚ) / 2 ^ lastBit n) : ℚ) ≤ n / 2 ^ lastBit n + 1 := by
    have hcast : (roundTiesEven ((n : ℚ) / 2 ^ lastBit n) : ℚ) ≤ ⌊(n : ℚ) / 2 ^ lastBit n⌋ + 1 := by
      exact_mod_cast hhigh
    exact le_trans hcast (add_le_add_left (Int.floor_le _) _)
  have hposRound : (0 : ℚ) < roundTiesEven ((n : ℚ) / 2 ^ lastBit n) := by
    exact_mod_cast lt_of_lt_of_le Int.zero_lt_one (le_trans hfloor hlow)
  have hn64 : (n : ℚ) < 2 ^ 64 := by exact_mod_cast h
  refine ⟨mul_pos hposRound hbit, ?_⟩
  -- so the double is at most twice the number
  calc nearestDouble n ≤ (n / 2 ^ lastBit n + 1) * 2 ^ lastBit n :=
        mul_le_mul_of_nonneg_right hround hbit.le
    _ = n + 2 ^ lastBit n := by rw [add_mul, div_mul_cancel₀ _ hbit.ne', one_mul]
    _ ≤ n + n := add_le_add_right hle _
    _ < 2 ^ 64 + 2 ^ 64 := add_lt_add hn64 hn64
    _ = 2 ^ 65 := by norm_num
    _ < 2 ^ 1024 := pow_lt_pow_right₀ one_lt_two (by decide)

/-- A text of digits is a decimal integer. -/
theorem numericLiteral_digits {s : Str} (hne : s ≠ []) (hdigits : ∀ c ∈ s, c.isDigit = true) :
    numericLiteral s = .ofRat (Nat.ofDigitChars 10 s 0 : ℕ) false := by
  obtain ⟨c, cs, rfl⟩ := List.exists_cons_of_ne_nil hne
  have hc := hdigits c List.mem_cons_self
  have hnot : ∀ {d e : Char}, d.isDigit = true → e.isDigit = false → d ≠ e := by
    rintro d e hd he rfl
    rw [hd] at he
    cases he
  -- a digit behind a zero is no letter of a radix
  have hradix : radixPrefix (c :: cs) = none := by
    rw [radixPrefix.eq_def]
    split
    · rename_i heq
      obtain ⟨rfl, rfl⟩ := List.cons.inj heq
      rename_i x ds
      have hx := hdigits x (List.mem_cons_of_mem _ List.mem_cons_self)
      rw [if_neg, if_neg, if_neg]
      all_goals
        rintro (rfl | rfl) <;> exact absurd hx (by decide)
    · rfl
  -- all of the text is digits, so there is no fraction and no exponent
  have htake : (c :: cs).takeWhile Char.isDigit = c :: cs := List.takeWhile_eq_self_iff.mpr hdigits
  have hdrop : (c :: cs).dropWhile Char.isDigit = [] := List.dropWhile_eq_nil_iff.mpr hdigits
  have hvalue : unsignedDecimal (c :: cs) = some ((Nat.ofDigitChars 10 (c :: cs) 0 : ℕ) : ℚ) := by
    rw [unsignedDecimal]
    simp only [htake, hdrop, List.head?_nil, reduceCtorEq, if_false, false_and,
      List.append_nil, exponentPart,
      Option.map_some, List.length_nil, Nat.cast_zero, sub_self, zpow_zero, mul_one]
  have hinf : c :: cs ≠ "Infinity".toList := fun heq =>
    hnot hc (by decide) (List.cons.inj heq).1
  have hdecimal : decimalLiteral false (c :: cs) =
      .ofRat (Nat.ofDigitChars 10 (c :: cs) 0 : ℕ) false := by
    rw [decimalLiteral, if_neg hinf, hvalue]
  have hunsigned : ∀ (d : Char) (rest : Str), d.isDigit = false → c :: cs ≠ d :: rest :=
    fun d rest hd heq => hnot hc hd (List.cons.inj heq).1
  rw [numericLiteral, if_neg hne, hradix]
  · exact hdecimal
  · exact fun rest heq => hunsigned '-' rest (by decide) heq
  · exact fun rest heq => hunsigned '+' rest (by decide) heq

end NilStore.Lib
