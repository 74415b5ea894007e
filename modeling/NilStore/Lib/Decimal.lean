import Mathlib.Data.Nat.Basic
import NilStore.Lib.GoString

/-!
# `NilStore.Lib.Decimal`: decimal numbers

`decimal` writes a natural number with digits alone, and `parseUint` reads what it has written. What
else `parseUint` reads differs in leading zeros only: `parseUint_eq_some_iff` says that it takes a
text of digits whose number fits in 64 bits.
-/

set_option autoImplicit false

namespace NilStore.Lib

/-! ### Digits -/

/-- A character has a value exactly when it is an ASCII digit, and then it is the usual one. -/
theorem digitVal_eq_some_iff {c : Char} {d : Nat} :
    digitVal c = some d ↔ c.isDigit = true ∧ d = c.toNat - 48 := by
  have hdigit : c.isDigit = true ↔ '0' ≤ c ∧ c ≤ '9' := by
    rw [Char.isDigit, Bool.and_eq_true, decide_eq_true_iff, decide_eq_true_iff]
    exact Iff.rfl
  rw [digitVal, hdigit]
  constructor
  · intro h
    split at h
    · rename_i hd
      cases h
      exact ⟨hd, rfl⟩
    · cases h
  · rintro ⟨hd, rfl⟩
    exact if_pos hd

/-- The code points of the digits. -/
theorem isDigit_range {c : Char} (h : c.isDigit = true) : 48 ≤ c.toNat ∧ c.toNat ≤ 57 := by
  obtain ⟨hlow, hhigh⟩ := Bool.and_eq_true_iff.mp h
  exact ⟨UInt32.le_iff_toNat_le.mp (of_decide_eq_true hlow),
    UInt32.le_iff_toNat_le.mp (of_decide_eq_true hhigh)⟩

/-- A digit is no white space. -/
theorem isSpace_of_isDigit {c : Char} (h : c.isDigit = true) : isSpace c = false := by
  obtain ⟨hlow, hhigh⟩ := isDigit_range h
  have hnone : ∀ n, 58 ≤ n → ¬c.toNat = n ∧ ¬n ≤ c.toNat := fun n hn => ⟨by omega, by omega⟩
  rw [isSpace]
  simp only [Bool.or_eq_false_iff, Bool.and_eq_false_iff, decide_eq_false_iff_not,
    beq_eq_false_iff_ne]
  omega

/-- A text of digits ends where the first other character stands. -/
theorem digits_append_cons_inj {s t a b : Str} {c d : Char} (hs : ∀ x ∈ s, x.isDigit = true)
    (ht : ∀ x ∈ t, x.isDigit = true) (hc : c.isDigit = false) (hd : d.isDigit = false)
    (h : s ++ c :: a = t ++ d :: b) : s = t ∧ c :: a = d :: b := by
  have htake : ∀ {s a : Str} {c : Char}, (∀ x ∈ s, x.isDigit = true) → c.isDigit = false →
      (s ++ c :: a).takeWhile Char.isDigit = s := by
    intro s a c hs hc
    rw [List.takeWhile_append_of_pos hs, List.takeWhile_cons, if_neg (by rw [hc]; decide),
      List.append_nil]
  have heq : s = t := by rw [← htake hs hc, h, htake ht hd]
  subst heq
  exact ⟨rfl, List.append_cancel_left h⟩

/-! ### Reading -/

/-- The body of the loop in `strconv.ParseUint`. -/
def parseDigit (acc : Option Nat) (c : Char) : Option Nat := do
  let n ← acc
  let d ← digitVal c
  if n * 10 + d < 2 ^ 64 then some (n * 10 + d) else none

/-- Once the parse has failed, no digit revives it. -/
theorem foldl_parseDigit_none (s : Str) : s.foldl parseDigit none = none := by
  induction s with
  | nil => rfl
  | cons c s ih => exact ih

/-- A digit is taken exactly when the number with it stays below 2^64. -/
theorem parseDigit_some_eq_some_iff {n r : Nat} {c : Char} :
    parseDigit (some n) c = some r ↔
      c.isDigit = true ∧ r = 10 * n + (c.toNat - '0'.toNat) ∧ r < 2 ^ 64 := by
  simp only [parseDigit, Option.bind_eq_bind, Option.bind_some, Option.bind_eq_some_iff]
  constructor
  · rintro ⟨d, hd, h⟩
    obtain ⟨hdigit, rfl⟩ := digitVal_eq_some_iff.mp hd
    split at h
    · rename_i hlt
      cases h
      exact ⟨hdigit, by rw [Nat.mul_comm]; rfl, hlt⟩
    · cases h
  · rintro ⟨hdigit, rfl, hlt⟩
    rw [Nat.mul_comm 10 n] at hlt ⊢
    exact ⟨_, digitVal_eq_some_iff.mpr ⟨hdigit, rfl⟩, if_pos hlt⟩

/-- The number only grows. -/
theorem le_ofDigitChars (s : Str) (n : Nat) : n ≤ Nat.ofDigitChars 10 s n := by
  rw [Nat.ofDigitChars_eq_ofDigitChars_zero]
  exact le_trans (Nat.le_mul_of_pos_left _ (Nat.pow_pos (by decide))) (Nat.le_add_right _ _)

/-- The loop carries the number read so far, which is below `2 ^ 64`. -/
theorem foldl_parseDigit_eq_some_iff (s : Str) {acc r : Nat} (hacc : acc < 2 ^ 64) :
    s.foldl parseDigit (some acc) = some r ↔
      (∀ c ∈ s, c.isDigit = true) ∧ Nat.ofDigitChars 10 s acc = r ∧ r < 2 ^ 64 := by
  -- the induction is on the digits, for every number read so far
  induction s generalizing acc with
  | nil =>
      rw [List.foldl_nil, Nat.ofDigitChars_nil, Option.some_inj]
      constructor
      · rintro rfl
        exact ⟨fun c hc => absurd hc List.not_mem_nil, rfl, hacc⟩
      · exact fun h => h.2.1
  | cons c s ih =>
      rw [List.foldl_cons, Nat.ofDigitChars_cons, List.forall_mem_cons]
      by_cases hstep : c.isDigit = true ∧ 10 * acc + (c.toNat - '0'.toNat) < 2 ^ 64
      · rw [parseDigit_some_eq_some_iff.mpr ⟨hstep.1, rfl, hstep.2⟩, ih hstep.2,
          and_iff_right hstep.1]
      · have hnone : parseDigit (some acc) c = none := by
          by_contra hne
          obtain ⟨next, hnext⟩ := Option.ne_none_iff_exists'.mp hne
          obtain ⟨hdigit, rfl, hlt⟩ := parseDigit_some_eq_some_iff.mp hnext
          exact hstep ⟨hdigit, hlt⟩
        rw [hnone, foldl_parseDigit_none]
        constructor
        · intro h
          cases h
        · rintro ⟨⟨hdigit, -⟩, hvalue, hlt⟩
          exact absurd ⟨hdigit, lt_of_le_of_lt (hvalue ▸ le_ofDigitChars s _) hlt⟩ hstep

/-- What `ParseUint` reads, and as what. -/
theorem parseUint_eq_some_iff {s : Str} {n : UInt64} :
    parseUint s = some n ↔ s ≠ [] ∧ (∀ c ∈ s, c.isDigit = true) ∧
      Nat.ofDigitChars 10 s 0 = n.toNat := by
  rw [parseUint]
  by_cases hs : s = []
  · rw [if_pos hs]
    constructor
    · intro h
      cases h
    · exact fun h => absurd hs h.1
  · rw [if_neg hs, and_iff_right hs]
    show (s.foldl parseDigit (some 0)).map UInt64.ofNat = some n ↔ _
    rw [Option.map_eq_some_iff]
    constructor
    · rintro ⟨r, hr, rfl⟩
      obtain ⟨hdigits, hvalue, hlt⟩ := (foldl_parseDigit_eq_some_iff s (by decide)).mp hr
      exact ⟨hdigits, hvalue.trans (UInt64.toNat_ofNat_of_lt' hlt).symm⟩
    · rintro ⟨hdigits, hvalue⟩
      exact ⟨n.toNat,
        (foldl_parseDigit_eq_some_iff s (by decide)).mpr ⟨hdigits, hvalue, n.toNat_lt⟩,
        UInt64.ofNat_toNat⟩

/-- A text that `ParseUint` takes has digits alone. -/
theorem digits_of_parseUint {s : Str} {n : UInt64} (h : parseUint s = some n) :
    s ≠ [] ∧ ∀ c ∈ s, c.isDigit = true :=
  ⟨(parseUint_eq_some_iff.mp h).1, (parseUint_eq_some_iff.mp h).2.1⟩

/-! ### Writing -/

/-- A natural number is printed as its decimal digits, without a sign. -/
theorem decimal_natCast (n : ℕ) : decimal (n : ℤ) = Nat.toDigits 10 n := by
  show (Nat.repr n).toList = _
  rw [Nat.repr, String.toList_ofList]

/-- No number is printed as the empty text. -/
theorem decimal_ne_nil (n : ℕ) : decimal (n : ℤ) ≠ [] := by
  rw [decimal_natCast]
  exact Nat.toDigits_ne_nil

/-- The text of a natural number holds digits only. -/
theorem isDigit_of_mem_decimal {n : ℕ} {c : Char} (h : c ∈ decimal (n : ℤ)) : c.isDigit = true := by
  rw [decimal_natCast] at h
  exact Nat.isDigit_of_mem_toDigits (by decide) (by decide) h

/-- A separator, being no digit, does not occur in the text of a natural number. -/
theorem not_mem_decimal {n : ℕ} {c : Char} (h : c.isDigit = false) : c ∉ decimal (n : ℤ) := by
  intro hmem
  rw [isDigit_of_mem_decimal hmem] at h
  cases h

/-- A decimal text is read back. -/
theorem parseUint_decimal {n : ℕ} (h : n < 2 ^ 64) :
    parseUint (decimal n) = some (UInt64.ofNat n) := by
  refine parseUint_eq_some_iff.mpr ⟨decimal_ne_nil n, fun c hc => isDigit_of_mem_decimal hc, ?_⟩
  rw [decimal_natCast, Nat.ofDigitChars_ten_toDigits, UInt64.toNat_ofNat_of_lt' h]

/-- Trimming white space leaves the text of a natural number alone. -/
theorem trimSpace_decimal (n : ℕ) : trimSpace (decimal n) = decimal n :=
  trimSpace_eq_self fun _ hc => isSpace_of_isDigit (isDigit_of_mem_decimal hc)

end NilStore.Lib
