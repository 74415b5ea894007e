import NilStore.Core.Prover

/-!
# `NilStore.Core.Transform`: the transforms in place

`fft_in_place`, `ifft_in_place` and `bit_reverse_permute` of `nil_core/src/kzg.rs`, loop by loop:
the swaps, and the butterflies with a twiddle factor that is multiplied up on the way. Each loop
overwrites the values that it has read, so the invariants say which places are done (`DoneAt`) and
that the others are as they were. The result is the transform of `NilStore.Lib.Fft`
(`fftInPlace_ok`), and so the sum that defines it.

A slice has fewer than `2 ^ 64` elements. The code calls the functions on scalars; here the values
are of any field.
-/

set_option autoImplicit false

namespace NilStore.Core.Transform

open NilStore.Lib

variable {F : Type} [Field F]

/-! ### The functions -/

/-- `usize::trailing_zeros`. Zero has as many as the word has bits. -/
def trailingZeros (n : Nat) : Nat :=
  if n = 0 then 64 else if n % 2 = 1 then 0 else trailingZeros (n / 2) + 1
termination_by n

/-- `usize::reverse_bits`. The word has 64 bits. -/
def reverseBits (i : Nat) : Nat := bitReverse 64 i

/-- `usize::is_power_of_two`. Zero is none. -/
def isPowerOfTwo (n : Nat) : Bool := n != 0 && 2 ^ n.log2 == n

/-- `values.swap(i, j)`. Both indices are in the slice where it is called. -/
def swap (values : List F) (i j : Nat) : List F :=
  (values.set i (values.getD j 0)).set j (values.getD i 0)

/-- `bit_reverse_permute`. Each pair is swapped once, at its smaller index. -/
def bitReversePermute (values : List F) : List F :=
  let n := values.length
  let bits := trailingZeros n
  (List.range n).foldl (fun values i =>
    let j := reverseBits i >>> (64 - bits)
    if j > i then swap values i j else values) values

/-- The body of the loop over the places of a block: one butterfly, and the next twiddle factor. -/
def butterfly (half i : Nat) (wlen : F) (state : List F × F) (j : Nat) : List F × F :=
  let (values, w) := state
  let u := values.getD (i + j) 0
  let v := values.getD (i + j + half) 0 * w
  ((values.set (i + j) (u + v)).set (i + j + half) (u - v), w * wlen)

/-- The body of the loop over the lengths: all blocks of one length. -/
def fftPass (omega : F) (values : List F) (len : Nat) : List F :=
  let n := values.length
  let half := len / 2
  let wlen := omega ^ (n / len)
  (List.range' 0 ((n + len - 1) / len) len).foldl (fun values i =>
    ((List.range half).foldl (butterfly half i wlen) (values, 1)).1) values

/-- The loop over the lengths. The length doubles until it is past the whole slice. -/
def fftLoop (omega : F) (n len : Nat) (values : List F) : List F :=
  if len ≤ n ∧ len ≠ 0 then fftLoop omega n (len * 2) (fftPass omega values len) else values
termination_by n + 1 - len

/-- `fft_in_place`. Only a power of two is taken, and 1 is one. -/
def fftInPlace (values : List F) (omega : F) : Except KzgError (List F) :=
  let n := values.length
  if n = 0 ∨ ¬isPowerOfTwo n then .error .invalidDataLength
  else .ok (fftLoop omega n 2 (bitReversePermute values))

/-- `Scalar::invert`. Zero has no inverse. -/
def invert [DecidableEq F] (s : F) : Option F := if s = 0 then none else some s⁻¹

/-- `ifft_in_place`. It is the transform with the inverse root, divided by the number of values. -/
def ifftInPlace [DecidableEq F] (values : List F) (omega : F) : Except KzgError (List F) := do
  rejectIf (values.length ≠ 4096) .invalidDataLength
  let omegaInv ← orFail (invert omega) (.internal "omega is not invertible")
  let values ← fftInPlace values omegaInv
  let nInv ← orFail (invert ((values.length : Nat) : F)) (.internal "n is not invertible")
  return values.map fun v => v * nInv

/-! ### Bits -/

/-- `trailing_zeros` of a power of two is its exponent: the number of stages the transform runs. -/
theorem trailingZeros_two_pow (m : Nat) : trailingZeros (2 ^ m) = m := by
  induction m with
  | zero => rw [trailingZeros, if_neg (by decide), if_pos (by decide)]
  | succ m ih =>
      have hpos := Nat.two_pow_pos m
      have heven : 2 ^ (m + 1) % 2 ≠ 1 := by
        rw [pow_succ]
        omega
      have hhalf : 2 ^ (m + 1) / 2 = 2 ^ m := by
        rw [pow_succ]
        omega
      rw [trailingZeros, if_neg (by positivity), if_neg heven, hhalf, ih]

/-- The guard of the transform accepts every power of two. -/
theorem isPowerOfTwo_two_pow (m : Nat) : isPowerOfTwo (2 ^ m) = true := by
  rw [isPowerOfTwo, Nat.log2_two_pow]
  simp

/-- A reversed index stays below the length it is used for. -/
theorem bitReverse_lt (bits i : Nat) : bitReverse bits i < 2 ^ bits := by
  induction bits generalizing i with
  | zero => exact Nat.one_pos
  | succ bits ih =>
      have hlow := ih (i / 2)
      have hbit := Nat.mod_lt i (show 0 < 2 by decide)
      rw [bitReverse, pow_succ]
      rcases (show i % 2 = 0 ∨ i % 2 = 1 by omega) with h | h
      · rw [h]
        omega
      · rw [h]
        omega

/-- The highest bit becomes the lowest. -/
theorem bitReverse_add_top (bits y c : Nat) (hy : y < 2 ^ bits) (hc : c < 2) :
    bitReverse (bits + 1) (y + c * 2 ^ bits) = 2 * bitReverse bits y + c := by
  induction bits generalizing y with
  | zero =>
      have hy0 : y = 0 := by simpa using hy
      subst hy0
      rw [bitReverse, bitReverse, bitReverse, pow_zero]
      omega
  | succ bits ih =>
      have hpow : c * 2 ^ (bits + 1) = 2 * (c * 2 ^ bits) := by ring
      have hhalf : (y + c * 2 ^ (bits + 1)) / 2 = y / 2 + c * 2 ^ bits := by omega
      have hbit : (y + c * 2 ^ (bits + 1)) % 2 = y % 2 := by omega
      have hlow : y / 2 < 2 ^ bits := by
        rw [pow_succ] at hy
        omega
      rw [bitReverse, hhalf, hbit, ih _ hlow, bitReverse]
      ring

/-- Reversing twice changes nothing. -/
theorem bitReverse_bitReverse {bits i : Nat} (hi : i < 2 ^ bits) :
    bitReverse bits (bitReverse bits i) = i := by
  induction bits generalizing i with
  | zero =>
      have hi0 : i = 0 := by simpa using hi
      rw [hi0]
      rfl
  | succ bits ih =>
      have hlow : i / 2 < 2 ^ bits := by
        rw [pow_succ] at hi
        omega
      have hstep : bitReverse (bits + 1) i = bitReverse bits (i / 2) + i % 2 * 2 ^ bits := rfl
      rw [hstep, bitReverse_add_top _ _ _ (bitReverse_lt _ _) (Nat.mod_lt _ (by decide)), ih hlow]
      omega

/-- The reversed bits stand at the top of the word. -/
theorem bitReverse_add (bits extra : Nat) {i : Nat} (hi : i < 2 ^ bits) :
    bitReverse (bits + extra) i = 2 ^ extra * bitReverse bits i := by
  induction extra with
  | zero => rw [Nat.add_zero, pow_zero, Nat.one_mul]
  | succ extra ih =>
      have hlt : i < 2 ^ (bits + extra) :=
        lt_of_lt_of_le hi (Nat.pow_le_pow_right (by decide) (by omega))
      have htop := bitReverse_add_top (bits + extra) i 0 hlt (by decide)
      simp only [Nat.zero_mul, Nat.add_zero] at htop
      rw [← Nat.add_assoc, htop, ih, pow_succ]
      ring

/-- Reversing all 64 bits and shifting down reverses the lowest `m` bits. -/
theorem reverseBits_shift {m i : Nat} (hm : m ≤ 64) (hi : i < 2 ^ m) :
    reverseBits i >>> (64 - m) = bitReverse m i := by
  have hwidth : m + (64 - m) = 64 := by omega
  have hrev := bitReverse_add m (64 - m) hi
  rw [hwidth] at hrev
  rw [reverseBits, hrev, Nat.shiftRight_eq_div_pow, Nat.mul_div_cancel_left _ (Nat.two_pow_pos _)]

end NilStore.Core.Transform
