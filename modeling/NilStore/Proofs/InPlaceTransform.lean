import NilStore.Core.Transform
import NilStore.Proofs.Openings

/-!
# `NilStore.Proofs.InPlaceTransform`: what the transforms leave in place

The swaps of `bit_reverse_permute` leave the values in bit-reversed order, since reversing is an
involution and each pair is swapped once. A pass of `fft_in_place` over the blocks of one length is
a stage of `NilStore.Lib.Fft`: each butterfly reads the two places that it overwrites, and no other
butterfly does. So the loop over the lengths computes the transform (`fftInPlace_ok`), and
`fftInPlace_dft` says what that is, and when it is undone.
-/

set_option autoImplicit false

namespace NilStore.Core.Transform

open NilStore.Lib Finset

variable {F : Type} [Field F]

/-! ### The permutation -/

/-- A list by its places. -/
theorem map_getD_range {values : List F} {n : Nat} (h : values.length = n) :
    (List.range n).map (fun p => values.getD p 0) = values := by
  subst h
  refine List.ext_getElem (by simp) fun i hi hi' => ?_
  rw [List.getElem_map, List.getElem_range, List.getD_eq_getElem _ _ hi']

/-- The values after the first swaps: a place is done when it, or the place that it is swapped with,
has come up. -/
def permuted (m : Nat) (values : List F) (i : Nat) : List F :=
  (List.range (2 ^ m)).map fun p =>
    if min p (bitReverse m p) < i then values.getD (bitReverse m p) 0 else values.getD p 0

/-- After `i` swaps the entries whose smaller partner is below `i` are in their reversed places. -/
theorem getD_permuted {m : Nat} (values : List F) (i : Nat) {p : Nat} (hp : p < 2 ^ m) :
    (permuted m values i).getD p 0 =
      if min p (bitReverse m p) < i then values.getD (bitReverse m p) 0 else values.getD p 0 :=
  getD_map_range _ hp

/-- One step of the loop. It swaps a place with its mirror when the mirror is the later one, so that
no pair is swapped twice. -/
theorem permuted_succ {m : Nat} (values : List F) {i : Nat} (hi : i < 2 ^ m) :
    (if bitReverse m i > i then swap (permuted m values i) i (bitReverse m i)
      else permuted m values i) =
      permuted m values (i + 1) := by
  have hback := bitReverse_bitReverse hi
  have hrev := bitReverse_lt m i
  split
  · rename_i hswap
    -- neither place has been touched yet
    have hlow : (permuted m values i).getD i 0 = values.getD i 0 := by
      rw [getD_permuted values i hi, if_neg (by omega)]
    have hhigh : (permuted m values i).getD (bitReverse m i) 0 =
        values.getD (bitReverse m i) 0 := by
      rw [getD_permuted values i hrev, hback, if_neg (by omega)]
    rw [swap, hlow, hhigh, permuted, set_map_range, set_map_range, permuted]
    refine List.map_congr_left fun p hp => ?_
    have hp := List.mem_range.mp hp
    -- the later place, the earlier one, or any other
    by_cases hpj : p = bitReverse m i
    · rw [if_pos hpj, hpj, hback, if_pos (by omega)]
    · rw [if_neg hpj]
      by_cases hpi : p = i
      · rw [if_pos hpi, hpi, if_pos (by omega)]
      · -- this place comes up in another step
        have hother : bitReverse m p ≠ i := by
          intro heq
          have hpback := bitReverse_bitReverse hp
          rw [heq] at hpback
          exact hpj hpback.symm
        have hsame : min p (bitReverse m p) < i + 1 ↔ min p (bitReverse m p) < i := by omega
        rw [if_neg hpi]
        simp only [hsame]
  · rename_i hkeep
    refine List.map_congr_left fun p hp => ?_
    have hpback := bitReverse_bitReverse (List.mem_range.mp hp)
    -- no swap: the mirror was earlier, or is the place itself
    by_cases hmin : min p (bitReverse m p) = i
    · -- a place that is its own mirror
      have hself : bitReverse m p = p := by
        rcases Nat.le_total p (bitReverse m p) with hle | hle
        · rw [Nat.min_eq_left hle] at hmin
          rw [← hmin] at hkeep
          omega
        · rw [Nat.min_eq_right hle] at hmin
          rw [← hmin, hpback] at hkeep
          omega
      rw [hself]
      split <;> split <;> rfl
    · have hsame : min p (bitReverse m p) < i + 1 ↔ min p (bitReverse m p) < i := by omega
      simp only [hsame]

/-- The swaps leave the values in bit-reversed order: the loop of the source is a permutation by a
fixed formula. -/
theorem bitReversePermute_eq {m : Nat} {values : List F} (hlength : values.length = 2 ^ m)
    (hm : m ≤ 64) :
    bitReversePermute values = Lib.bitReversePermute m values := by
  -- after some rounds, the places up to there are done
  have hloop : ∀ count ≤ 2 ^ m, (List.range count).foldl (fun values i =>
      if reverseBits i >>> (64 - m) > i then swap values i (reverseBits i >>> (64 - m))
        else values) values =
        permuted m values count := by
    intro count
    induction count with
    | zero =>
        intro _
        simp only [permuted, Nat.not_lt_zero, if_false]
        exact (map_getD_range hlength).symm
    | succ count ih =>
        intro hcount
        rw [List.range_succ, List.foldl_append, ih (by omega), List.foldl_cons, List.foldl_nil,
          reverseBits_shift hm (by omega)]
        exact permuted_succ values (by omega)
  rw [bitReversePermute, hlength, trailingZeros_two_pow]
  refine (hloop _ le_rfl).trans (List.map_congr_left fun p hp => ?_)
  have hp := List.mem_range.mp hp
  rw [if_pos (by omega)]

/-! ### One pass -/

section Pass

variable {half len n : Nat}

/-- The places that are done when the blocks before `b` are, and the first `j` butterflies of block
`b`. -/
def DoneAt (half len b j p : Nat) : Prop := p / len < b ∨ p / len = b ∧ p % half < j

instance (half len b j p : Nat) : Decidable (DoneAt half len b j p) :=
  inferInstanceAs (Decidable (_ ∨ _))

/-- The value of a place after the stage. -/
def stageValue (wlen : F) (half len : Nat) (values : List F) (p : Nat) : F :=
  if p % len < half then values.getD p 0 + values.getD (p + half) 0 * wlen ^ (p % len)
  else values.getD (p - half) 0 - values.getD p 0 * wlen ^ (p % len - half)

/-- The values while a pass is going on. -/
def partlyDone (wlen : F) (half len n : Nat) (values : List F) (b j : Nat) : List F :=
  (List.range n).map fun p =>
    if DoneAt half len b j p then stageValue wlen half len values p else values.getD p 0

/-- The two places of a butterfly. -/
theorem butterfly_place (hlen : len = 2 * half) {b j : Nat} (hj : j < half) :
    ((b * len + j) / len = b ∧ (b * len + j) % len = j ∧ (b * len + j) % half = j) ∧
      (b * len + j + half) / len = b ∧ (b * len + j + half) % len = j + half ∧
        (b * len + j + half) % half = j := by
  have hpos : 0 < len := by omega
  have hmul : b * len = half * (2 * b) := by
    rw [hlen]
    ring
  have hdiv : ∀ r < len, (b * len + r) / len = b ∧ (b * len + r) % len = r := by
    intro r hr
    rw [Nat.mul_comm b, Nat.mul_add_div hpos, Nat.div_eq_of_lt hr, Nat.mul_add_mod,
      Nat.mod_eq_of_lt hr]
    exact ⟨rfl, rfl⟩
  obtain ⟨hlow, hlowMod⟩ := hdiv j (by omega)
  obtain ⟨hhigh, hhighMod⟩ := hdiv (j + half) (by omega)
  rw [← Nat.add_assoc] at hhigh hhighMod
  refine ⟨⟨hlow, hlowMod, ?_⟩, hhigh, hhighMod, ?_⟩
  · rw [hmul, Nat.mul_add_mod, Nat.mod_eq_of_lt hj]
  · rw [Nat.add_mod_right, hmul, Nat.mul_add_mod, Nat.mod_eq_of_lt hj]

/-- No other places have the block and the twiddle factor of a butterfly. -/
theorem place_of_butterfly (hlen : len = 2 * half) {b j p : Nat} (hj : j < half)
    (hblock : p / len = b) (hplace : p % half = j) : p = b * len + j ∨ p = b * len + j + half := by
  have hpos : 0 < len := by omega
  have hsplit := Nat.div_add_mod p len
  have hlt := Nat.mod_lt p hpos
  have hmod : p % len % half = j := by
    rw [Nat.mod_mod_of_dvd _ ⟨2, by omega⟩, hplace]
  rw [hblock, Nat.mul_comm] at hsplit
  rcases Nat.lt_or_ge (p % len) half with hlow | hhigh
  · rw [Nat.mod_eq_of_lt hlow] at hmod
    omega
  · rw [Nat.mod_eq_sub_mod hhigh, Nat.mod_eq_of_lt (by omega)] at hmod
    omega

/-- One butterfly. It reads and writes two places of its block, and the power of the root goes
on. -/
theorem butterfly_partlyDone (hlen : len = 2 * half) (wlen : F) (values : List F) {b j : Nat}
    (hj : j < half) (hin : b * len + j + half < n) :
    butterfly half (b * len) wlen (partlyDone wlen half len n values b j, wlen ^ j) j =
      (partlyDone wlen half len n values b (j + 1), wlen ^ (j + 1)) := by
  obtain ⟨⟨hlowDiv, hlowMod, hlowHalf⟩, hhighDiv, hhighMod, hhighHalf⟩ :=
    butterfly_place hlen (b := b) hj
  -- the values at its two places are still the old ones
  have hlow : (partlyDone wlen half len n values b j).getD (b * len + j) 0 =
      values.getD (b * len + j) 0 := by
    rw [partlyDone, getD_map_range _ (by omega), if_neg]
    rw [DoneAt, hlowDiv, hlowHalf]
    omega
  have hhigh : (partlyDone wlen half len n values b j).getD (b * len + j + half) 0 =
      values.getD (b * len + j + half) 0 := by
    rw [partlyDone, getD_map_range _ hin, if_neg]
    rw [DoneAt, hhighDiv, hhighHalf]
    omega
  refine Prod.ext ?_ (pow_succ wlen j).symm
  show ((partlyDone wlen half len n values b j).set _ _).set _ _ = _
  rw [hlow, hhigh, partlyDone, set_map_range, set_map_range, partlyDone]
  refine List.map_congr_left fun p _ => ?_
  by_cases hpHigh : p = b * len + j + half
  · -- the place of the upper half
    subst hpHigh
    have hdone : DoneAt half len b (j + 1) (b * len + j + half) := by
      right
      rw [hhighHalf]
      exact ⟨hhighDiv, Nat.lt_succ_self j⟩
    rw [if_pos rfl, if_pos hdone, stageValue, hhighMod, if_neg (by omega), Nat.add_sub_cancel,
      Nat.add_sub_cancel]
  · rw [if_neg hpHigh]
    by_cases hpLow : p = b * len + j
    -- the place of the lower half
    · subst hpLow
      have hdone : DoneAt half len b (j + 1) (b * len + j) := by
        right
        rw [hlowHalf]
        exact ⟨hlowDiv, Nat.lt_succ_self j⟩
      rw [if_pos rfl, if_pos hdone, stageValue, hlowMod, if_pos hj]
    · -- nothing is done at the other places
      have hsame : DoneAt half len b (j + 1) p ↔ DoneAt half len b j p := by
        have hother : ¬(p / len = b ∧ p % half = j) := by
          rintro ⟨hblock, hplace⟩
          rcases place_of_butterfly hlen hj hblock hplace with heq | heq
          · exact hpLow heq
          · exact hpHigh heq
        rw [DoneAt, DoneAt]
        omega
      rw [if_neg hpLow]
      simp only [hsame]

/-- A pass over the blocks of one length is a stage of the transform. The source steps from block to
block, and in a block from place to place; the invariant says which places are done. -/
theorem fftPass_eq (omega : F) {values : List F} (hlength : values.length = n) (hhalf : 0 < half)
    {count : Nat} (hn : n = 2 * half * count) :
    fftPass omega values (2 * half) = fftStage omega n half values := by
  obtain ⟨len, hlen⟩ : ∃ len, len = 2 * half := ⟨_, rfl⟩
  have hinner : ∀ b < count, ∀ j ≤ half,
      (List.range j).foldl (butterfly half (b * len) (omega ^ (n / len)))
      (partlyDone (omega ^ (n / len)) half len n values b 0, 1) =
        (partlyDone (omega ^ (n / len)) half len n values b j, (omega ^ (n / len)) ^ j) := by
    intro b hb j
    induction j with
    | zero => exact fun _ => Prod.ext rfl (pow_zero _).symm
    | succ j ih =>
        intro hj
        have hblocks := Nat.mul_le_mul_right len (Nat.succ_le_of_lt hb)
        rw [Nat.succ_mul, Nat.mul_comm count, hlen, ← hn, ← hlen] at hblocks
        rw [List.range_succ, List.foldl_append, ih (by omega), List.foldl_cons, List.foldl_nil]
        exact butterfly_partlyDone hlen _ values (by omega) (by omega)
  -- a block that is done leaves the next one to be done
  have hnext : ∀ b, partlyDone (omega ^ (n / len)) half len n values b half =
      partlyDone (omega ^ (n / len)) half len n values (b + 1) 0 := by
    intro b
    refine List.map_congr_left fun p _ => ?_
    have hmod := Nat.mod_lt p hhalf
    have hsame : DoneAt half len b half p ↔ DoneAt half len (b + 1) 0 p := by
      rw [DoneAt, DoneAt]
      omega
    simp only [hsame]
  have houter : ∀ b ≤ count, (List.range b).foldl (fun values' b' =>
      ((List.range half).foldl (butterfly half (b' * len) (omega ^ (n / len))) (values', 1)).1)
        values =
        partlyDone (omega ^ (n / len)) half len n values b 0 := by
    intro b
    induction b with
    | zero =>
        intro _
        have hnone : ∀ p, ¬DoneAt half len 0 0 p := by
          intro p h
          rcases h with h | ⟨-, h⟩
          · exact Nat.not_lt_zero _ h
          · exact Nat.not_lt_zero _ h
        simp only [partlyDone, hnone, if_false]
        exact (map_getD_range hlength).symm
    | succ b ih =>
        intro hb
        rw [List.range_succ, List.foldl_append, ih (by omega), List.foldl_cons, List.foldl_nil,
          hinner b (by omega) half le_rfl, hnext]
  have hpos : 0 < len := by omega
  -- the rounded-up number of blocks is the number itself
  have hcount : (n + len - 1) / len = count := by
    have hsum : n + len - 1 = len * count + (len - 1) := by
      rw [hlen, ← hn]
      omega
    rw [hsum, Nat.mul_add_div hpos, Nat.div_eq_of_lt (by omega), Nat.add_zero]
  have hhalfLen : len / 2 = half := by omega
  -- the blocks start at the multiples of their length
  have hrange : List.range' 0 count len = (List.range count).map fun b => b * len := by
    refine List.ext_getElem (by simp) fun b hb hb' => ?_
    rw [List.getElem_range', List.getElem_map, List.getElem_range, Nat.zero_add, Nat.mul_comm]
  rw [← hlen, fftPass]
  simp only [hlength, hcount, hhalfLen, hrange, List.foldl_map]
  rw [houter count le_rfl, partlyDone, fftStage, ← hlen]
  -- in the end every place is in a block that is done
  refine List.map_congr_left fun p hp => ?_
  have hp := List.mem_range.mp hp
  have hblock : p / len < count := by
    rw [Nat.div_lt_iff_lt_mul hpos, Nat.mul_comm, hlen, ← hn]
    exact hp
  have hdone : DoneAt half len count 0 p := Or.inl hblock
  rw [if_pos hdone, stageValue]

end Pass

/-! ### The transforms -/

/-- The loop over the lengths, from a stage on. -/
theorem fftLoop_eq (omega : F) (values : List F) {m s : Nat} (hs : s ≤ m) :
    fftLoop omega (2 ^ m) (2 ^ (s + 1)) (fftStages omega m values s) = fft omega m values := by
  induction hmore : m - s generalizing s with
  | zero =>
      have heq : s = m := by omega
      subst heq
      rw [fftLoop, if_neg, fft]
      have hlt : 2 ^ s < 2 ^ (s + 1) := Nat.pow_lt_pow_right (by decide) (Nat.lt_succ_self s)
      omega
  | succ more ih =>
      have hle : 2 ^ (s + 1) ≤ 2 ^ m := Nat.pow_le_pow_right (by decide) (by omega)
      have hpos := Nat.two_pow_pos (s + 1)
      have hhalf : 2 ^ (s + 1) = 2 * 2 ^ s := pow_succ' 2 s
      have hn : 2 ^ m = 2 * 2 ^ s * 2 ^ (m - (s + 1)) := by
        rw [← hhalf, ← pow_add, Nat.add_sub_cancel' (by omega)]
      have hpass := fftPass_eq omega (length_fftStages omega m values s) (Nat.two_pow_pos s) hn
      rw [← hhalf] at hpass
      rw [fftLoop, if_pos ⟨hle, by omega⟩, hpass, ← pow_succ]
      exact ih (s := s + 1) (by omega) (by omega)

/-- `fft_in_place` leaves the transform. -/
theorem fftInPlace_ok {values : List F} {m : Nat} (hlength : values.length = 2 ^ m)
    (hm : m ≤ 64) (omega : F) :
    fftInPlace values omega = .ok (fft omega m values) := by
  have hpow := isPowerOfTwo_two_pow m
  have hpos := Nat.two_pow_pos m
  rw [fftInPlace, hlength, if_neg, bitReversePermute_eq hlength hm]
  · exact congrArg Except.ok (fftLoop_eq omega values (Nat.zero_le m))
  · rintro (h0 | hnot)
    · omega
    · exact hnot hpow

/-- The transform gives `2 ^ m` values. -/
theorem length_fft (omega : F) (m : Nat) (values : List F) : (fft omega m values).length = 2 ^ m :=
  length_fftStages omega m values m

/-- A list is determined by its values. -/
theorem eq_of_getD {l l' : List F} {n : Nat} (hl : l.length = n) (hl' : l'.length = n)
    (h : ∀ i < n, l.getD i 0 = l'.getD i 0) : l = l' := by
  rw [← map_getD_range hl, ← map_getD_range hl']
  exact List.map_congr_left fun i hi => h i (List.mem_range.mp hi)

section Inverse

variable {omega : F} {m : Nat} {values : List F}

/-- The transform of the inverse transform. -/
theorem fft_ifft (homega : IsPrimitiveRoot omega (2 ^ m)) (hn : ((2 ^ m : Nat) : F) ≠ 0)
    (hlength : values.length = 2 ^ m) : fft omega m (ifft omega m values) = values := by
  refine eq_of_getD (length_fft _ _ _) hlength fun i hi => ?_
  rw [getD_fft _ homega hi, ← sum_ifft values homega hn hi]
  refine sum_congr rfl fun t _ => ?_
  rw [pow_mul]

/-- The inverse transform of the transform. The two sums over the powers of the root collapse, up to
the factor that the inverse divides out. -/
theorem ifft_fft (homega : IsPrimitiveRoot omega (2 ^ m)) (hn : ((2 ^ m : Nat) : F) ≠ 0)
    (hlength : values.length = 2 ^ m) : ifft omega m (fft omega m values) = values := by
  -- up to the factor, the transform is an inverse transform for the inverse root
  have hscale : ∀ t < 2 ^ m, (fft omega m values).getD t 0 =
      ((2 ^ m : Nat) : F) * (ifft omega⁻¹ m values).getD t 0 := by
    intro t ht
    have hlt : t < (fft omega m values).length := by rwa [length_fft]
    rw [ifft, inv_inv, List.getD_eq_getElem?_getD, List.getD_eq_getElem?_getD, List.getElem?_map,
      List.getElem?_eq_getElem hlt, Option.map_some, Option.getD_some, Option.getD_some,
      mul_comm, mul_assoc,
      inv_mul_cancel₀ hn, mul_one]
  -- so the second transform gives the values, times their number
  have hback : ∀ i < 2 ^ m, (fft omega⁻¹ m (fft omega m values)).getD i 0 =
      ((2 ^ m : Nat) : F) * values.getD i 0 := by
    intro i hi
    rw [getD_fft _ homega.inv hi, ← sum_ifft values homega.inv hn hi, mul_sum]
    refine sum_congr rfl fun t ht => ?_
    rw [hscale t (mem_range.mp ht), pow_mul, mul_assoc]
  refine eq_of_getD (length_ifft _ _ _) hlength fun i hi => ?_
  have hlt : i < (fft omega⁻¹ m (fft omega m values)).length := by rwa [length_fft]
  have hvalue := hback i hi
  rw [List.getD_eq_getElem _ _ hlt] at hvalue
  rw [ifft, List.getD_eq_getElem?_getD, List.getElem?_map, List.getElem?_eq_getElem hlt,
    Option.map_some, Option.getD_some, hvalue, mul_comm, ← mul_assoc, inv_mul_cancel₀ hn, one_mul]

/-- `ifft_in_place` leaves the inverse transform of 4096 values. -/
theorem ifftInPlace_ok [DecidableEq F] (hlength : values.length = 4096) (homega : omega ≠ 0)
    (hn : ((4096 : Nat) : F) ≠ 0) : ifftInPlace values omega = .ok (ifft omega 12 values) := by
  have hinv : ∀ (s : F) (e : KzgError), s ≠ 0 → orFail (invert s) e = .ok s⁻¹ := by
    intro s e hs
    rw [invert, if_neg hs]
    rfl
  have hcount : (((fft omega⁻¹ 12 values).length : Nat) : F) = ((4096 : Nat) : F) := by
    rw [length_fft]
    rfl
  refine except_bind_ok.mpr ⟨(), rejectIf_eq_ok.mpr (not_not.mpr hlength),
    except_bind_ok.mpr ⟨_, hinv omega _ homega,
      except_bind_ok.mpr ⟨_, fftInPlace_ok (m := 12) hlength (by decide) _,
      except_bind_ok.mpr ⟨_, hinv _ _ (by rw [hcount]; exact hn), ?_⟩⟩⟩⟩
  rw [hcount]
  rfl

/-- Other lengths are refused. -/
theorem ifftInPlace_error [DecidableEq F] (hlength : values.length ≠ 4096) (omega : F) :
    ifftInPlace values omega = .error .invalidDataLength := by
  rw [ifftInPlace, rejectIf, if_pos hlength]
  rfl

end Inverse

/-- **`fft_in_place` computes the discrete Fourier transform** of `2 ^ m` values, for a root of
unity of that order. `ifft_in_place` undoes it, and is undone by it, for 4096 values. It takes no
other number of values. -/
theorem fftInPlace_dft [DecidableEq F] {m : Nat} (hm : 1 ≤ m) (values : List F)
    (hlength : values.length = 2 ^ m)
    (husize : values.length < 2 ^ 64) (omega : F) (homega : orderOf omega = 2 ^ m) :
    (∃ out, fftInPlace values omega = .ok out ∧ out.length = 2 ^ m ∧
      ∀ i < 2 ^ m, out.getD i 0 = ∑ j ∈ range (2 ^ m), values.getD j 0 * omega ^ (i * j)) ∧
      (2 ^ m = 4096 → ((2 ^ m : Nat) : F) ≠ 0 →
        (fftInPlace values omega >>= fun out => ifftInPlace out omega) = .ok values ∧
          (ifftInPlace values omega >>= fun out => fftInPlace out omega) = .ok values) ∧
      (2 ^ m ≠ 4096 → ifftInPlace values omega = .error .invalidDataLength) := by
  have hroot : IsPrimitiveRoot omega (2 ^ m) := by
    have h := IsPrimitiveRoot.orderOf omega
    rwa [homega] at h
  have hbits : m ≤ 64 := by
    rw [hlength] at husize
    exact ((Nat.pow_lt_pow_iff_right (by decide)).mp husize).le
  refine ⟨⟨_, fftInPlace_ok hlength hbits omega, length_fft _ _ _, fun i hi =>
    getD_fft values hroot hi⟩,
    fun h4096 hn => ?_, fun hne => ifftInPlace_error (by rwa [hlength]) omega⟩
  -- the inverse is only for `m = 12`
  have hm12 : m = 12 :=
    Nat.pow_right_injective (le_refl 2) (h4096.trans (by decide : 4096 = 2 ^ 12))
  subst hm12
  have hzero : omega ≠ 0 := hroot.ne_zero (by decide)
  constructor
  · refine except_bind_ok.mpr ⟨_, fftInPlace_ok (m := 12) hlength (by decide) omega, ?_⟩
    rw [ifftInPlace_ok (length_fft _ _ _) hzero hn, ifft_fft hroot hn hlength]
  · refine except_bind_ok.mpr ⟨_, ifftInPlace_ok hlength hzero hn, ?_⟩
    rw [fftInPlace_ok (m := 12) (length_ifft _ _ _) (by decide), fft_ifft hroot hn hlength]

/-- `-1` is a root of unity of order two. -/
theorem orderOf_neg_one_scalar : orderOf (-1 : Scalar) = 2 :=
  orderOf_eq_prime (by rw [neg_one_sq]) (by decide)

/-- The transform of two values. -/
theorem fftInPlace_dft_two :
    (∃ out, fftInPlace ([3, 5] : List Scalar) (-1) = .ok out ∧ out.length = 2 ^ 1 ∧
    ∀ i < 2 ^ 1, out.getD i 0 = ∑ j ∈ range (2 ^ 1),
    ([3, 5] : List Scalar).getD j 0 * (-1) ^ (i * j)) ∧
      ifftInPlace ([3, 5] : List Scalar) (-1) = .error .invalidDataLength := by
  have horder : orderOf (-1 : Scalar) = 2 ^ 1 := orderOf_neg_one_scalar.trans (pow_one 2).symm
  obtain ⟨hdft, -, hother⟩ :=
    fftInPlace_dft le_rfl ([3, 5] : List Scalar) rfl (by decide) (-1) horder
  exact ⟨hdft, hother (by decide)⟩

/-- Two values are transformed, and not transformed back. -/
theorem ifftInPlace_two : orderOf (-1 : Scalar) = 2 ∧ ((2 : Nat) : Scalar) ≠ 0 ∧
    (fftInPlace ([3, 5] : List Scalar) (-1) >>= fun out => ifftInPlace out (-1)) =
      .error .invalidDataLength := by
  refine ⟨orderOf_neg_one_scalar, by decide, ?_⟩
  rw [fftInPlace_ok (m := 1) rfl (by decide)]
  have hlength : (fft (-1 : Scalar) 1 [3, 5]).length ≠ 4096 := by
    rw [length_fft]
    decide
  exact ifftInPlace_error hlength (-1 : Scalar)

end NilStore.Core.Transform
