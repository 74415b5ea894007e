import NilStore.Lib.Blocks
import NilStore.Lib.Layout
import NilStore.Lib.Tx

/-!
# `NilStore.Lib.Filling`: buffers that are filled from left to right

A loop copies a range piece by piece into a buffer. How long a piece is, and what it holds, depends
on the cursor and on how much remains (`fillLoop`). When each piece is not empty and holds what a
source has at the cursor, the loop ends and the buffer holds the range of the source
(`fillLoop_ok`).

A source may itself be put together from words of one width, of which the last are short or missing.
`wordAt_flatMap_range` finds them again.
-/

set_option autoImplicit false

namespace NilStore.Lib

variable {α ε : Type}

/-- While something remains, copy the next piece. `piece` gives its length and its elements at a
cursor when so much remains. A loop that takes longer than `fuel` steps is `stuck`. -/
def fillLoop (piece : (cursor remaining : Nat) → Except ε (Nat × List α)) (stuck : ε) :
    (fuel cursor remaining outOffset : Nat) → (out : List α) → Except ε (List α)
  | fuel, cursor, remaining, outOffset, out =>
      if remaining = 0 then .ok out
      else
        match fuel with
        | 0 => .error stuck
        | fuel + 1 => do
            let (count, copied) ← piece cursor remaining
            fillLoop piece stuck fuel (cursor + count) (remaining - count) (outOffset + count)
              (overwrite out outOffset copied)

/-- Two pieces, one behind the other. -/
theorem overwrite_append {out p q : List α} {offset : Nat}
    (h : offset + p.length + q.length ≤ out.length) :
    overwrite (overwrite out offset p) (offset + p.length) q = overwrite out offset (p ++ q) := by
  have htake : (out.take offset).length = offset := by
    rw [List.length_take]
    omega
  have hfront : (out.take offset ++ p).length = offset + p.length := by
    rw [List.length_append, htake]
  unfold overwrite
  rw [List.take_left' hfront, ← List.drop_drop, List.drop_left' hfront, List.drop_drop,
    List.length_append, ← Nat.add_assoc]
  simp only [List.append_assoc]

/-- Writing no elements changes nothing. -/
theorem overwrite_nil (out : List α) (offset : Nat) : overwrite out offset [] = out := by
  simp [overwrite]

/-- The whole buffer. -/
theorem overwrite_zero {out p : List α} (h : p.length = out.length) : overwrite out 0 p = p := by
  simp [overwrite, h]

/-- The loop fills the buffer with the range of the source, which begins at `base`. Each piece takes
at least one element and not more than are left, and is the part of the source from its place on. -/
theorem fillLoop_ok {piece : Nat → Nat → Except ε (Nat × List α)} {stuck : ε} {source : List α}
    {base hi : Nat} (hsource : hi ≤ source.length)
    (hpiece : ∀ place remaining, 0 < remaining → place + remaining = hi →
      ∃ count, 0 < count ∧ count ≤ remaining ∧
        piece (base + place) remaining = .ok (count, slice source place count))
    {fuel place remaining outOffset : Nat} {out : List α} (hfuel : remaining ≤ fuel)
    (hend : place + remaining = hi) (hroom : outOffset + remaining ≤ out.length) :
    fillLoop piece stuck fuel (base + place) remaining outOffset out =
      .ok (overwrite out outOffset (slice source place remaining)) := by
  -- the induction is on the fuel, of which there is one unit for each element that is left
  induction fuel generalizing place remaining outOffset out with
  | zero =>
      have hzero : remaining = 0 := Nat.le_zero.mp hfuel
      rw [fillLoop, if_pos hzero, hzero, slice_zero, overwrite_nil]
  | succ fuel ih =>
      by_cases hzero : remaining = 0
      · rw [fillLoop, if_pos hzero, hzero, slice_zero, overwrite_nil]
      · obtain ⟨count, hpos, hle, hat⟩ := hpiece place remaining (Nat.pos_of_ne_zero hzero) hend
        have hlength : (slice source place count).length = count := length_slice (by omega)
        have hrest : (slice source (place + count) (remaining - count)).length =
            remaining - count :=
          length_slice (by omega)
        have hjoin : overwrite (overwrite out outOffset (slice source place count))
            (outOffset + (slice source place count).length)
            -- the two writes together are one write of both pieces
            (slice source (place + count) (remaining - count)) = _ := overwrite_append (by omega)
        have hsum : count + (remaining - count) = remaining := by omega
        rw [hlength, slice_append, hsum] at hjoin
        have hroom' : outOffset + count + (remaining - count) ≤
            (overwrite out outOffset (slice source place count)).length := by
          rw [length_overwrite (by omega)]
          omega
        rw [fillLoop, if_neg hzero, hat]
        show fillLoop piece stuck fuel _ _ _ _ = _
        rw [Nat.add_assoc, ih (by omega) (by omega) hroom', hjoin]

/-! ### Words that end early -/

/-- Words of width `w` that end at `total` make a list in which each is at its place. -/
theorem wordAt_flatMap_range {word : Nat → List α} {w total : Nat}
    (hword : ∀ i, (word i).length = min (total - w * i) w) (n : Nat) :
    ((List.range n).flatMap word).length = min total (w * n) ∧
      ∀ i < n, wordAt w i ((List.range n).flatMap word) = word i := by
  induction n with
  | zero => simp
  | succ n ih =>
      obtain ⟨hlength, hat⟩ := ih
      have hmul : w * (n + 1) = w * n + w := Nat.mul_succ w n
      have hnew := hword n
      rw [List.range_succ, List.flatMap_append, List.flatMap_cons, List.flatMap_nil,
        List.append_nil]
      constructor
      · rw [List.length_append, hlength, hnew]
        omega
      · intro i hi
        -- an earlier word stays where it was; the new one is behind all the others
        rcases Nat.lt_succ_iff_lt_or_eq.mp hi with hlt | rfl
        · have hbelow : w * i + w ≤ w * n := by
            rw [← Nat.mul_succ]
            exact Nat.mul_le_mul_left w hlt
          by_cases hfull : w * n ≤ total
          · rw [← hat i hlt, wordAt, wordAt, List.drop_append_of_le_length (by omega),
              List.take_append_of_le_length (by rw [List.length_drop]; omega)]
          · -- The words have ended before this one.
            have hnil : word n = [] := List.length_eq_zero_iff.mp (by omega)
            rw [hnil, List.append_nil, hat i hlt]
        · by_cases hfull : w * i ≤ total
          · have hplace : ((List.range i).flatMap word).length = w * i := by omega
            rw [wordAt, List.drop_left' hplace, List.take_of_length_le (by omega)]
          -- behind the end of the source a word is empty
          · have hnil : word i = [] := List.length_eq_zero_iff.mp (by omega)
            rw [hnil, List.append_nil, wordAt, List.drop_of_length_le (by omega), List.take_nil]

/-- Two parts with the same elements. -/
theorem slice_congr {l l' : List α} {offset base n : Nat}
    (h : ∀ p, offset ≤ p → p < offset + n → l[p]? = l'[base + p]?) :
    slice l offset n = slice l' (base + offset) n := by
  refine List.ext_getElem? fun p => ?_
  by_cases hp : p < n
  · rw [getElem?_slice hp, getElem?_slice hp, h (offset + p) (by omega) (by omega), Nat.add_assoc]
  · have hshort : ∀ (k : List α) (o : Nat), (slice k o n).length ≤ n := fun k o =>
      List.length_take_le _ _
    rw [List.getElem?_eq_none ((hshort _ _).trans (by omega)),
      List.getElem?_eq_none ((hshort _ _).trans (by omega))]

/-- A part of a word is a part of the list. -/
theorem slice_wordAt {w i offset n : Nat} {l : List α} (h : offset + n ≤ w) :
    slice (wordAt w i l) offset n = slice l (w * i + offset) n := slice_slice h

end NilStore.Lib
