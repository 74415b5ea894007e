import NilStore.Lib.Chunks

/-!
# `NilStore.Lib.Blocks`: buffers that are written block by block

A loop that fills a buffer copies pieces of one length to offsets that are multiples of it.
`wordAt_foldl_overwrite` says what such a loop leaves in the buffer, in whatever order it comes to
the blocks, and `eq_of_wordAt` compares two buffers block by block.
-/

set_option autoImplicit false

namespace NilStore.Lib

variable {α : Type} {n c i j p : Nat} {l l' piece : List α}

/-- Copy a piece into a buffer at an offset. Before and behind the piece the buffer is as it was. -/
def overwrite (l : List α) (offset : Nat) (piece : List α) : List α :=
  l.take offset ++ piece ++ l.drop (offset + piece.length)

/-- Overwriting inside a list keeps its length. -/
theorem length_overwrite {offset : Nat} (h : offset + piece.length ≤ l.length) :
    (overwrite l offset piece).length = l.length := by
  rw [overwrite, List.length_append, List.length_append, List.length_take, List.length_drop]
  omega

/-- A word that lies inside the list is a full one. -/
theorem length_wordAt (h : n * i + n ≤ l.length) : (wordAt n i l).length = n := by
  rw [wordAt, List.length_take, List.length_drop]
  omega

/-- An element of a block is the element of the buffer. -/
theorem getElem?_wordAt (hp : p < n) : (wordAt n i l)[p]? = l[n * i + p]? := by
  rw [wordAt, List.getElem?_take_of_lt hp, List.getElem?_drop]

/-- A place in a buffer, by its block. -/
theorem getElem?_eq_wordAt (hn : 0 < n) (p : Nat) : l[p]? = (wordAt n (p / n) l)[p % n]? := by
  rw [getElem?_wordAt (Nat.mod_lt p hn), Nat.div_add_mod]

/-- Two buffers of one length with the same blocks. -/
theorem eq_of_wordAt (hn : 0 < n) (h : l.length = n * c) (h' : l'.length = n * c)
    (hblocks : ∀ j < c, wordAt n j l = wordAt n j l') : l = l' := by
  refine List.ext_getElem? fun p => ?_
  by_cases hp : p < n * c
  · rw [getElem?_eq_wordAt hn, getElem?_eq_wordAt (l := l') hn,
      hblocks _ (Nat.div_lt_of_lt_mul hp)]
  · rw [List.getElem?_eq_none (by omega), List.getElem?_eq_none (by omega)]

/-- A block of a block. -/
theorem wordAt_wordAt (hj : j < c) : wordAt n j (wordAt (n * c) i l) = wordAt n (i * c + j) l := by
  have hroom : n * j + n ≤ n * c := by
    rw [← Nat.mul_succ]
    exact Nat.mul_le_mul_left n hj
  have hplace : n * (i * c + j) = n * c * i + n * j := by
    rw [Nat.mul_add, Nat.mul_comm i c, ← Nat.mul_assoc]
  refine List.ext_getElem? fun p => ?_
  by_cases hp : p < n
  · rw [getElem?_wordAt hp, getElem?_wordAt (by omega), getElem?_wordAt hp, hplace, Nat.add_assoc]
  · have hshort : ∀ (i : Nat) (k : List α), (wordAt n i k).length ≤ n := fun i k => by
      rw [wordAt, List.length_take]
      omega
    rw [List.getElem?_eq_none ((hshort _ _).trans (by omega)),
      List.getElem?_eq_none ((hshort _ _).trans (by omega))]

/-- Writing a block replaces this block and no other. -/
theorem wordAt_overwrite (hpiece : piece.length = n) (hroom : n * i + n ≤ l.length) (j : Nat) :
    wordAt n j (overwrite l (n * i) piece) = if j = i then piece else wordAt n j l := by
  have htake : (l.take (n * i)).length = n * i := by
    rw [List.length_take]
    omega
  have hfront : (l.take (n * i) ++ piece).length = n * i + n := by
    rw [List.length_append, htake, hpiece]
  refine List.ext_getElem? fun p => ?_
  by_cases hp : p < n
  · rw [getElem?_wordAt hp, overwrite]
    rcases Nat.lt_trichotomy j i with hlt | rfl | hgt
    · -- A block before the written one ends where that one starts.
      have hmul : n * j + n ≤ n * i := by
        rw [← Nat.mul_succ]
        exact Nat.mul_le_mul_left n hlt
      rw [if_neg hlt.ne, getElem?_wordAt hp, List.append_assoc,
        List.getElem?_append_left (by omega), List.getElem?_take_of_lt (by omega)]
    · rw [if_pos rfl, List.getElem?_append_left (by omega), List.getElem?_append_right (by omega),
        htake, Nat.add_sub_cancel_left]
    -- a block behind the written one starts where that one ends, or later
    · have hmul : n * i + n ≤ n * j := by
        rw [← Nat.mul_succ]
        exact Nat.mul_le_mul_left n hgt
      rw [if_neg hgt.ne', getElem?_wordAt hp, List.getElem?_append_right (by omega), hfront,
        List.getElem?_drop, hpiece]
      congr 1
      omega
  -- behind the end of a block there is nothing on either side
  · have hshort : ∀ k, (wordAt n j k : List α).length ≤ n := fun k => by
      rw [wordAt, List.length_take]
      omega
    rw [List.getElem?_eq_none ((hshort _).trans (by omega))]
    split
    · rw [List.getElem?_eq_none (by omega)]
    · rw [List.getElem?_eq_none ((hshort _).trans (by omega))]

/-- A loop that writes blocks keeps the length of the buffer, and leaves in each block what belongs
there, or what stood there if it never came to the block. -/
theorem wordAt_foldl_overwrite (piece : Nat → List α) (blocks : List Nat) (buffer : List α)
    (hpiece : ∀ i ∈ blocks, (piece i).length = n)
    (hroom : ∀ i ∈ blocks, n * i + n ≤ buffer.length) :
    (blocks.foldl (fun b i => overwrite b (n * i) (piece i)) buffer).length = buffer.length ∧
      ∀ j, wordAt n j (blocks.foldl (fun b i => overwrite b (n * i) (piece i)) buffer) =
        if j ∈ blocks then piece j else wordAt n j buffer := by
  induction blocks generalizing buffer with
  | nil => exact ⟨rfl, fun j => by simp⟩
  | cons i rest ih =>
      have hi := hpiece i List.mem_cons_self
      have hroomi := hroom i List.mem_cons_self
      have hlength : (overwrite buffer (n * i) (piece i)).length = buffer.length :=
        length_overwrite (by omega)
      -- what the rest of the loop does to the buffer that this block has been written to
      obtain ⟨hlen, hword⟩ := ih (overwrite buffer (n * i) (piece i))
        (fun k hk => hpiece k (List.mem_cons_of_mem _ hk))
        (fun k hk => by rw [hlength]; exact hroom k (List.mem_cons_of_mem _ hk))
      rw [List.foldl_cons]
      refine ⟨hlen.trans hlength, fun j => ?_⟩
      rw [hword, wordAt_overwrite hi hroomi]
      by_cases hj : j ∈ rest
      · rw [if_pos hj, if_pos (List.mem_cons_of_mem _ hj)]
      · rw [if_neg hj]
        by_cases hji : j = i
        · rw [if_pos hji, if_pos (by rw [hji]; exact List.mem_cons_self), hji]
        · rw [if_neg hji, if_neg (by simp [hji, hj])]

end NilStore.Lib
