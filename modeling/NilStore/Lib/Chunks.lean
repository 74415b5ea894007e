import Mathlib.Algebra.BigOperators.Group.List.Basic
import Mathlib.Data.Nat.Basic
import Mathlib.Order.Basic

/-!
# `NilStore.Lib.Chunks`: chunks of a list, and words of a fixed width

`List.toChunks n` cuts a list into pieces of `n` elements, the last one shorter. A buffer of words
of width `w` is read by `wordAt w i`. `packRight z k w` writes chunks of `k` elements as words: each
is right-aligned in its word, with fillers `z` before it. `wordAt_packRight` says what stands in
each word, also past the end of the data, where the buffer is filled up with `z`.
-/

set_option autoImplicit false

namespace NilStore.Lib

variable {α : Type} {n i : Nat} {l r : List α}

/-! ### Chunks -/

/-- The loop of `toChunks` fills its piece before it starts the next. -/
theorem toChunks_go_fill (xs r : List α) (piece : Array α) (done : Array (List α))
    (h : piece.size + xs.length ≤ n) :
    List.toChunks.go n (xs ++ r) piece done =
      List.toChunks.go n r (piece ++ xs.toArray) done := by
  induction xs generalizing piece with
  | nil => simp
  | cons x xs ih =>
      have hroom : (piece.size == n) = false := by
        rw [List.length_cons] at h
        rw [beq_eq_false_iff_ne]
        omega
      have hsize : (piece.push x).size + xs.length ≤ n := by
        rw [Array.size_push]
        rw [List.length_cons] at h
        omega
      rw [List.cons_append, List.toChunks.go, hroom, if_neg Bool.false_ne_true, ih _ hsize]
      simp

/-- What the loop has done stays in front. -/
theorem toChunks_go_done (xs : List α) (piece : Array α) (done : Array (List α)) :
    List.toChunks.go n xs piece done = done.toList ++ List.toChunks.go n xs piece #[] := by
  induction xs generalizing piece done with
  | nil => simp [List.toChunks.go]
  | cons x xs ih =>
      rw [List.toChunks.go, List.toChunks.go]
      split
      · rw [ih, ih _ (Array.push #[] piece.toList)]
        simp
      · exact ih _ _

/-- A list of at most `n` elements is its only chunk. -/
theorem toChunks_of_length_le (hne : l ≠ []) (h : l.length ≤ n) : l.toChunks n = [l] := by
  cases l with
  | nil => exact absurd rfl hne
  | cons x xs =>
      cases n with
      | zero => simp at h
      | succ n =>
          have hfit : (#[x] : Array α).size + xs.length ≤ n + 1 := by
            simpa [Nat.add_comm] using h
          have hfill := toChunks_go_fill xs [] #[x] #[] hfit
          rw [List.append_nil] at hfill
          show List.toChunks.go (n + 1) xs #[x] #[] = [x :: xs]
          rw [hfill]
          simp [List.toChunks.go]

/-- A full piece in front is the first chunk. -/
theorem toChunks_append (hn : 0 < n) (h : l.length = n) :
    (l ++ r).toChunks n = l :: r.toChunks n := by
  cases l with
  | nil => simp at h; omega
  -- the loop takes the first element, and fills the piece with the others
  | cons x xs =>
      cases r with
      | nil =>
          rw [List.append_nil, toChunks_of_length_le (by simp) h.le]
          simp [List.toChunks]
      | cons y ys =>
          cases n with
          | zero => omega
          | succ n =>
              have hfit : (#[x] : Array α).size + xs.length ≤ n + 1 := by
                simpa [Nat.add_comm] using h.le
              have hfill := toChunks_go_fill xs (y :: ys) #[x] #[] hfit
              have hfull : ((#[x] ++ xs.toArray).size == n + 1) = true := by
                rw [beq_iff_eq]
                simpa [Nat.add_comm] using h
              show List.toChunks.go (n + 1) (xs ++ y :: ys) #[x] #[] =
                (x :: xs) :: List.toChunks.go (n + 1) ys #[y] #[]
              rw [hfill, List.toChunks.go, if_pos hfull, toChunks_go_done]
              simp

/-- The first chunk is the first `n` elements. -/
theorem toChunks_eq_cons (hn : 0 < n) (hne : l ≠ []) :
    l.toChunks n = l.take n :: (l.drop n).toChunks n := by
  by_cases hlong : n ≤ l.length
  · have hlength : (l.take n).length = n := by
      rw [List.length_take]
      omega
    have happend := toChunks_append (r := l.drop n) hn hlength
    rwa [List.take_append_drop] at happend
  · have hshort : l.length ≤ n := by omega
    rw [toChunks_of_length_le hne hshort, List.take_of_length_le hshort,
      List.drop_of_length_le hshort, List.toChunks]

/-- The empty list has no chunks, whatever their size. -/
theorem toChunks_nil : ([] : List α).toChunks n = [] := by rw [List.toChunks]

/-- The chunk at a place, while the list lasts. -/
theorem getElem?_toChunks (hn : 0 < n) (l : List α) (i : Nat) :
    (l.toChunks n)[i]? = if n * i < l.length then some ((l.drop (n * i)).take n) else none := by
  induction i generalizing l with
  | zero =>
      cases l with
      | nil => simp [toChunks_nil]
      | cons x xs =>
          rw [toChunks_eq_cons hn (by simp)]
          simp
  | succ i ih =>
      cases l with
      | nil => simp [toChunks_nil]
      | cons x xs =>
          have hmul : n * (i + 1) = n + n * i := by rw [Nat.mul_succ, Nat.add_comm]
          rw [toChunks_eq_cons hn (by simp), List.getElem?_cons_succ, ih, List.drop_drop,
            List.length_drop, hmul]
          by_cases hlt : n + n * i < (x :: xs).length
          · have hlt' : n * i < (x :: xs).length - n := by omega
            rw [if_pos hlt, if_pos hlt']
          · have hlt' : ¬n * i < (x :: xs).length - n := by omega
            rw [if_neg hlt, if_neg hlt']

/-- The chunks are the list. -/
theorem flatten_toChunks (hn : 0 < n) (l : List α) : (l.toChunks n).flatten = l := by
  induction hlength : l.length using Nat.strong_induction_on generalizing l with
  | _ m ih =>
      cases l with
      | nil => simp [toChunks_nil]
      | cons x xs =>
          have hdrop : ((x :: xs).drop n).length < m := by
            rw [List.length_drop]
            simp only [List.length_cons] at hlength ⊢
            omega
          rw [toChunks_eq_cons hn (by simp), List.flatten_cons, ih _ hdrop _ rfl,
            List.take_append_drop]

/-- Pieces of `n` elements are the chunks of what they make together. -/
theorem toChunks_flatten (hn : 0 < n) {pieces : List (List α)}
    (h : ∀ piece ∈ pieces, piece.length = n) : pieces.flatten.toChunks n = pieces := by
  induction pieces with
  | nil => simp [toChunks_nil]
  | cons piece rest ih =>
      rw [List.flatten_cons, toChunks_append hn (h piece List.mem_cons_self),
        ih fun p hp => h p (List.mem_cons_of_mem _ hp)]

/-- A list whose length is a multiple of `n` is cut into pieces of `n` elements. -/
theorem toChunks_of_length_mul {m : Nat} (hn : 0 < n) (h : l.length = n * m) :
    (l.toChunks n).length = m ∧ ∀ piece ∈ l.toChunks n, piece.length = n := by
  induction m generalizing l with
  | zero =>
      have hnil : l = [] := List.length_eq_zero_iff.mp h
      simp [hnil, toChunks_nil]
  | succ m ih =>
      -- one piece in front, and `m` of them behind
      have hlength : l.length = n + n * m := by rw [h, Nat.mul_succ, Nat.add_comm]
      have hne : l ≠ [] := by
        intro hnil
        rw [hnil, List.length_nil] at hlength
        omega
      have hdrop : (l.drop n).length = n * m := by
        rw [List.length_drop, hlength, Nat.add_sub_cancel_left]
      obtain ⟨hcount, hpieces⟩ := ih hdrop
      rw [toChunks_eq_cons hn hne]
      constructor
      · rw [List.length_cons, hcount]
      · intro piece hpiece
        rcases List.mem_cons.mp hpiece with rfl | hpiece
        · rw [List.length_take, hlength]
          omega
        · exact hpieces piece hpiece

/-! ### Words -/

/-- The word of width `w` at a place of a buffer. -/
def wordAt (w i : Nat) (l : List α) : List α := (l.drop (w * i)).take w

section Words

variable {w m : Nat} {z : α} {words : List (List α)}

/-- Words of one width take that width times their number. -/
theorem length_flatten_words (h : ∀ word ∈ words, word.length = w) :
    words.flatten.length = w * words.length := by
  induction words with
  | nil => simp
  | cons word rest ih =>
      rw [List.flatten_cons, List.length_append, h word List.mem_cons_self,
        ih fun p hp => h p (List.mem_cons_of_mem _ hp), List.length_cons,
        Nat.mul_succ, Nat.add_comm]

/-- Dropping whole words. -/
theorem drop_flatten_words (h : ∀ word ∈ words, word.length = w) (i : Nat) :
    words.flatten.drop (w * i) = (words.drop i).flatten := by
  induction words generalizing i with
  | nil => simp
  | cons word rest ih =>
      cases i with
      | zero => simp
      | succ i =>
          have hmul : w * (i + 1) = word.length + w * i := by
            rw [h word List.mem_cons_self, Nat.mul_succ, Nat.add_comm]
          rw [List.flatten_cons, hmul, ← List.drop_drop, List.drop_left, List.drop_succ_cons]
          exact ih (fun p hp => h p (List.mem_cons_of_mem _ hp)) i

/-- Taking whole words. -/
theorem take_flatten_words (h : ∀ word ∈ words, word.length = w) (i : Nat) :
    words.flatten.take (w * i) = (words.take i).flatten := by
  induction words generalizing i with
  | nil => simp
  | cons word rest ih =>
      cases i with
      | zero => simp
      | succ i =>
          have hmul : w * (i + 1) = word.length + w * i := by
            rw [h word List.mem_cons_self, Nat.mul_succ, Nat.add_comm]
          rw [List.flatten_cons, hmul, List.take_length_add_append, List.take_succ_cons,
            List.flatten_cons, ih fun p hp => h p (List.mem_cons_of_mem _ hp)]

/-- A buffer that is made of words. -/
theorem wordAt_flatten (h : ∀ word ∈ words, word.length = w) (i : Nat) :
    wordAt w i words.flatten = words.getD i [] := by
  induction words generalizing i with
  | nil => simp [wordAt]
  | cons word rest ih =>
      have hword : word.length = w := h word List.mem_cons_self
      cases i with
      | zero =>
          rw [wordAt, List.flatten_cons, Nat.mul_zero, List.drop_zero, List.take_left' hword]
          rfl
      | succ i =>
          have hmul : w * (i + 1) = word.length + w * i := by rw [hword, Nat.mul_succ, Nat.add_comm]
          have hrest := ih (fun p hp => h p (List.mem_cons_of_mem _ hp)) i
          rw [wordAt, List.flatten_cons, hmul, ← List.drop_drop, List.drop_left]
          exact hrest

/-- Filling a buffer up to `m` words is adding words of fillers. -/
theorem fill_eq_flatten (h : ∀ word ∈ words, word.length = w) :
    words.flatten ++ List.replicate (w * m - words.flatten.length) z =
      (words ++ List.replicate (m - words.length) (List.replicate w z)).flatten := by
  rw [List.flatten_append, List.flatten_replicate_replicate, length_flatten_words h,
    ← Nat.mul_sub, Nat.mul_comm]

/-! ### Right-aligned words -/

/-- Fill a word up from the left. -/
def alignRight (z : α) (w : Nat) (l : List α) : List α := List.replicate (w - l.length) z ++ l

/-- Padding a short list on the left gives exactly the width asked for. -/
theorem length_alignRight (h : l.length ≤ w) : (alignRight z w l).length = w := by
  rw [alignRight, List.length_append, List.length_replicate]
  omega

/-- Chunks of `k` elements, each right-aligned in a word of width `w`, and then fillers up to `m`
words. -/
def packRight (z : α) (k w m : Nat) (l : List α) : List α :=
  ((l.toChunks k).map (alignRight z w)).flatten ++
    List.replicate (w * m - ((l.toChunks k).map (alignRight z w)).flatten.length) z

variable {k : Nat}

/-- Every cell of a packed list is full: the short last chunk is padded as well. -/
theorem length_of_mem_packed (hk : 0 < k) (hkw : k ≤ w) :
    ∀ word ∈ (l.toChunks k).map (alignRight z w), word.length = w := by
  intro word hword
  obtain ⟨chunk, hchunk, rfl⟩ := List.mem_map.mp hword
  obtain ⟨i, hi⟩ := List.mem_iff_getElem?.mp hchunk
  rw [getElem?_toChunks hk] at hi
  split at hi
  · cases hi
    refine length_alignRight ?_
    rw [List.length_take]
    omega
  · cases hi

/-- Each word holds its chunk, which is empty past the end of the list. -/
theorem wordAt_packRight (hk : 0 < k) (hkw : k ≤ w) (him : i < m) :
    wordAt w i (packRight z k w m l) = alignRight z w ((l.drop (k * i)).take k) := by
  have hpacked := length_of_mem_packed (l := l) (z := z) hk hkw
  rw [packRight, fill_eq_flatten hpacked, wordAt_flatten]
  -- a chunk within the list is a word; behind the last chunk there are words of fillers
  · rw [List.getD_eq_getElem?_getD]
    by_cases hi : k * i < l.length
    · have hword : ((l.toChunks k).map (alignRight z w))[i]? =
          some (alignRight z w ((l.drop (k * i)).take k)) := by
        rw [List.getElem?_map, getElem?_toChunks hk, if_pos hi, Option.map_some]
      have hlt := (List.getElem?_eq_some_iff.mp hword).1
      rw [List.getElem?_append_left hlt, hword, Option.getD_some]
    · have hnone : ((l.toChunks k).map (alignRight z w))[i]? = none := by
        rw [List.getElem?_map, getElem?_toChunks hk, if_neg hi, Option.map_none]
      have hle := List.getElem?_eq_none_iff.mp hnone
      have hlt : i - ((l.toChunks k).map (alignRight z w)).length <
          m - ((l.toChunks k).map (alignRight z w)).length := by omega
      have hempty : (l.drop (k * i)).take k = [] := by
        rw [List.drop_of_length_le (by omega), List.take_nil]
      rw [List.getElem?_append_right hle, List.getElem?_replicate, if_pos hlt, hempty,
        Option.getD_some, alignRight, List.length_nil, Nat.sub_zero, List.append_nil]
  · intro word hword
    rcases List.mem_append.mp hword with hword | hword
    · exact hpacked word hword
    · rw [List.eq_of_mem_replicate hword, List.length_replicate]

/-- A list that fits into `m` words is packed into exactly `m` words. -/
theorem length_packRight (hk : 0 < k) (hkw : k ≤ w) (hfit : l.length ≤ k * m) :
    (packRight z k w m l).length = w * m := by
  have hpacked := length_of_mem_packed (l := l) (z := z) hk hkw
  have hcount : (l.toChunks k).length ≤ m := by
    by_contra hlong
    have hnone : (l.toChunks k)[m]? = none := by rw [getElem?_toChunks hk, if_neg (by omega)]
    have hle := List.getElem?_eq_none_iff.mp hnone
    omega
  have hle : w * ((l.toChunks k).map (alignRight z w)).length ≤ w * m := by
    rw [List.length_map]
    exact Nat.mul_le_mul_left w hcount
  have hwords := length_flatten_words hpacked
  rw [packRight, List.length_append, List.length_replicate]
  omega

end Words

end NilStore.Lib
