import Mathlib.Data.List.Perm.Basic
import Mathlib.Logic.Nontrivial.Defs
import Mathlib.Tactic.Common

/-!
# `NilStore.Lib.Tiling`: a range cut into pieces

Pieces that stand one after the other cut a range of positions (`Tiles`). What they hold of a file,
put together in their order, is what the range holds (`Tiles.flatten`). In any other order it is
something else, for some file (`Tiles.eq_of_flatten`).
-/

set_option autoImplicit false

namespace NilStore.Lib

variable {α β : Type}

/-- The elements of a file from `start` on, `len` of them where there are as many. -/
def slice (file : List β) (start len : Nat) : List β := (file.drop start).take len

/-- Two slices that meet are one slice. -/
theorem slice_append (file : List β) (start m n : Nat) :
    slice file start m ++ slice file (start + m) n = slice file start (m + n) := by
  rw [slice, slice, slice, List.take_add, List.drop_drop]

/-- A slice of length zero is empty. -/
theorem slice_zero (file : List β) (start : Nat) : slice file start 0 = [] := List.take_zero

/-- The first element of a slice. -/
theorem head?_slice {len : Nat} (hlen : 0 < len) (file : List β) (start : Nat) :
    (slice file start len).head? = file[start]? := by
  rw [slice, List.head?_take, if_neg (by omega), List.head?_drop]

section

variable (start len : α → Nat)

/-- Pieces that are not empty, one after the other, from one position to another. -/
def Tiles : Nat → List α → Nat → Prop
  | lo, [], hi => lo = hi
  | lo, piece :: rest, hi => start piece = lo ∧ 0 < len piece ∧ Tiles (lo + len piece) rest hi

/-- What the pieces hold. They are read from the file one by one and put together. -/
def pieces (file : List β) (l : List α) : List β :=
  (l.map fun piece => slice file (start piece) (len piece)).flatten

variable {start len}

/-- Tiles end no earlier than they start. -/
theorem Tiles.le {lo hi : Nat} {l : List α} (h : Tiles start len lo l hi) : lo ≤ hi := by
  induction l generalizing lo with
  | nil => exact Nat.le_of_eq h
  | cons piece rest ih =>
      obtain ⟨-, -, hrest⟩ := h
      have hle := ih hrest
      omega

/-- Every piece lies in the range. -/
theorem Tiles.mem {lo hi : Nat} {l : List α} (h : Tiles start len lo l hi) {piece : α}
    (hpiece : piece ∈ l) :
    lo ≤ start piece ∧ 0 < len piece ∧ start piece + len piece ≤ hi := by
  induction l generalizing lo with
  | nil => cases hpiece
  | cons first rest ih =>
      obtain ⟨hstart, hpos, hrest⟩ := h
      rcases List.mem_cons.mp hpiece with rfl | hmem
      · have hle := hrest.le
        omega
      · obtain ⟨hlow, hlen, hhigh⟩ := ih hrest hmem
        omega

/-- In their order the pieces hold what the range holds. -/
theorem Tiles.flatten {lo hi : Nat} {l : List α} (h : Tiles start len lo l hi) (file : List β) :
    pieces start len file l = slice file lo (hi - lo) := by
  induction l generalizing lo with
  | nil =>
      have hempty : hi - lo = 0 := by
        have heq : lo = hi := h
        omega
      rw [hempty, slice_zero]
      rfl
  | cons piece rest ih =>
      obtain ⟨hstart, -, hrest⟩ := h
      have hle := hrest.le
      have hsum : hi - lo = len piece + (hi - (lo + len piece)) := by omega
      have htail : pieces start len file rest =
          slice file (lo + len piece) (hi - (lo + len piece)) := ih hrest
      rw [hsum, ← slice_append, ← htail, ← hstart]
      rfl

variable [Nontrivial β]

/-- **Only the order of the range gives the content of the range**, for every file. -/
theorem Tiles.eq_of_flatten {lo hi size : Nat} {l l' : List α} (h : Tiles start len lo l hi)
    (hsize : hi ≤ size) (hperm : l'.Perm l)
    (hsame : ∀ file : List β, file.length = size →
      pieces start len file l' = pieces start len file l) : l' = l := by
  -- the induction is on the pieces of the range, and goes with the order of the other list
  induction l generalizing lo l' with
  | nil => exact hperm.eq_nil
  | cons piece rest ih =>
      cases l' with
      | nil => exact absurd hperm.length_eq (by simp)
      | cons piece' rest' =>
          obtain ⟨hstart, hpos, hrest⟩ := h
          have hle := hrest.le
          have hhead : piece' = piece := by
            rcases List.mem_cons.mp (hperm.subset List.mem_cons_self) with heq | hmem
            · exact heq
            · -- a file with a mark at the beginning of the range tells the two apart
              exfalso
              obtain ⟨hlow, hpos', -⟩ := hrest.mem hmem
              obtain ⟨blank, mark, hne⟩ := exists_pair_ne β
              let file := (List.replicate size blank).set lo mark
              have hlength : file.length = size := by simp [file]
              have hheads := congrArg List.head? (hsame file hlength)
              simp only [pieces, List.map_cons, List.flatten_cons, List.head?_append,
                head?_slice hpos, head?_slice hpos', hstart] at hheads
              have hmark : file[lo]? = some mark := by
                rw [List.getElem?_set_self]
                rw [List.length_replicate]
                omega
              have hblank : file[start piece']? = some blank := by
                rw [List.getElem?_set_ne (by omega), List.getElem?_replicate, if_pos]
                have hhigh := (hrest.mem hmem).2.2
                omega
              rw [hmark, hblank] at hheads
              exact hne (Option.some.inj hheads)
          subst hhead
          -- with the same piece in front, the rests have the same content
          have htail : rest' = rest := by
            refine ih hrest (List.perm_cons _ |>.mp hperm) fun file hfile => ?_
            have hboth := hsame file hfile
            simp only [pieces, List.map_cons, List.flatten_cons] at hboth
            exact List.append_cancel_left hboth
          rw [htail]

end

end NilStore.Lib
