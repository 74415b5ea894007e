import NilStore.Lib.Blocks
import NilStore.Lib.Bytes
import NilStore.Lib.Tiling

/-!
# `NilStore.Lib.Layout`: fields at fixed places of a buffer

`slice` reads a field of a buffer and `overwrite` writes one. A field that was written is read back
(`slice_overwrite_self`), and a field that lies before or after it is as it was
(`slice_overwrite_of_disjoint`). Numbers are stored in little-endian.
-/

set_option autoImplicit false

namespace NilStore.Lib

section

variable {α : Type} {buffer piece : List α} {offset o n : Nat}

/-- A field has its length, where the buffer has room for it. -/
theorem length_slice (h : o + n ≤ buffer.length) : (slice buffer o n).length = n := by
  rw [slice, List.length_take, List.length_drop]
  omega

/-- An element of a field is the element of the buffer. -/
theorem getElem?_slice {p : Nat} (hp : p < n) : (slice buffer o n)[p]? = buffer[o + p]? := by
  rw [slice, List.getElem?_take_of_lt hp, List.getElem?_drop]

/-- A field of a field. -/
theorem slice_slice {p m : Nat} (h : p + m ≤ n) :
    slice (slice buffer o n) p m = slice buffer (o + p) m := by
  rw [slice, slice, slice, List.drop_take, List.drop_drop, List.take_take]
  congr 1
  omega

/-- What was written is read back. -/
theorem slice_overwrite_self (h : offset + piece.length ≤ buffer.length) :
    slice (overwrite buffer offset piece) offset piece.length = piece := by
  have htake : (buffer.take offset).length = offset := by
    rw [List.length_take]
    omega
  rw [slice, overwrite, List.append_assoc, List.drop_left' htake, List.take_left]

/-- A field that ends before what was written, or starts after it, is as it was. -/
theorem slice_overwrite_of_disjoint (h : offset + piece.length ≤ buffer.length)
    (hdisjoint : o + n ≤ offset ∨ offset + piece.length ≤ o) :
    slice (overwrite buffer offset piece) o n = slice buffer o n := by
  have htake : (buffer.take offset).length = offset := by
    rw [List.length_take]
    omega
  have hfront : (buffer.take offset ++ piece).length = offset + piece.length := by
    rw [List.length_append, htake]
  rcases hdisjoint with hbefore | hafter
  · rw [slice, slice, overwrite, List.append_assoc, List.drop_append_of_le_length (by omega),
      List.take_append_of_le_length (by rw [List.length_drop]; omega), List.drop_take,
      List.take_take]
    congr 1
    omega
  · rw [slice, slice, overwrite, List.drop_append, List.drop_of_length_le (by omega),
      List.nil_append, List.drop_drop, hfront]
    congr 2
    omega

end

/-- A table that is read entry by entry. -/
theorem mapM_range_eq_some {β : Type} {f : Nat → Option β} (l : List β)
    (h : ∀ i x, l[i]? = some x → f i = some x) : (List.range l.length).mapM f = some l := by
  induction l using List.reverseRecOn with
  | nil => rfl
  | append_singleton l x ih =>
      have hfront := ih fun i y hy => h i y <| by
        rw [List.getElem?_append_left (List.getElem?_eq_some_iff.mp hy).1]
        exact hy
      have hlast := h l.length x (by simp)
      rw [List.length_append, List.length_singleton, List.range_succ, List.mapM_append, hfront]
      simp [hlast]

/-! ### Little-endian numbers -/

/-- The `w` bytes of a number, the least significant first. -/
def leBytes (w n : Nat) : Bytes := (beBytes w n).reverse

/-- The number behind little-endian bytes. -/
def ofLeBytes (b : Bytes) : Nat := ofBeBytes b.reverse

/-- A number is written in the width asked for, whatever it is. -/
@[simp] theorem length_leBytes (w n : Nat) : (leBytes w n).length = w := by
  rw [leBytes, List.length_reverse, length_beBytes]

/-- A number that fits its width is read back as it was written. -/
theorem ofLeBytes_leBytes {w n : Nat} (h : n < 256 ^ w) : ofLeBytes (leBytes w n) = n := by
  rw [ofLeBytes, leBytes, List.reverse_reverse, ofBeBytes_beBytes, Nat.mod_eq_of_lt h]

/-- Bytes are written back as they were read, leading zeros included. -/
theorem leBytes_ofLeBytes (b : Bytes) : leBytes b.length (ofLeBytes b) = b := by
  have hlength : b.reverse.length = b.length := List.length_reverse
  rw [leBytes, ofLeBytes, ← hlength, beBytes_ofBeBytes, List.reverse_reverse]

end NilStore.Lib
