import NilStore.Core.Expand

/-!
# `NilStore.Website.FileSharder`: the packing of `FileSharder.tsx`

`encodeToMdu` of the browser keeps two offsets, one into the payload and one into the MDU, and moves
them on scalar by scalar. Step for step it is the loop of the Rust encoder (`encodeFrom_eq`).
-/

set_option autoImplicit false

namespace NilStore.Website

open NilStore.Lib NilStore.Core

/-- The loop of `encodeToMdu`. A chunk lies at the end of its scalar, behind zeros. -/
def encodeFrom (rawData : Bytes) (readOffset writeOffset : Nat) (mdu : Bytes) : Bytes :=
  if readOffset < rawData.length ∧ writeOffset < mduSize then
    let chunkLen := min scalarPayloadBytes (rawData.length - readOffset)
    let chunk := (rawData.drop readOffset).take chunkLen
    let pad := scalarBytes - chunkLen
    encodeFrom rawData (readOffset + chunkLen) (writeOffset + scalarBytes)
      (overwrite mdu (writeOffset + pad) chunk)
  else mdu
termination_by rawData.length - readOffset
decreasing_by
  rw [scalarPayloadBytes]
  omega

/-- `encodeToMdu`. What does not fit into the MDU is left out. -/
def encodeToMdu (rawData : Bytes) : Bytes := encodeFrom rawData 0 0 (List.replicate mduSize 0)

/-- Behind the end of the data there is nothing to encode. -/
theorem encodeFrom_done {rawData : Bytes} {readOffset : Nat} (h : rawData.length ≤ readOffset)
    (writeOffset : Nat) (mdu : Bytes) : encodeFrom rawData readOffset writeOffset mdu = mdu := by
  rw [encodeFrom, if_neg fun hmore => Nat.not_lt.mpr h hmore.1]

/-- The loop does what the loop over the chunks does. The worker counts in bytes of the file and of
the MDU, and the chunks count scalars. -/
theorem encodeFrom_eq (rawData : Bytes) (i : Nat) (mdu : Bytes) :
    encodeFrom rawData (i * scalarPayloadBytes) (i * scalarBytes) mdu =
      encodeChunks i ((rawData.drop (i * scalarPayloadBytes)).toChunks scalarPayloadBytes) mdu := by
  induction hrest : rawData.length - i * scalarPayloadBytes
    using Nat.strong_induction_on generalizing i mdu with
  | _ n ih =>
      rw [encodeFrom]
      by_cases hmore : i * scalarPayloadBytes < rawData.length
      · have hne : rawData.drop (i * scalarPayloadBytes) ≠ [] := by
          rw [ne_eq, List.drop_eq_nil_iff]
          omega
        rw [toChunks_eq_cons (by decide) hne, encodeChunks, List.drop_drop]
        -- there is room as long as there are scalars
        have hroom : i * scalarBytes < mduSize ↔ ¬i ≥ scalarsPerMdu := by
          rw [scalarBytes, mduSize, scalarsPerMdu]
          omega
        by_cases hspace : i * scalarBytes < mduSize
        · have hchunk : (rawData.drop (i * scalarPayloadBytes)).take
              (min scalarPayloadBytes (rawData.length - i * scalarPayloadBytes)) =
                (rawData.drop (i * scalarPayloadBytes)).take scalarPayloadBytes := by
            rw [← List.length_drop, ← List.take_eq_take_min]
          have hlength : ((rawData.drop (i * scalarPayloadBytes)).take scalarPayloadBytes).length =
              min scalarPayloadBytes (rawData.length - i * scalarPayloadBytes) := by
            rw [List.length_take, List.length_drop]
          rw [if_pos ⟨hmore, hspace⟩, if_neg (hroom.mp hspace)]
          simp only [hchunk, hlength]
          rw [← Nat.succ_mul i scalarBytes, ← Nat.succ_mul i scalarPayloadBytes]
          by_cases hlast : rawData.length - i * scalarPayloadBytes < scalarPayloadBytes
          · -- The last chunk is short, and both loops are done.
            have hend : i * scalarPayloadBytes + (rawData.length - i * scalarPayloadBytes) =
                rawData.length := by
              omega
            have hnil : rawData.drop (i.succ * scalarPayloadBytes) = [] := by
              rw [List.drop_eq_nil_iff, Nat.succ_mul]
              omega
            rw [Nat.min_eq_right hlast.le, hend, encodeFrom_done le_rfl, hnil,
              toChunks_nil, encodeChunks]
          · rw [Nat.min_eq_left (Nat.le_of_not_lt hlast), ← Nat.succ_mul i scalarPayloadBytes]
            refine ih _ ?_ _ _ rfl
            rw [← hrest, Nat.succ_mul]
            have hpos : 0 < scalarPayloadBytes := by decide
            omega
        -- no room: the rest of the file is not encoded
        · rw [if_neg fun h => hspace h.2, if_pos (not_not.mp fun h => hspace (hroom.mpr h))]
      · rw [if_neg fun h =>
          hmore h.1, List.drop_eq_nil_of_le (Nat.le_of_not_lt hmore), toChunks_nil,
          encodeChunks]

end NilStore.Website
