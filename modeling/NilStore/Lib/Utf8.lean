import NilStore.Lib.GoString

/-!
# `NilStore.Lib.Utf8`: decoding bytes that need not be UTF-8

`decodeUtf8` gives a character for each sequence that is UTF-8, and a replacement character for each
longest run of bytes that could have become one. What `utf8` writes comes back (`decodeUtf8_utf8`),
and a zero character comes from a zero byte alone (`zero_mem_of_mem_decodeUtf8`).
-/

set_option autoImplicit false

namespace NilStore.Lib

/-- The second byte of a sequence may follow the first. -/
def isSecondByte (first second : UInt8) : Bool :=
  (if first = 0xE0 then 0xA0 else if first = 0xF0 then 0x90 else 0x80) ≤ second &&
    second ≤ (if first = 0xED then 0x9F else if first = 0xF4 then 0x8F else 0xBF)

/-- How many bytes one replacement character stands for. -/
def replacedLength : Bytes → Nat
  | first :: second :: rest =>
      if 0xE0 ≤ first ∧ first ≤ 0xF4 ∧ isSecondByte first second then
        if 0xF0 ≤ first ∧ rest.head?.any fun third => 0x80 ≤ third ∧ third ≤ 0xBF then 3 else 2
      else 1
  | _ => 1

/-- A replacement consumes at least one byte, so the decoder ends. -/
theorem replacedLength_pos (b : Bytes) : 0 < replacedLength b := by
  rw [replacedLength.eq_def]
  split
  · split
    · split <;> decide
    · decide
  · decide

/-- The characters of a byte string. What is no UTF-8 is replaced, as decoders without errors do. -/
def decodeUtf8 (b : Bytes) : Str :=
  if b = [] then []
  else
    match b.toByteArray.utf8DecodeChar? 0 with
    | some c => c :: decodeUtf8 (b.drop c.utf8Size)
    | none => Char.ofNat 0xFFFD :: decodeUtf8 (b.drop (replacedLength b))
termination_by b.length
decreasing_by
  · have hpos := List.length_pos_iff.mpr ‹¬b = []›
    have hsize := c.utf8Size_pos
    rw [List.length_drop]
    omega
  · have hpos := List.length_pos_iff.mpr ‹¬b = []›
    have hsize := replacedLength_pos b
    rw [List.length_drop]
    omega

/-- A character that was encoded is decoded. -/
theorem decodeUtf8_append (c : Char) (rest : Bytes) :
    decodeUtf8 (String.utf8EncodeChar c ++ rest) = c :: decodeUtf8 rest := by
  have hlength : (String.utf8EncodeChar c).length = c.utf8Size := String.length_utf8EncodeChar c
  have hne : String.utf8EncodeChar c ++ rest ≠ [] := by
    intro hnil
    have hzero := congrArg List.length hnil
    have hsize := c.utf8Size_pos
    rw [List.length_append, hlength, List.length_nil] at hzero
    omega
  have hfirst : (String.utf8EncodeChar c ++ rest).toByteArray.utf8DecodeChar? 0 = some c := by
    rw [List.toByteArray_append]
    exact ByteArray.utf8DecodeChar?_utf8EncodeChar_append
  rw [decodeUtf8, if_neg hne, hfirst]
  show c :: decodeUtf8 ((String.utf8EncodeChar c ++ rest).drop c.utf8Size) = c :: decodeUtf8 rest
  rw [← hlength, List.drop_left]

/-- A string that was encoded is decoded. -/
theorem decodeUtf8_utf8 (s : Str) : decodeUtf8 (utf8 s) = s := by
  induction s with
  | nil => rw [utf8, List.flatMap_nil, decodeUtf8, if_pos rfl]
  | cons c s ih => rw [utf8, List.flatMap_cons, decodeUtf8_append, ← utf8, ih]

/-- Only the zero character is encoded with a zero byte. -/
theorem eq_zero_of_mem_utf8EncodeChar {c : Char} (h : 0 ∈ String.utf8EncodeChar c) :
    c = Char.ofNat 0 := by
  have hbyte : ∀ n, (0 : UInt8) = UInt8.ofNat n → n % 256 = 0 := by
    intro n hn
    have hnat := congrArg UInt8.toNat hn
    rw [UInt8.toNat_ofNat'] at hnat
    exact hnat.symm
  have hv : c.val.toNat = 0 := by
    rw [String.utf8EncodeChar] at h
    -- a byte of a longer sequence has its top bit
    split at h
    · have := hbyte _ (List.mem_singleton.mp h)
      omega
    · exfalso
      split at h
      · simp only [List.mem_cons, List.not_mem_nil, or_false] at h
        rcases h with h | h <;> have := hbyte _ h <;> omega
      · split at h
        · simp only [List.mem_cons, List.not_mem_nil, or_false] at h
          rcases h with h | h | h <;> have := hbyte _ h <;> omega
        · simp only [List.mem_cons, List.not_mem_nil, or_false] at h
          rcases h with h | h | h | h <;> have := hbyte _ h <;> omega
  exact Char.ext (UInt32.toNat_inj.mp hv)

/-- A zero byte only comes from a NUL character. -/
theorem zero_mem_utf8 {s : Str} (h : 0 ∈ utf8 s) : Char.ofNat 0 ∈ s := by
  obtain ⟨c, hc, hbyte⟩ := List.mem_flatMap.mp h
  rwa [← eq_zero_of_mem_utf8EncodeChar hbyte]

/-- A zero character is a zero byte. -/
theorem zero_mem_of_mem_decodeUtf8 {b : Bytes} (h : Char.ofNat 0 ∈ decodeUtf8 b) : 0 ∈ b := by
  induction b using decodeUtf8.induct with
  | case1 =>
      rw [decodeUtf8, if_pos rfl] at h
      cases h
  | case2 b hb c hfirst ih =>
      rw [decodeUtf8, if_neg hb, hfirst] at h
      rcases List.mem_cons.mp h with hc | h
      · obtain ⟨rest, hrest⟩ := ByteArray.exists_of_utf8DecodeChar?_eq_some hfirst
        have hbytes := congrArg (fun a => a.data.toList) hrest
        simp only [List.toList_data_toByteArray, ByteArray.toList_data_append, ← hc] at hbytes
        rw [hbytes]
        exact List.mem_append_left _ (by decide)
      · exact List.mem_of_mem_drop (ih h)
  | case3 b hb hfirst ih =>
      rw [decodeUtf8, if_neg hb, hfirst] at h
      rcases List.mem_cons.mp h with hc | h
      · exact absurd hc (by decide)
      · exact List.mem_of_mem_drop (ih h)

end NilStore.Lib
