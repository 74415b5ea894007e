import Mathlib.Algebra.Group.Nat.Defs
import Mathlib.Data.Nat.Basic
import Mathlib.Data.List.Induction
import Mathlib.Order.Basic
import Mathlib.Order.Lattice
import Mathlib.Tactic.Common

/-!
# `NilStore.Lib.Bytes`: byte strings and fixed-width big-endian numbers

A byte string is a list of bytes. `beBytes w n` writes `n` in `w` bytes, most significant
byte first, and `ofBeBytes` reads such a string back: `ofBeBytes_beBytes` is the round trip,
and `beBytes_inj` the injectivity below `256 ^ w` that fixed-width encodings rest on.
-/

set_option autoImplicit false

namespace NilStore.Lib

/-- A string of bytes. -/
abbrev Bytes := List UInt8

/-- Bytes are ordered by their value, so byte strings can be keys of an ordered store. -/
instance instLinearOrderUInt8 : LinearOrder UInt8 :=
  LinearOrder.lift' UInt8.toNat fun _ _ h => UInt8.toNat_inj.mp h

/-- The number in `w` bytes, most significant byte first, modulo `256 ^ w`. -/
def beBytes : Nat → Nat → Bytes
  | 0, _ => []
  | w + 1, n => beBytes w (n / 256) ++ [UInt8.ofNat (n % 256)]

/-- The number that a big-endian byte string writes. The empty string writes zero. -/
def ofBeBytes (b : Bytes) : Nat := b.foldl (fun acc x => acc * 256 + x.toNat) 0

/-- A number is written in the width asked for, whatever it is. -/
@[simp] theorem length_beBytes (w n : Nat) : (beBytes w n).length = w := by
  induction w generalizing n with
  | zero => rfl
  | succ w ih => rw [beBytes, List.length_append, ih]; rfl

/-- One more byte at the end shifts the number by eight bits. -/
theorem ofBeBytes_append_singleton (b : Bytes) (x : UInt8) :
    ofBeBytes (b ++ [x]) = ofBeBytes b * 256 + x.toNat := by
  rw [ofBeBytes, List.foldl_append]
  rfl

/-- Writing a number in `w` bytes and reading it back keeps it modulo `256 ^ w`. -/
theorem ofBeBytes_beBytes (w n : Nat) : ofBeBytes (beBytes w n) = n % 256 ^ w := by
  induction w generalizing n with
  | zero => simp [beBytes, ofBeBytes, Nat.mod_one]
  | succ w ih =>
      have hbyte : (UInt8.ofNat (n % 256)).toNat = n % 256 := by
        rw [UInt8.toNat_ofNat']
        omega
      rw [beBytes, ofBeBytes_append_singleton, ih, hbyte, Nat.pow_succ, Nat.mul_comm (256 ^ w) 256,
        Nat.mod_mul]
      omega

/-- Reading a string and writing it again keeps it. -/
theorem beBytes_ofBeBytes (b : Bytes) : beBytes b.length (ofBeBytes b) = b := by
  induction b using List.reverseRecOn with
  | nil => rfl
  | append_singleton b x ih =>
      have hx : x.toNat < 256 := x.toNat_lt
      have hquot : (ofBeBytes b * 256 + x.toNat) / 256 = ofBeBytes b := by omega
      have hrem : (ofBeBytes b * 256 + x.toNat) % 256 = x.toNat := by omega
      rw [ofBeBytes_append_singleton, List.length_append, List.length_singleton,
        beBytes, hquot, hrem, ih, UInt8.ofNat_toNat]

/-- Below `256 ^ w`, a number is determined by its `w` bytes. -/
theorem beBytes_inj {w n m : Nat} (hn : n < 256 ^ w) (hm : m < 256 ^ w)
    (h : beBytes w n = beBytes w m) : n = m := by
  have := congrArg ofBeBytes h
  rwa [ofBeBytes_beBytes, ofBeBytes_beBytes, Nat.mod_eq_of_lt hn, Nat.mod_eq_of_lt hm] at this

/-- A big-endian string of length `w` writes a number below `256 ^ w`. -/
theorem ofBeBytes_lt (b : Bytes) : ofBeBytes b < 256 ^ b.length := by
  induction b using List.reverseRecOn with
  | nil => simp [ofBeBytes]
  | append_singleton b x ih =>
      have hx : x.toNat < 256 := x.toNat_lt
      rw [ofBeBytes_append_singleton, List.length_append, List.length_singleton, Nat.pow_succ]
      omega

/-- The bytes of a `uint64`, most significant first. -/
def uint64ToBigEndian (x : UInt64) : Bytes := beBytes 8 x.toNat

/-- The bytes of a `uint32`, most significant first. -/
def putUint32 (x : UInt32) : Bytes := beBytes 4 x.toNat

/-- A 64-bit number is written in 8 bytes. -/
@[simp] theorem length_uint64ToBigEndian (x : UInt64) : (uint64ToBigEndian x).length = 8 :=
  length_beBytes 8 _

/-- A 32-bit number is written in 4 bytes. -/
@[simp] theorem length_putUint32 (x : UInt32) : (putUint32 x).length = 4 := length_beBytes 4 _

/-- Two 64-bit numbers with the same bytes are the same. -/
theorem uint64ToBigEndian_inj {x y : UInt64} (h : uint64ToBigEndian x = uint64ToBigEndian y) :
    x = y :=
  UInt64.toNat_inj.mp (beBytes_inj x.toNat_lt y.toNat_lt h)

/-- Two 32-bit numbers with the same bytes are the same. -/
theorem putUint32_inj {x y : UInt32} (h : putUint32 x = putUint32 y) : x = y :=
  UInt32.toNat_inj.mp (beBytes_inj x.toNat_lt y.toNat_lt h)

/-! ### Pairs of nodes -/

/-- Two nodes of 32 bytes whose concatenation is among the preimages `H`. -/
def nodePairs (H : Set Bytes) : Set (Bytes × Bytes) :=
  {e | e.1.length = 32 ∧ e.2.length = 32 ∧ e.1 ++ e.2 ∈ H}

/-- A hash that is injective on `H` determines both nodes. -/
theorem nodePairs_injOn {hash : Bytes → Bytes} {H : Set Bytes} (h : Set.InjOn hash H) :
    Set.InjOn (fun e : Bytes × Bytes => hash (e.1 ++ e.2)) (nodePairs H) := by
  rintro ⟨l, r⟩ ⟨hl, -, hmem⟩ ⟨l', r'⟩ ⟨hl', -, hmem'⟩ heq
  have happend : l ++ r = l' ++ r' := h hmem hmem' heq
  have hlength : l.length = l'.length := hl.trans hl'.symm
  obtain ⟨hleft, hright⟩ := List.append_inj happend hlength
  rw [hleft, hright]

end NilStore.Lib
