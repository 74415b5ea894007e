import NilStore.Lib.Blocks
import NilStore.Lib.Bytes

/-!
# `NilStore.Lib.LinearCode`: byte-wise linear codes over the field with 256 elements

A systematic code adds `m` parity shards to `k` data shards. It works byte by byte: a parity byte is
a combination of the data bytes at its position, with coefficients in `GF(256)`. So codewords can be
put one behind another (`Codeword.of_blocks`), and where all data bytes are zero the parity bytes
are (`Codeword.parity_eq_zero`).
-/

set_option autoImplicit false

namespace NilStore.Lib

/-! ### `GF(256)` -/

/-- Multiplication by `x`, modulo `x ^ 8 + x ^ 4 + x ^ 3 + x ^ 2 + 1`. -/
def gfDouble (a : UInt8) : UInt8 := if 0x80 ≤ a then (a <<< 1) ^^^ 0x1d else a <<< 1

/-- The product: the multiples of `a` that the bits of `b` select. -/
def gfMul (a b : UInt8) : UInt8 :=
  (List.range 8).foldl
    (fun acc i => if b.toNat.testBit i then acc ^^^ gfDouble^[i] a else acc) 0

example : gfMul 0x80 2 = 0x1d := by decide

/-- Zero annihilates in the field of 256 elements. -/
theorem gfMul_zero (a : UInt8) : gfMul a 0 = 0 := by
  have hbits : ∀ bits : List Nat, bits.foldl
      (fun acc i => if (0 : UInt8).toNat.testBit i then acc ^^^ gfDouble^[i] a else acc) 0 = 0 := by
    intro bits
    induction bits with
    | nil => rfl
    | cons i rest ih =>
        rw [List.foldl_cons, if_neg (by simp)]
        exact ih
  exact hbits (List.range 8)

/-- One is neutral in the field of 256 elements. -/
theorem one_gfMul : ∀ a : UInt8, gfMul 1 a = a := by
  have hall : ∀ n < 256, gfMul 1 (.ofNat n) = .ofNat n := by decide +kernel
  intro a
  have ha := hall a.toNat a.toNat_lt
  rwa [UInt8.ofNat_toNat] at ha

/-- The combination of `k` bytes. -/
def gfDot (coeff : Nat → UInt8) (k : Nat) (column : Nat → UInt8) : UInt8 :=
  (List.range k).foldl (fun acc i => acc ^^^ gfMul (coeff i) (column i)) 0

/-- A parity byte depends on the data bytes it combines and on no others. -/
theorem gfDot_congr {coeff column column' : Nat → UInt8} {k : Nat}
    (h : ∀ i < k, column i = column' i) : gfDot coeff k column = gfDot coeff k column' := by
  rw [gfDot, gfDot]
  refine List.foldl_ext _ _ _ fun acc i hi => ?_
  rw [h i (List.mem_range.mp hi)]

/-- The parity of zeros is zero under every matrix. -/
theorem gfDot_zero (coeff : Nat → UInt8) (k : Nat) : gfDot coeff k (fun _ => 0) = 0 := by
  rw [gfDot]
  induction List.range k with
  | nil => rfl
  | cons i rest ih =>
      rw [List.foldl_cons, gfMul_zero]
      exact ih

/-! ### Codewords -/

/-- The byte of a shard at a position. -/
def shardByte (shards : List Bytes) (slot p : Nat) : UInt8 := (shards.getD slot []).getD p 0

/-- `k` data shards of `n` bytes and their `m` parity shards. -/
structure Codeword (coeff : Nat → Nat → UInt8) (k m n : Nat) (shards : List Bytes) : Prop where
  length : shards.length = k + m
  shardLength : ∀ shard ∈ shards, shard.length = n
  parity : ∀ j < m, ∀ p < n,
    shardByte shards (k + j) p = gfDot (coeff j) k fun i => shardByte shards i p

variable {coeff : Nat → Nat → UInt8} {k m n : Nat} {shards : List Bytes}

/-- Inside the list the default is never used. -/
theorem getD_eq_getElem {slot : Nat} (h : slot < shards.length) :
    shards.getD slot [] = shards[slot] := by
  rw [List.getD_eq_getElem?_getD, List.getElem?_eq_getElem h, Option.getD_some]

/-- Every shard of a codeword has the codeword's shard length. -/
theorem Codeword.length_getD (h : Codeword coeff k m n shards) {slot : Nat} (hslot : slot < k + m) :
    (shards.getD slot []).length = n := by
  have hlt : slot < shards.length := by
    rw [h.length]
    exact hslot
  rw [getD_eq_getElem hlt]
  exact h.shardLength _ (List.getElem_mem hlt)

/-- Zero data bytes give zero parity bytes. -/
theorem Codeword.parity_eq_zero (h : Codeword coeff k m n shards) {p : Nat} (hp : p < n)
    (hzero : ∀ i < k, shardByte shards i p = 0) : ∀ slot < k + m, shardByte shards slot p = 0 := by
  intro slot hslot
  by_cases hdata : slot < k
  · exact hzero slot hdata
  · have hparity := h.parity (slot - k) (by omega) p hp
    rw [Nat.add_sub_cancel' (by omega)] at hparity
    rw [hparity, gfDot_congr hzero, gfDot_zero]

/-- Shards that are made of blocks are a codeword when the blocks at each place are. -/
theorem Codeword.of_blocks {c : Nat} (hn : 0 < n) (hlength : shards.length = k + m)
    (hshards : ∀ shard ∈ shards, shard.length = n * c)
    (hblocks : ∀ r < c, Codeword coeff k m n (shards.map (wordAt n r))) :
    Codeword coeff k m (n * c) shards where
  length := hlength
  shardLength := hshards
  parity := by
    -- A byte of a shard is a byte of its block.
    have hbyte : ∀ slot < k + m, ∀ p < n * c, shardByte shards slot p =
        shardByte (shards.map (wordAt n (p / n))) slot (p % n) := by
      intro slot hslot p hp
      have hlt : slot < shards.length := by omega
      have hlt' : slot < (shards.map (wordAt n (p / n))).length := by
        rw [List.length_map]
        exact hlt
      rw [shardByte, shardByte, getD_eq_getElem hlt, getD_eq_getElem hlt', List.getElem_map,
        List.getD_eq_getElem?_getD, List.getD_eq_getElem?_getD, ← getElem?_eq_wordAt hn]
    intro j hj p hp
    have hrow := (hblocks (p / n) (Nat.div_lt_of_lt_mul hp)).parity j hj (p % n) (Nat.mod_lt p hn)
    rw [hbyte _ (by omega) p hp, hrow]
    exact gfDot_congr fun i hi => (hbyte i (by omega) p hp).symm

/-! ### Erasures -/

/-- Some of the shards, with `none` for the others. What is there is unchanged. -/
def Erased (shards : List Bytes) (remaining : List (Option Bytes)) : Prop :=
  List.Forall₂ (fun shard rest => rest = none ∨ rest = some shard) shards remaining

/-- Erasing shards leaves their places. -/
theorem Erased.length_eq {remaining : List (Option Bytes)} (h : Erased shards remaining) :
    remaining.length = shards.length := (List.Forall₂.length_eq h).symm

/-- A shard that remains is the shard that was there. -/
theorem Erased.mem {remaining : List (Option Bytes)} (h : Erased shards remaining) {shard : Bytes}
    (hshard : some shard ∈ remaining) : shard ∈ shards := by
  induction h with
  | nil => cases hshard
  | cons hhead htail ih =>
      rcases List.mem_cons.mp hshard with heq | htailMem
      · rcases hhead with hnone | hsome
        · rw [hnone] at heq
          cases heq
        · rw [hsome] at heq
          cases heq
          exact List.mem_cons_self
      · exact List.mem_cons_of_mem _ (ih htailMem)

end NilStore.Lib
