import NilStore.Gateway.Witness

/-!
# `NilStore.Proofs.WitnessCapacity`: how much of the witness stream a slab holds

The builder of MDU #0 divides the witness stream by the size of an encoded MDU, 8388608 bytes. The
writer and the reader of the witness MDUs cut it by what such an MDU carries, 8126464 bytes. Each
whole MDU that the builder counts so leaves 262144 bytes over, and the last MDU has to take them up.
`witness_capacity_iff` says when it does (`LastMduFits`): exactly then the witness MDUs hold the
stream, and exactly then an append recovers it. From 31 MDUs and a byte on, they never do.
-/

set_option autoImplicit false

namespace NilStore.Gateway

open NilStore.Lib NilStore.Core

/-- The bytes of the witness stream of `n` user MDUs with `c` commitments each. -/
def witnessStreamLength (n c : UInt64) : Nat := n.toNat * c.toNat * 48

/-- The last MDU has room for the rest of a stream and for what the MDUs before it leave over. -/
def LastMduFits (total : Nat) : Prop :=
  (total - 1) % 8388608 + 262144 * ((total - 1) / 8388608) < 8126464

/-- The product that the builder computes, which may have wrapped around. -/
theorem toNat_totalCommitmentBytes (n c : UInt64) :
    (n * c * 48).toNat = witnessStreamLength n c % 2 ^ 64 := by
  have hbytes : (48 : UInt64).toNat = 48 := rfl
  rw [UInt64.toNat_mul, UInt64.toNat_mul, witnessStreamLength, hbytes, Nat.mod_mul_mod]

/-- Below `2 ^ 53` bytes, the builder's count is the quotient rounded up. -/
theorem witnessMduCountOf_eq {n c : UInt64} (hc : c ≠ 0) (h : witnessStreamLength n c < 2 ^ 53) :
    (witnessMduCountOf n c).toNat = (witnessStreamLength n c + 8388607) / 8388608 := by
  have htotal : (n * c * 48).toNat = witnessStreamLength n c := by
    rw [toNat_totalCommitmentBytes]
    omega
  rw [witnessMduCountOf, effectiveCommitments, if_neg hc]
  simp only [htotal, toBinary64_eq_self h, ceilDivPow2, UInt64.toNat_ofNat']
  omega

/-- In any case, it is at most the quotient of a little more. -/
theorem witnessMduCountOf_le {n c : UInt64} (hc : c ≠ 0) :
    (witnessMduCountOf n c).toNat ≤ (witnessStreamLength n c + 1024 + 8388607) / 8388608 := by
  have htotal := toNat_totalCommitmentBytes n c
  have hle := toBinary64_le (n * c * 48).toNat_lt
  rw [witnessMduCountOf, effectiveCommitments, if_neg hc]
  simp only [ceilDivPow2, UInt64.toNat_ofNat']
  omega

/-- The builder counts enough MDUs exactly when the last one fits. -/
theorem witnessMduCountOf_capacity (n c : UInt64) :
    witnessStreamLength n c ≤ (witnessMduCountOf n c).toNat * rawMduCapacity ↔
      LastMduFits (witnessStreamLength n c) := by
  rw [LastMduFits, rawMduCapacity]
  by_cases hc : c = 0
  · have hzero : witnessStreamLength n c = 0 := by
      rw [witnessStreamLength, hc, UInt64.toNat_zero, Nat.mul_zero, Nat.zero_mul]
    rw [hzero]
    omega
  · by_cases hsmall : witnessStreamLength n c < 2 ^ 53
    · rw [witnessMduCountOf_eq hc hsmall]
      omega
    · have hle := witnessMduCountOf_le (n := n) hc
      omega

/-- A stream that the last MDU fits is short. -/
theorem lt_of_lastMduFits {total : Nat} (h : LastMduFits total) : total < 2 ^ 53 := by
  rw [LastMduFits] at h
  omega

/-! ### The stream of a list of user MDUs -/

/-- The commitment `k` of user MDU `j`, in a stream of `c` commitments for each user MDU. -/
def streamCommitment (c : UInt64) (stream : Bytes) (j k : Nat) : Bytes :=
  slice stream ((j * c.toNat + k) * 48) ((j * c.toNat + k) * 48 + 48)

/-- The stream holds every commitment of every user MDU. -/
def HoldsCommitments (c : UInt64) (witnessFlats : List Bytes) (stream : Bytes) : Prop :=
  ∀ (j k : Nat) (flat : Bytes), witnessFlats[j]? = some flat → k < c.toNat →
    streamCommitment c stream j k = slice flat (k * 48) (k * 48 + 48)

section Stream

variable {n c : UInt64} {witnessFlats : List Bytes}

/-- The stream has 48 bytes for each commitment. -/
theorem length_stream (hcount : witnessFlats.length = n.toNat)
    (hflats : ∀ flat ∈ witnessFlats, flat.length = c.toNat * 48) :
    witnessFlats.flatten.length = witnessStreamLength n c := by
  rw [length_flatten_words hflats, hcount, witnessStreamLength, Nat.mul_comm, Nat.mul_assoc]

/-- The whole stream holds them. -/
theorem holdsCommitments_stream (hflats : ∀ flat ∈ witnessFlats, flat.length = c.toNat * 48) :
    HoldsCommitments c witnessFlats witnessFlats.flatten := by
  intro j k flat hflat hk
  have hword : wordAt (c.toNat * 48) j witnessFlats.flatten = flat := by
    rw [wordAt_flatten hflats, List.getD_eq_getElem?_getD, hflat, Option.getD_some]
  have hoffset : (j * c.toNat + k) * 48 = c.toNat * 48 * j + k * 48 := by ring
  have hroom : min 48 (c.toNat * 48 - k * 48) = 48 := by omega
  rw [← hword, streamCommitment, slice, slice, wordAt, List.drop_take, List.drop_take,
    Nat.add_sub_cancel_left, Nat.add_sub_cancel_left, List.drop_take, List.take_take, hroom,
    List.drop_drop, hoffset]

/-- A shorter beginning of the stream lacks the last commitment. It is enough to look at that
one. -/
theorem length_le_of_holdsCommitments (hcount : witnessFlats.length = n.toNat)
    (hflats : ∀ flat ∈ witnessFlats, flat.length = c.toNat * 48) {stream : Bytes}
    (h : HoldsCommitments c witnessFlats stream) : witnessStreamLength n c ≤ stream.length := by
  -- without MDUs or commitments there is nothing to hold
  by_cases hzero : n.toNat = 0 ∨ c.toNat = 0
  · have hnone : witnessStreamLength n c = 0 := by
      rw [witnessStreamLength]
      rcases hzero with h0 | h0
      · rw [h0, Nat.zero_mul, Nat.zero_mul]
      · rw [h0, Nat.mul_zero, Nat.zero_mul]
    omega
  · have hj : n.toNat - 1 < witnessFlats.length := by omega
    have hflat := List.getElem?_eq_getElem hj
    have hlast := congrArg List.length (h _ (c.toNat - 1) _ hflat (by omega))
    have hlength := hflats _ (List.getElem_mem hj)
    have hoffset : ((n.toNat - 1) * c.toNat + (c.toNat - 1)) * 48 + 48 =
        witnessStreamLength n c := by
      obtain ⟨m, hm⟩ : ∃ m, n.toNat = m + 1 := ⟨n.toNat - 1, by omega⟩
      obtain ⟨d, hd⟩ : ∃ d, c.toNat = d + 1 := ⟨c.toNat - 1, by omega⟩
      rw [witnessStreamLength, hm, hd, Nat.add_sub_cancel, Nat.add_sub_cancel]
      ring
    rw [streamCommitment, slice, slice, List.length_drop, List.length_take, List.length_drop,
      List.length_take, hlength] at hlast
    omega

/-- The bytes that an append expects, which may have wrapped around. -/
theorem toNat_oldWitnessBytesTotal (n c : UInt64) :
    (n * (c * 48)).toNat = witnessStreamLength n c % 2 ^ 64 := by
  have hbytes : (48 : UInt64).toNat = 48 := rfl
  rw [UInt64.toNat_mul, UInt64.toNat_mul, witnessStreamLength, hbytes, Nat.mul_mod_mod,
    Nat.mul_assoc]

/-- An append recovers the stream of the written MDUs exactly when they are enough for it. The code
multiplies in `uint64`, and what it expects may wrap around. -/
theorem recoverWitnessBytes_iff (hcount : witnessFlats.length = n.toNat)
    (hflats : ∀ flat ∈ witnessFlats, flat.length = c.toNat * 48) :
    recoverWitnessBytes (witnessDir (witnessMdus
      (Mdu0Builder.newWithCommitments n c).witnessMduCount witnessFlats.flatten)) n c =
        .ok witnessFlats.flatten ↔ LastMduFits (witnessStreamLength n c) := by
  have hlength := length_stream hcount hflats
  have htotal := toNat_oldWitnessBytesTotal n c
  rw [← witnessMduCountOf_capacity]
  constructor
  · intro h
    -- What is recovered is as long as what was expected, so the product has not wrapped around.
    have hwhole : (n * (c * 48)).toNat = witnessFlats.flatten.length :=
      (recoverWitnessBytes_length h).symm
    simp only [recoverWitnessBytes, except_bind_ok, rejectIf_eq_ok, not_not, hwhole,
      decodeWitnessMdus_ok, Except.ok.injEq, exists_eq_left', List.length_take] at h
    obtain ⟨_, hmin, -⟩ := h
    show _ ≤ (Mdu0Builder.newWithCommitments n c).witnessMduCount.toNat * _
    omega
  · intro hle
    have hfits := (witnessMduCountOf_capacity n c).mp hle
    -- a stream that fits is far below 2^64
    have hwhole : (n * (c * 48)).toNat = witnessFlats.flatten.length := by
      have hlt := lt_of_lastMduFits hfits
      omega
    have htake : witnessFlats.flatten.take
        ((Mdu0Builder.newWithCommitments n c).witnessMduCount.toNat * rawMduCapacity) =
          witnessFlats.flatten := List.take_of_length_le (by rw [hlength]; exact hle)
    simp only [recoverWitnessBytes, except_bind_ok, rejectIf_eq_ok, not_not, hwhole,
      decodeWitnessMdus_ok, Except.ok.injEq, exists_eq_left', htake, List.take_length]
    exact ⟨(), trivial, rfl⟩

end Stream

/-- The witness MDUs of a slab with `n` user MDUs of `c` commitments each. The builder counts enough
of them for the stream exactly when the last one fits; exactly then the MDUs that are written hold
every commitment of every user MDU; and exactly then an append recovers the stream. -/
theorem witness_capacity_iff (n c : UInt64) (witnessFlats : List Bytes)
    (hcount : witnessFlats.length = n.toNat)
    (hflats : ∀ flat ∈ witnessFlats, flat.length = c.toNat * 48) :
    (witnessStreamLength n c ≤
        (Mdu0Builder.newWithCommitments n c).witnessMduCount.toNat * rawMduCapacity ↔
      LastMduFits (witnessStreamLength n c)) ∧
    ∃ mdus stream,
      buildWitnessMdus (Mdu0Builder.newWithCommitments n c).witnessMduCount witnessFlats.flatten =
        .ok mdus ∧
      decodeWitnessMdus (witnessDir mdus) (Mdu0Builder.newWithCommitments n c).witnessMduCount
        witnessFlats.flatten.length = .ok stream ∧
      (HoldsCommitments c witnessFlats stream ↔ LastMduFits (witnessStreamLength n c)) ∧
      (recoverWitnessBytes (witnessDir mdus) n c = .ok witnessFlats.flatten ↔
        LastMduFits (witnessStreamLength n c)) := by
  have hcapacity := witnessMduCountOf_capacity n c
  have hlength := length_stream hcount hflats
  refine ⟨hcapacity, _, _, buildWitnessMdus_ok _ _, decodeWitnessMdus_ok _ _, ?_,
    recoverWitnessBytes_iff hcount hflats⟩
  -- the last commitment needs the whole stream
  constructor
  · intro hholds
    have hle := length_le_of_holdsCommitments hcount hflats hholds
    rw [List.length_take] at hle
    refine hcapacity.mp ?_
    show _ ≤ (Mdu0Builder.newWithCommitments n c).witnessMduCount.toNat * _
    omega
  · intro hfits
    have hle := hcapacity.mpr hfits
    rw [List.take_of_length_le (by rw [hlength]; exact hle)]
    exact holdsCommitments_stream hflats

/-! ### Two slabs -/

/-- One user MDU of 64 commitments: the slab holds them, and an append recovers them. -/
theorem witness_capacity_iff_one :
    ∃ mdus, buildWitnessMdus (Mdu0Builder.newWithCommitments 1 64).witnessMduCount
        [List.replicate 3072 0].flatten = .ok mdus ∧
      recoverWitnessBytes (witnessDir mdus) 1 64 = .ok [List.replicate 3072 0].flatten := by
  have hflats : ∀ flat ∈ [List.replicate 3072 (0 : UInt8)], flat.length =
      (64 : UInt64).toNat * 48 := by
    intro flat hflat
    rw [List.mem_singleton.mp hflat, List.length_replicate]
    rfl
  obtain ⟨-, mdus, stream, hbuild, -, -, hrecover⟩ :=
    witness_capacity_iff 1 64 [List.replicate 3072 0] rfl hflats
  exact ⟨mdus, hbuild, hrecover.mpr (by rw [LastMduFits]; decide)⟩

/-- For 2700 user MDUs of 64 commitments, one witness MDU is counted, and two are needed. -/
theorem witnessMduCountOf_2700 :
    (Mdu0Builder.newWithCommitments 2700 64).witnessMduCount = 1 ∧
    ¬witnessStreamLength 2700 64 ≤
      (Mdu0Builder.newWithCommitments 2700 64).witnessMduCount.toNat * rawMduCapacity := by
  decide +kernel

end NilStore.Gateway
