import NilStore.Core.FileTable
import NilStore.Gateway.Reconstruct
import NilStore.Proofs.ErasureRoundTrip

/-!
# `NilStore.Proofs.Reconstructed`: when a reconstructed MDU is the committed one

`ensureMode2MduOnDisk` takes a shard from a provider for its length alone. So one provider that
sends other bytes of that length, and is among the first `K` that are taken, makes the MDU another
one, and its bytes are stored as the shard of its slot (`lyingSlot_reconstructs`). `usableShards`
lists what is taken, in its order, and `reconstructs_iff` says that this is the only way to fail:
the reconstruction is right exactly when the first `K` of that list are committed shards, or the
list is too short.
-/

set_option autoImplicit false

namespace NilStore.Gateway

open NilStore.Lib NilStore.Core NilStore.Chain

/-! ### What is taken -/

/-- The stripe of a Mode 2 deal. -/
def mode2Stripe (k m : UInt64) : StripeParams := ⟨2, k, m, 64 / k, (k + m) * (64 / k), k + m⟩

/-- The bytes of a shard. -/
def shardSize (k : Nat) : Nat := Core.blobsPerMdu / k * blobSize

/-- What a slot gives: its file, or the answer of its provider, if it has the right size. -/
def offered (expectedShardSize : Nat) (answer : Nat → Option ShardResponse)
    (slotFiles : Nat → Option Bytes) (slot : Nat) : Option Bytes :=
  ((slotFiles slot).filter fun shard => shard.length = expectedShardSize).or
    ((fetchShardFromProvider (answer slot)).toOption.filter fun shard =>
      shard.length = expectedShardSize)

/-- What the slots give: each slot in the first pass, and then each slot that gave nothing there. -/
def usableShards (k m : Nat) (answer : Nat → Nat → Option ShardResponse)
    (slotFiles : Nat → Option Bytes) :
    List (Nat × Bytes) :=
  accepted (offered (shardSize k) (answer 0) slotFiles) (List.range (k + m)) ++
    accepted (fun slot => if (offered (shardSize k) (answer 0) slotFiles slot).isSome then none
      else offered (shardSize k) (answer 1) slotFiles slot) (List.range (k + m))

/-- A shard is taken for a slot that had none. -/
def ShardLoad.take (load : ShardLoad) (slot : Nat) (shard : Bytes) : ShardLoad where
  shards := Function.update load.shards slot (some shard)
  presentCount := load.presentCount + 1
  slotFiles := Function.update load.slotFiles slot (some shard)

/-- The shards of some slots are taken. -/
def ShardLoad.takeAll (load : ShardLoad) (pairs : List (Nat × Bytes)) : ShardLoad :=
  pairs.foldl (fun load e => load.take e.1 e.2) load

/-- Nothing is loaded. -/
def ShardLoad.start (slotFiles : Nat → Option Bytes) : ShardLoad := ⟨fun _ => none, 0, slotFiles⟩

section Load

variable {size : Nat} {answer : Nat → Option ShardResponse} {slotFiles : Nat → Option Bytes}

/-- A shard of the right length stays. -/
theorem filter_length_of_eq {shard : Bytes} (h : shard.length = size) :
    (some shard).filter (fun shard => shard.length = size) = some shard := by
  rw [Option.filter_some, if_pos (decide_eq_true h)]

/-- A shard of another length is dropped. -/
theorem filter_length_of_ne {shard : Bytes} (h : shard.length ≠ size) :
    (some shard).filter (fun shard => shard.length = size) = none := by
  rw [Option.filter_some, decide_eq_false h]
  rfl

/-- A provider's answer is taken if it has the right size. -/
theorem fetchSlot_eq {load : ShardLoad} {slot : Nat} (hshard : load.shards slot = none) :
    load.fetchSlot size answer slot =
      ((fetchShardFromProvider (answer slot)).toOption.filter fun shard =>
        shard.length = size).elim load
        (load.take slot) := by
  rw [ShardLoad.fetchSlot]
  cases fetchShardFromProvider (answer slot) with
  | error e => rfl
  | ok shard =>
      show (if shard.length ≠ size then load else _) =
        ((some shard).filter fun shard => shard.length = size).elim load (load.take slot)
      by_cases hlength : shard.length = size
      · rw [if_neg (not_not.mpr hlength), filter_length_of_eq hlength]
        show ({ load.setPresent slot shard with
          slotFiles := Function.update load.slotFiles slot (some shard) } : ShardLoad) =
            load.take slot shard
        rw [ShardLoad.setPresent, hshard]
        rfl
      · rw [if_pos hlength, filter_length_of_ne hlength]
        rfl

/-- `tryLoadSlot` takes what the slot gives. -/
theorem tryLoadSlot_eq {load : ShardLoad} {slot : Nat} (hshard : load.shards slot = none)
    (hfile : load.slotFiles slot = slotFiles slot) :
    load.tryLoadSlot size answer slot =
      (offered size answer slotFiles slot).elim load (load.take slot) := by
  rw [ShardLoad.tryLoadSlot, offered, hfile]
  cases hlocal : slotFiles slot with
  | none => exact fetchSlot_eq hshard
  | some shard =>
      by_cases hlength : shard.length = size
      · -- the file is there already
        have hsame : Function.update load.slotFiles slot (some shard) = load.slotFiles := by
          rw [← hlocal, ← hfile]
          exact Function.update_eq_self slot load.slotFiles
        rw [filter_length_of_eq hlength, Option.some_or]
        show (if shard.length = size then load.setPresent slot shard else _) = load.take slot shard
        rw [if_pos hlength, ShardLoad.take, hsame, ShardLoad.setPresent, hshard]
        rfl
      · rw [filter_length_of_ne hlength, Option.none_or]
        simp only [if_neg hlength]
        exact fetchSlot_eq hshard

/-- Taking shards counts every one of them. -/
theorem presentCount_takeAll (pairs : List (Nat × Bytes)) (load : ShardLoad) :
    (load.takeAll pairs).presentCount = load.presentCount + pairs.length := by
  induction pairs generalizing load with
  | nil => rfl
  | cons e pairs ih =>
      rw [ShardLoad.takeAll, List.foldl_cons]
      show ((load.take e.1 e.2).takeAll pairs).presentCount = _
      rw [ih, List.length_cons]
      show load.presentCount + 1 + pairs.length = _
      omega

/-- Slots that are not taken stay as they are. -/
theorem takeAll_of_notMem {pairs : List (Nat × Bytes)} {slot : Nat} (load : ShardLoad)
    (h : slot ∉ pairs.map (·.1)) :
    (load.takeAll pairs).shards slot = load.shards slot ∧
      (load.takeAll pairs).slotFiles slot = load.slotFiles slot := by
  induction pairs generalizing load with
  | nil => exact ⟨rfl, rfl⟩
  | cons e pairs ih =>
      rw [List.map_cons, List.mem_cons, not_or] at h
      obtain ⟨hshard, hfile⟩ := ih (load.take e.1 e.2) h.2
      rw [ShardLoad.takeAll, List.foldl_cons]
      exact ⟨hshard.trans (Function.update_of_ne h.1 _ _),
        hfile.trans (Function.update_of_ne h.1 _ _)⟩

/-- Slots that are taken have their shard, and the file of it. -/
theorem takeAll_of_mem {pairs : List (Nat × Bytes)} {e : Nat × Bytes} (load : ShardLoad)
    (hnodup : (pairs.map (·.1)).Nodup) (h : e ∈ pairs) :
    (load.takeAll pairs).shards e.1 = some e.2 ∧
      (load.takeAll pairs).slotFiles e.1 = some e.2 := by
  induction pairs generalizing load with
  | nil => cases h
  | cons e' pairs ih =>
      rw [List.map_cons, List.nodup_cons] at hnodup
      rw [ShardLoad.takeAll, List.foldl_cons]
      rcases List.mem_cons.mp h with rfl | h
      · obtain ⟨hshard, hfile⟩ := takeAll_of_notMem (load.take e.1 e.2) hnodup.1
        exact ⟨hshard.trans (Function.update_self _ _ _), hfile.trans (Function.update_self _ _ _)⟩
      · exact ih _ hnodup.2 h

/-- Shards may be taken in two parts. -/
theorem takeAll_append (load : ShardLoad) (pairs pairs' : List (Nat × Bytes)) :
    load.takeAll (pairs ++ pairs') = (load.takeAll pairs).takeAll pairs' := List.foldl_append

end Load

/-! ### The two passes -/

section Passes

variable {k m : UInt64} {answer : Nat → Nat → Option ShardResponse} {slotFiles : Nat → Option Bytes}

/-- A stripe has as many slots as shards. -/
theorem slotCount_mode2Stripe (hsum : k.toNat + m.toNat < 2 ^ 64) :
    (mode2Stripe k m).slotCount.toNat = k.toNat + m.toNat := by
  show (k + m).toNat = _
  rw [UInt64.toNat_add, Nat.mod_eq_of_lt hsum]

/-- A stripe has at most 64 rows. -/
theorem rows_le (k : Nat) : Core.blobsPerMdu / k ≤ 64 := Nat.div_le_self _ _

/-- A shard holds one blob for each row. -/
theorem shardSize_mode2Stripe :
    ((mode2Stripe k m).rows * UInt64.ofNat blobSize).toNat = shardSize k.toNat := by
  have hrows : (mode2Stripe k m).rows.toNat = Core.blobsPerMdu / k.toNat := UInt64.toNat_div 64 k
  have hblob : (UInt64.ofNat blobSize).toNat = blobSize := rfl
  have hle := rows_le k.toNat
  rw [UInt64.toNat_mul, hrows, hblob, shardSize]
  refine Nat.mod_eq_of_lt ?_
  rw [blobSize]
  omega

/-- A pass over slots that are as they were takes the first of those that give something. -/
theorem pass_eq {before : ShardLoad}
    {body : ShardLoad → Nat → ShardLoad} {accept : Nat → Option Bytes}
    (hbody : ∀ load slot, load.shards slot = before.shards slot ∧
      load.slotFiles slot = before.slotFiles slot →
        body load slot = (accept slot).elim load (load.take slot)) (n : Nat) :
    fillTo (ShardLoad.isFull k) body before (List.range n) =
      before.takeAll ((accepted accept (List.range n)).take (k.toNat - before.presentCount)) := by
  refine @fillTo_eq _ _ _ _ ShardLoad.presentCount ShardLoad.take _ (fun load slot =>
    load.shards slot = before.shards slot ∧ load.slotFiles slot = before.slotFiles slot) _ _
    ?_ ?_ hbody ?_ _ List.nodup_range before fun _ _ => ⟨rfl, rfl⟩
  · intro load
    rw [ShardLoad.isFull, decide_eq_true_iff, not_lt]
  · exact fun _ _ _ _ => rfl
  · intro load slot shard other hne h
    exact ⟨(Function.update_of_ne hne _ _).trans h.1, (Function.update_of_ne hne _ _).trans h.2⟩

/-- What the first pass has taken is present, and the other slots are as they were. -/
theorem first_pass_slot {accept : Nat → Option Bytes} {n slot : Nat} (hslot : slot < n) :
    ((ShardLoad.start slotFiles).takeAll (accepted accept (List.range n))).shards slot =
      accept slot ∧
      (accept slot = none →
        ((ShardLoad.start slotFiles).takeAll (accepted accept (List.range n))).slotFiles slot =
          slotFiles slot) := by
  cases haccept : accept slot with
  | some shard =>
      have hmem : (slot, shard) ∈ accepted accept (List.range n) :=
        mem_accepted.mpr ⟨List.mem_range.mpr hslot, haccept⟩
      exact ⟨(takeAll_of_mem _ (nodup_accepted _ List.nodup_range) hmem).1, nofun⟩
  | none =>
      have hnotMem : slot ∉ (accepted accept (List.range n)).map (·.1) := by
        intro hmem
        have hsome := (mem_map_accepted.mp hmem).2
        rw [haccept] at hsome
        cases hsome
      obtain ⟨hshard, hfile⟩ := takeAll_of_notMem (.start slotFiles) hnotMem
      exact ⟨hshard, fun _ => hfile⟩

/-- The second pass, where it is needed. -/
def secondPass (k : UInt64) (size n : Nat) (answer : Nat → Option ShardResponse)
    (load : ShardLoad) :
    ShardLoad :=
  if load.presentCount < k.toNat then
    fillTo (ShardLoad.isFull k) (fun load slot =>
      if (load.shards slot).isSome then load else load.tryLoadSlot size answer slot) load
        (List.range n)
  else load

/-- The two passes take the first `K` of what the slots give. The second pass asks only the slots
that gave nothing in the first. -/
theorem loadShards_eq (hsum : k.toNat + m.toNat < 2 ^ 64) :
    loadShards (mode2Stripe k m) answer slotFiles =
      (ShardLoad.start slotFiles).takeAll
        ((usableShards k.toNat m.toNat answer slotFiles).take k.toNat) := by
  have hfirst := @pass_eq k (.start slotFiles)
    (ShardLoad.tryLoadSlot (shardSize k.toNat) (answer 0))
      (offered (shardSize k.toNat) (answer 0) slotFiles)
    (fun load slot h => tryLoadSlot_eq h.1 h.2) (k.toNat + m.toNat)
  have hload : loadShards (mode2Stripe k m) answer slotFiles =
      secondPass k (shardSize k.toNat) (k.toNat + m.toNat) (answer 1) (fillTo (ShardLoad.isFull k)
        (ShardLoad.tryLoadSlot (shardSize k.toNat) (answer 0)) (.start slotFiles)
        (List.range (k.toNat + m.toNat))) := by
    simp only [loadShards, shardSize_mode2Stripe, slotCount_mode2Stripe hsum]
    rfl
  rw [hload, hfirst, usableShards]
  set first := accepted (offered (shardSize k.toNat) (answer 0) slotFiles)
    (List.range (k.toNat + m.toNat)) with hfirst_def
  have hcount := presentCount_takeAll (first.take k.toNat) (.start slotFiles)
  rw [List.length_take] at hcount
  have hstart : (ShardLoad.start slotFiles).presentCount = 0 := rfl
  rw [hstart, Nat.zero_add] at hcount
  rw [hstart, Nat.sub_zero, secondPass, hcount, List.take_append, takeAll_append]
  -- a second pass is made when the first has too few
  by_cases hshort : first.length < k.toNat
  · rw [if_pos (by omega), List.take_of_length_le (by omega)]
    -- the second pass skips what the first has taken
    have hslots : ∀ slot ∈ List.range (k.toNat + m.toNat),
        (((ShardLoad.start slotFiles).takeAll first).shards slot =
          offered (shardSize k.toNat) (answer 0) slotFiles slot) ∧
        (offered (shardSize k.toNat) (answer 0) slotFiles slot = none →
          ((ShardLoad.start slotFiles).takeAll first).slotFiles slot =
            slotFiles slot) :=
      fun slot hslot => first_pass_slot (List.mem_range.mp hslot)
    have hcount' : ((ShardLoad.start slotFiles).takeAll first).presentCount = first.length := by
      rw [presentCount_takeAll, hstart, Nat.zero_add]
    generalize (ShardLoad.start slotFiles).takeAll first = load at *
    have hsecond := @pass_eq k load (fun load slot =>
        if (load.shards slot).isSome then load
        else load.tryLoadSlot (shardSize k.toNat) (answer 1) slot)
      (fun slot => if (load.shards slot).isSome then none
        else offered (shardSize k.toNat) (answer 1) load.slotFiles slot)
      (fun load' slot h => by
        rw [h.1]
        cases hshard : load.shards slot with
        | some shard => rfl
        | none => exact tryLoadSlot_eq (h.1.trans hshard) h.2) (k.toNat + m.toNat)
    rw [hsecond, hcount']
    -- the second pass is offered what the slots give then
    congr 2
    refine List.filterMap_congr fun slot hslot => ?_
    obtain ⟨hshard, hfile⟩ := hslots slot hslot
    congr 1
    show (if (load.shards slot).isSome then none else _) =
      if (offered (shardSize k.toNat) (answer 0) slotFiles slot).isSome then none else _
    rw [hshard]
    cases hoffered : offered (shardSize k.toNat) (answer 0) slotFiles slot with
    | some shard => rfl
    | none =>
        rw [offered, hfile hoffered]
        rfl
  · rw [if_neg (by omega), Nat.sub_eq_zero_of_le (by omega), List.take_zero]
    rfl

/-- No slot gives two shards. -/
theorem nodup_usableShards (k m : Nat) (answer : Nat → Nat → Option ShardResponse)
    (slotFiles : Nat → Option Bytes) : ((usableShards k m answer slotFiles).map (·.1)).Nodup := by
  rw [usableShards, List.map_append, List.nodup_append]
  refine ⟨nodup_accepted _ List.nodup_range, nodup_accepted _ List.nodup_range, ?_⟩
  intro slot hslot slot' hslot' heq
  obtain ⟨e, he, rfl⟩ := List.mem_map.mp hslot
  obtain ⟨e', he', rfl⟩ := List.mem_map.mp hslot'
  -- a slot of the second pass gave nothing in the first
  have hfirst := (mem_accepted.mp he).2
  have hsecond := (mem_accepted.mp he').2
  rw [← heq, hfirst] at hsecond
  cases hsecond

/-- What a slot gives has the right size, and is for a slot of the stripe. -/
theorem mem_usableShards {k m : Nat} {e : Nat × Bytes} (h : e ∈ usableShards k m answer slotFiles) :
    e.1 < k + m ∧ e.2.length = shardSize k := by
  have hoffered : ∀ answer : Nat → Option ShardResponse,
      offered (shardSize k) answer slotFiles e.1 = some e.2 → e.2.length = shardSize k := by
    intro answer h
    rw [offered, Option.or_eq_some_iff] at h
    rcases h with h | ⟨-, h⟩
    · exact of_decide_eq_true (Option.filter_eq_some_iff.mp h).2
    · exact of_decide_eq_true (Option.filter_eq_some_iff.mp h).2
  rcases List.mem_append.mp h with h | h
  · obtain ⟨hslot, haccept⟩ := mem_accepted.mp h
    exact ⟨List.mem_range.mp hslot, hoffered _ haccept⟩
  · obtain ⟨hslot, haccept⟩ := mem_accepted.mp h
    refine ⟨List.mem_range.mp hslot, ?_⟩
    split at haccept
    · cases haccept
    · exact hoffered _ haccept

end Passes

/-! ### The shards that are handed over -/

/-- The shards after these are taken, slot by slot. -/
def takenShards (n : Nat) (pairs : List (Nat × Bytes)) (slotFiles : Nat → Option Bytes) :
    List (Option Bytes) :=
  (List.range n).map ((ShardLoad.start slotFiles).takeAll pairs).shards

section Taken

variable {n : Nat} {pairs : List (Nat × Bytes)} {slotFiles : Nat → Option Bytes}

/-- A slot has the shard that was taken for it, and no other. -/
theorem taken_shards_eq_some (hnodup : (pairs.map (·.1)).Nodup) {slot : Nat} {shard : Bytes} :
    ((ShardLoad.start slotFiles).takeAll pairs).shards slot = some shard ↔
      (slot, shard) ∈ pairs := by
  constructor
  · intro h
    by_cases hmem : slot ∈ pairs.map (·.1)
    · obtain ⟨e, he, rfl⟩ := List.mem_map.mp hmem
      rw [(takeAll_of_mem _ hnodup he).1, Option.some.injEq] at h
      rw [← h]
      exact he
    · rw [(takeAll_of_notMem _ hmem).1] at h
      cases h
  · intro h
    exact (takeAll_of_mem _ hnodup h).1

/-- Every slot has a place among the taken shards. -/
theorem length_takenShards : (takenShards n pairs slotFiles).length = n := by
  rw [takenShards, List.length_map, List.length_range]

/-- A taken shard was taken for its slot. -/
theorem mem_takenShards (hnodup : (pairs.map (·.1)).Nodup) {shard : Bytes}
    (h : some shard ∈ takenShards n pairs slotFiles) : ∃ slot, (slot, shard) ∈ pairs := by
  obtain ⟨slot, -, hslot⟩ := List.mem_map.mp h
  exact ⟨slot, (taken_shards_eq_some hnodup).mp hslot⟩

/-- As many shards are present as were taken. -/
theorem countP_takenShards (hnodup : (pairs.map (·.1)).Nodup) (hslots : ∀ e ∈ pairs, e.1 < n) :
    (takenShards n pairs slotFiles).countP (·.isSome) = pairs.length := by
  rw [takenShards, List.countP_map, List.countP_eq_length_filter,
    ← @List.length_map _ _ pairs (·.1)]
  refine List.Perm.length_eq
    ((List.perm_ext_iff_of_nodup (List.nodup_range.filter _) hnodup).mpr ?_)
  intro slot
  rw [List.mem_filter, List.mem_range, List.mem_map]
  constructor
  · rintro ⟨-, hsome⟩
    obtain ⟨shard, hshard⟩ := Option.isSome_iff_exists.mp hsome
    exact ⟨(slot, shard), (taken_shards_eq_some hnodup).mp hshard, rfl⟩
  · rintro ⟨e, he, rfl⟩
    refine ⟨hslots e he, ?_⟩
    show Option.isSome _ = true
    rw [(taken_shards_eq_some hnodup).mpr he]
    rfl

end Taken

/-! ### Decoding -/

/-- A code of the crate with the property of such codes: what `k` slots hold is always a part of a
codeword. The crate has codes for up to 256 shards. -/
structure MdsCode (rs : ReedSolomon) (k m : Nat) (coeff : Nat → Nat → UInt8) : Prop
    extends ErasureCode rs k m coeff where
  total : ∀ (n : Nat) (remaining : List (Option Bytes)), 0 < n → remaining.length = k + m →
    (∀ shard, some shard ∈ remaining → shard.length = n) → remaining.countP (·.isSome) = k →
    ∃ shards, Codeword coeff k m n shards ∧ Lib.Erased shards remaining
  shards_le : k + m ≤ 256

section Decoding

variable {rs : ReedSolomon} {k m : Nat} {coeff : Nat → Nat → UInt8} {shards : List Bytes}
  {remaining : List (Option Bytes)}

/-- Any full set of shards is put together to an MDU: every blob that is read is there. -/
theorem restore_isOk (hk : 64 % k = 0) (hlength : shards.length = k + m) :
    ∃ mdu, (List.range (Core.blobsPerMdu / k)).foldlM (fun mdu rowIdx => (List.range k).foldlM
      (restoreBlob (shards.map some) k rowIdx) mdu) (List.replicate mduSize 0) = .ok mdu ∧
        mdu.length = mduSize := by
  -- a blob that goes to its place leaves the length as it is
  have hblob : ∀ row ∈ List.range (Core.blobsPerMdu / k), ∀ mdu : Bytes, mdu.length = mduSize →
      ∀ slot ∈ List.range k, restoreBlob (shards.map some) k row mdu slot =
        .ok (overwrite mdu ((row * k + slot) * blobSize)
          (((shards.getD slot []).drop (row * blobSize)).take blobSize)) ∧
        (overwrite mdu ((row * k + slot) * blobSize)
          (((shards.getD slot []).drop (row * blobSize)).take blobSize)).length = mduSize := by
    intro row hrow mdu hmdu slot hslot
    have hslot := List.mem_range.mp hslot
    have hidx := blobIdx_lt hk (List.mem_range.mp hrow) hslot
    have hlt : slot < shards.length := by omega
    have hshard : (shards.map some).getD slot none = some (shards.getD slot []) := by
      rw [List.getD_eq_getElem?_getD, List.getElem?_map, List.getElem?_eq_getElem hlt,
        getD_eq_getElem hlt]
      rfl
    constructor
    · rw [restoreBlob, hshard]
      rfl
    -- the blob goes to a place inside the MDU
    · have hpiece := List.length_take_le blobSize ((shards.getD slot []).drop (row * blobSize))
      refine (length_overwrite ?_).trans hmdu
      have hend := Nat.mul_le_mul_right blobSize (Nat.succ_le_of_lt hidx)
      rw [Nat.succ_mul] at hend
      have hsize : 64 * blobSize = mduSize := by decide
      omega
  have hrow := fun row hrow mdu hmdu =>
    foldlM_eq_ok (fun mdu : Bytes => mdu.length = mduSize) (List.range k) (hblob row hrow) mdu hmdu
  have hrows :=
    foldlM_eq_ok (fun mdu : Bytes => mdu.length = mduSize) (List.range (Core.blobsPerMdu / k))
    (fun mdu hmdu row hmem => hrow row hmem mdu hmdu)
      (List.replicate mduSize 0) List.length_replicate
  exact ⟨_, hrows⟩

/-- What is not present of `k + m` shards. -/
theorem countP_isNone (hlength : remaining.length = k + m)
    (hcount : remaining.countP (·.isSome) = k) :
    remaining.countP (·.isNone) = m := by
  have hsplit :=
    List.length_eq_countP_add_countP (l := remaining) (fun o : Option Bytes => o.isSome)
  have hnone : remaining.countP (fun o => decide ¬(o.isSome = true)) =
      remaining.countP (·.isNone) :=
    List.countP_congr fun o _ => by cases o <;> simp
  rw [hnone] at hsplit
  omega

/-- A shard is not empty. -/
theorem shardSize_pos (hk : 64 % k = 0) : 0 < shardSize k := by
  have hmul := rows_mul hk
  refine Nat.mul_pos ?_ (by decide)
  rcases Nat.eq_zero_or_pos (Core.blobsPerMdu / k) with h0 | hpos
  · rw [h0] at hmul
    omega
  · exact hpos

/-- `K` shards of the right size always give an MDU. With only `K` of them, any shards are those of
some codeword. -/
theorem reconstructMduFromShards_isOk (hcode : MdsCode rs k m coeff) (hk : 64 % k = 0) (hm : 0 < m)
    (hlength : remaining.length = k + m)
    (hsizes : ∀ shard, some shard ∈ remaining → shard.length = shardSize k)
    (hcount : remaining.countP (·.isSome) = k) :
    ∃ mdu, reconstructMduFromShards rs remaining k m = .ok mdu ∧ mdu.length = mduSize := by
  -- the codeword that the shards belong to
  obtain ⟨shards, hcodeword, herased⟩ :=
    hcode.total (shardSize k) remaining (shardSize_pos hk) hlength hsizes hcount
  obtain ⟨mdu, hrestore, hmdu⟩ := restore_isOk hk hcodeword.length
  -- the checks of the function pass
  have hslots : rejectIf (remaining.length ≠ k + m) CodingError.invalidRsParams = .ok () :=
    if_neg (not_not.mpr hlength)
  have hsize : rejectIf (∃ bytes ∈ remaining.filterMap id, bytes.length ≠
      Core.blobsPerMdu / k * blobSize)
      CodingError.invalidSize = .ok () := by
    refine if_neg ?_
    rintro ⟨shard, hmem, hne⟩
    have hmem : some shard ∈ remaining := by simpa using hmem
    exact hne (hsizes shard hmem)
  have hpresent : rejectIf (remaining.countP (·.isSome) < k)
      (CodingError.rs "not enough shards to reconstruct") = .ok () :=
    if_neg (by omega)
  have hnew : (rs.new k m).mapError CodingError.rs = .ok () := by
    rw [hcode.new_ok]
    rfl
  have hreconstruct : (rs.reconstruct k m remaining).mapError CodingError.rs =
      .ok (shards.map some) := by
    rw [hcode.reconstruct_ok _ shards remaining (shardSize_pos hk) hcodeword herased
      (countP_isNone hlength hcount).le]
    rfl
  refine ⟨mdu, ?_, hmdu⟩
  exact except_bind_ok.mpr ⟨(), checkRsParams_ok hk hm, except_bind_ok.mpr ⟨(), hslots,
    except_bind_ok.mpr ⟨(), hsize, except_bind_ok.mpr ⟨(), hpresent, except_bind_ok.mpr ⟨(), hnew,
      except_bind_ok.mpr ⟨_, hreconstruct, hrestore⟩⟩⟩⟩⟩⟩

end Decoding

section Mdu

variable {ctx : KzgContext} {rs : ReedSolomon} {k m : UInt64} {coeff : Nat → Nat → UInt8}
  {remaining : List (Option Bytes)} {mdu : Bytes}

/-- The data slots divide the 64 blobs. -/
theorem mod_eq_zero (hk : k.toNat ∣ 64) : 64 % k = 0 := by
  refine UInt64.toNat_inj.mp ?_
  rw [UInt64.toNat_mod]
  exact Nat.mod_eq_zero_of_dvd hk

/-- The gateway gets the MDU that `nil_core` reconstructs. The binding checks the parameters in 64
bits and the lengths once more. -/
theorem cryptoFfiReconstructMduRs_ok (hk : k.toNat ∣ 64) (hm : 0 < m.toNat)
    (hsum : k.toNat + m.toNat < 2 ^ 64) (hlength : remaining.length = k.toNat + m.toNat)
    (hsizes : ∀ shard, some shard ∈ remaining → shard.length = shardSize k.toNat)
    (hmdu : mdu.length = mduSize)
    (h : reconstructMduFromShards rs remaining k.toNat m.toNat = .ok mdu) :
    cryptoFfiReconstructMduRs rs remaining k m = .ok mdu := by
  have hrem := mod_eq_zero hk
  -- the checks of the binding, in their order
  have hparams : rejectIf (k = 0 ∨ m = 0) "invalid RS params" = .ok () := by
    refine if_neg ?_
    rintro (rfl | rfl)
    · cases hrem
    · exact absurd hm (by decide)
  have hdvd : rejectIf (64 % k ≠ 0) "invalid RS params: k must divide 64" = .ok () :=
    if_neg (not_not.mpr hrem)
  have hslots : rejectIf (remaining.length ≠ (k + m).toNat) "invalid shard arrays" = .ok () := by
    refine if_neg (not_not.mpr ?_)
    rw [hlength, UInt64.toNat_add, Nat.mod_eq_of_lt hsum]
  have hsize : rejectIf (∃ shard ∈ remaining.filterMap id, shard.length ≠ (64 / k).toNat * blobSize)
      "invalid shard length" = .ok () := by
    refine if_neg ?_
    rintro ⟨shard, hmem, hne⟩
    have hmem : some shard ∈ remaining := by simpa using hmem
    rw [UInt64.toNat_div] at hne
    exact hne (hsizes shard hmem)
  -- and the result of the library
  have hcore : (reconstructMduFromShards rs remaining k.toNat m.toNat).mapError
      (fun _ => "nil_reconstruct_mdu_rs failed with code: -3") = .ok mdu := by
    rw [h]
    rfl
  have hfull : rejectIf (mdu.length ≠ mduSize) "nil_reconstruct_mdu_rs failed with code: -3" =
      .ok () :=
    if_neg (not_not.mpr hmdu)
  exact except_bind_ok.mpr ⟨(), hparams,
    except_bind_ok.mpr ⟨(), hdvd, except_bind_ok.mpr ⟨(), hslots,
    except_bind_ok.mpr ⟨(), hsize,
      except_bind_ok.mpr ⟨mdu, hcore, except_bind_ok.mpr ⟨(), hfull, rfl⟩⟩⟩⟩⟩⟩

/-- The files after some shards are taken. -/
def MduFiles.takeAll (files : MduFiles) (pairs : List (Nat × Bytes)) : MduFiles where
  mdu := files.mdu
  slotFiles := ((ShardLoad.start files.slotFiles).takeAll pairs).slotFiles

section Ensure

variable {answer : Nat → Nat → Option ShardResponse} {files : MduFiles} {providers : List Str}

/-- The shards that are taken. -/
def takenOf (k m : UInt64) (answer : Nat → Nat → Option ShardResponse) (files : MduFiles) :
    List (Nat × Bytes) :=
  (usableShards k.toNat m.toNat answer files.slotFiles).take k.toNat

/-- Without an `mdu_<index>.bin`, the slots decide: fewer than `K` shards are an error, and
otherwise the MDU is reconstructed and written. The shards that were fetched are kept in both
cases. -/
theorem ensureMode2MduOnDisk_eq (hk : k.toNat ∣ 64) (hsum : k.toNat + m.toNat < 2 ^ 64)
    (hproviders : k.toNat + m.toNat ≤ providers.length) (hfiles : files.mdu = none) :
    ensureMode2MduOnDisk rs (mode2Stripe k m) (.ok providers) answer files =
      if (usableShards k.toNat m.toNat answer files.slotFiles).length < k.toNat then
        (.error "not enough shards available for reconstruction",
          files.takeAll (takenOf k m answer files))
      else match cryptoFfiReconstructMduRs rs
          (takenShards (k.toNat + m.toNat) (takenOf k m answer files) files.slotFiles) k m with
        | .error e => (.error e, files.takeAll (takenOf k m answer files))
        | .ok mdu =>
          (.ok (), { files.takeAll (takenOf k m answer files) with mdu := some mdu }) := by
  have hk64 : k.toNat ≤ 64 := Nat.le_of_dvd (by decide) hk
  have hk0 : k.toNat ≠ 0 := by
    intro h0
    rw [h0] at hk
    exact absurd (Nat.eq_zero_of_zero_dvd hk) (by decide)
  have hslots := slotCount_mode2Stripe hsum
  -- the parameters of the stripe are not 0
  have hparams : ¬((mode2Stripe k m).k = 0 ∨ (mode2Stripe k m).rows = 0) := by
    rintro (h0 | h0)
    · exact hk0 (congrArg UInt64.toNat h0)
    · have hrows : (64 / k).toNat = 0 := congrArg UInt64.toNat h0
      rw [UInt64.toNat_div] at hrows
      have hpos : 0 < 64 / k.toNat := Nat.div_pos hk64 (Nat.pos_of_ne_zero hk0)
      exact absurd hrows hpos.ne'
  have hcount : ¬(mode2Stripe k m).slotCount = 0 := by
    intro h0
    rw [h0] at hslots
    have hzero : (0 : UInt64).toNat = 0 := rfl
    omega
  rw [ensureMode2MduOnDisk, hfiles, if_neg (by simp), if_neg (by simp [mode2Stripe]),
    if_neg hparams]
  have hload := @loadShards_eq k m answer files.slotFiles hsum
  -- the two passes found too few exactly if the slots give too few
  have hpresent : (loadShards (mode2Stripe k m) answer files.slotFiles).presentCount < k.toNat ↔
      (usableShards k.toNat m.toNat answer files.slotFiles).length < k.toNat := by
    rw [hload, presentCount_takeAll, List.length_take]
    show 0 + _ < _ ↔ _
    omega
  show (if (mode2Stripe k m).slotCount = 0 then _ else _) = _
  rw [if_neg hcount, hslots, if_neg (by omega)]
  simp only [hload] at hpresent ⊢
  show (if (ShardLoad.presentCount _) < k.toNat then _ else _) = _
  by_cases hshort : (usableShards k.toNat m.toNat answer files.slotFiles).length < k.toNat
  · rw [if_pos (hpresent.mpr hshort), if_pos hshort, MduFiles.takeAll, hfiles]
    rfl
  · rw [if_neg fun h => hshort (hpresent.mp h), if_neg hshort, MduFiles.takeAll, hfiles]
    rfl

/-- What is taken is for slots of its own, and of the right size. -/
theorem takenOf_wf : ((takenOf k m answer files).map (·.1)).Nodup ∧
    ∀ e ∈ takenOf k m answer files, e.1 < k.toNat + m.toNat ∧ e.2.length = shardSize k.toNat := by
  constructor
  · rw [takenOf, List.map_take]
    exact (nodup_usableShards _ _ _ _).sublist (List.take_sublist _ _)
  · intro e he
    exact mem_usableShards (List.mem_of_mem_take he)

/-- With `K` shards there is an MDU. It is the committed one where the shards are. -/
theorem ensureMode2MduOnDisk_full (hk : k.toNat ∣ 64) (hm : 0 < m.toNat)
    (hcode : MdsCode rs k.toNat m.toNat coeff) (hproviders : k.toNat + m.toNat ≤ providers.length)
    (hfiles : files.mdu = none)
    (hfull : k.toNat ≤ (usableShards k.toNat m.toNat answer files.slotFiles).length) :
    ∃ mdu, reconstructMduFromShards rs (takenShards (k.toNat + m.toNat) (takenOf k m answer files)
        files.slotFiles) k.toNat m.toNat = .ok mdu ∧
      ensureMode2MduOnDisk rs (mode2Stripe k m) (.ok providers) answer files =
        (.ok (), { files.takeAll (takenOf k m answer files) with mdu := some mdu }) := by
  have hsum : k.toNat + m.toNat < 2 ^ 64 := lt_of_le_of_lt hcode.shards_le (by decide)
  obtain ⟨hnodup, htaken⟩ := @takenOf_wf k m answer files
  -- the taken shards have the right size, and there are `K` of them
  have hsizes : ∀ shard, some shard ∈ takenShards (k.toNat + m.toNat) (takenOf k m answer files)
      files.slotFiles → shard.length = shardSize k.toNat := by
    intro shard hshard
    obtain ⟨slot, hmem⟩ := mem_takenShards hnodup hshard
    exact (htaken _ hmem).2
  have hcount : (takenShards (k.toNat + m.toNat) (takenOf k m answer files) files.slotFiles).countP
      (·.isSome) = k.toNat := by
    rw [countP_takenShards hnodup fun e he => (htaken e he).1, takenOf, List.length_take]
    exact Nat.min_eq_left hfull
  obtain ⟨mdu, hmdu, hlength⟩ := reconstructMduFromShards_isOk hcode (Nat.mod_eq_zero_of_dvd hk) hm
    length_takenShards hsizes hcount
  refine ⟨mdu, hmdu, ?_⟩
  rw [ensureMode2MduOnDisk_eq hk hsum hproviders hfiles, if_neg (not_lt.mpr hfull),
    cryptoFfiReconstructMduRs_ok hk hm hsum length_takenShards hsizes hlength hmdu]

end Ensure

end Mdu

/-! ### Committed MDUs -/

/-- An MDU of a slab as it was committed: MDU #0 records the root of its expansion. -/
structure CommittedMdu (ctx : KzgContext) (rs : ReedSolomon) (k m : Nat) (mdu0 : Mdu0Builder)
    (index : Nat) where
  mdu : Bytes
  expanded : ExpandedMdu
  length_eq : mdu.length = mduSize
  expand_eq : expandMduEncoded ctx rs mdu k m = .ok expanded
  root_eq : createMduMerkleRoot ctx expanded.witness = .ok (mdu0.getRoot (index - 1))

/-- The shard of a slot. -/
def CommittedMdu.shard {ctx : KzgContext} {rs : ReedSolomon} {k m : Nat}
    {mdu0 : Mdu0Builder} {index : Nat}
    (committed : CommittedMdu ctx rs k m mdu0 index) (slot : Nat) : Option Bytes :=
  committed.expanded.shards[slot]?

section Committed

variable {ctx : KzgContext} {rs : ReedSolomon} {k m : Nat} {coeff : Nat → Nat → UInt8}
  {mdu0 : Mdu0Builder}
  {index : Nat}

/-- The MDU is put together from as many of its shards as there have to be, since its expansion is
the one of the code. -/
theorem CommittedMdu.reconstruct_eq (committed : CommittedMdu ctx rs k m mdu0 index)
    (hcode : ErasureCode rs k m coeff) (hk : 64 % k = 0) (hm : 0 < m) :
    committed.expanded.shards.length = k + m ∧
      (∀ shard ∈ committed.expanded.shards, shard.length = shardSize k) ∧
      ∀ remaining, Lib.Erased committed.expanded.shards remaining →
        remaining.countP (·.isNone) ≤ m →
        reconstructMduFromShards rs remaining k m = .ok committed.mdu := by
  -- every row of the MDU has its encoding
  have hrow : ∀ row, ∃ encoded, row < Core.blobsPerMdu / k →
      RowCode rs k m coeff committed.mdu row encoded := by
    intro row
    by_cases hlt : row < Core.blobsPerMdu / k
    · obtain ⟨encoded, hencoded⟩ := exists_rowCode hcode hk committed.length_eq hlt
      exact ⟨encoded, fun _ => hencoded⟩
    · exact ⟨[], fun h => absurd h hlt⟩
  choose encoded hencoded using hrow
  obtain ⟨expanded, hexpanded, hshards⟩ :=
    expandMduEncoded_ok ctx hcode.new_ok hk hm committed.length_eq hencoded
  have heq : expanded = committed.expanded :=
    Except.ok.inj (hexpanded.symm.trans committed.expand_eq)
  rw [heq] at hshards
  have hcodeword := hshards.codeword fun row hrow => (hencoded row hrow).codeword
  refine ⟨hshards.length, fun shard hshard => ?_, fun remaining herased hmissing => ?_⟩
  · rw [hcodeword.shardLength shard hshard, Nat.mul_comm, shardSize]
  · exact reconstruct_ok hcode hk hm committed.length_eq hencoded hshards herased hmissing

/-- What is taken remains of the committed shards, if it is all from there. -/
theorem erased_takenShards {shards : List Bytes} {pairs : List (Nat × Bytes)}
    {slotFiles : Nat → Option Bytes}
    (hnodup : (pairs.map (·.1)).Nodup) (h : ∀ e ∈ pairs, shards[e.1]? = some e.2) :
    Lib.Erased shards (takenShards shards.length pairs slotFiles) := by
  rw [Lib.Erased, List.forall₂_iff_get]
  refine ⟨length_takenShards.symm, fun slot hslot hslot' => ?_⟩
  simp only [takenShards, List.get_eq_getElem, List.getElem_map, List.getElem_range]
  cases hshard : ((ShardLoad.start slotFiles).takeAll pairs).shards slot with
  | none => exact Or.inl rfl
  | some shard =>
      right
      have hcommitted := h _ ((taken_shards_eq_some hnodup).mp hshard)
      rw [List.getElem?_eq_getElem hslot] at hcommitted
      exact hcommitted.symm

end Committed

/-! ### When a reconstruction is right -/

section

variable {ctx : KzgContext} {rs : ReedSolomon} {k m : Nat} {mdu0 : Mdu0Builder} {index : Nat}
  (committed : CommittedMdu ctx rs k m mdu0 index) (answer : Nat → Nat → Option ShardResponse)
    (files : MduFiles)

/-- The files of slots that are there are committed shards. -/
def CommittedMdu.HasSlotFiles (slotFiles : Nat → Option Bytes) : Prop :=
  ∀ slot shard, slotFiles slot = some shard → committed.shard slot = some shard

/-- A slot has its shard in the directory, or its provider sends it in one of the passes. -/
def CommittedMdu.GivesShard (slot : Nat) : Prop :=
  ∃ shard, committed.shard slot = some shard ∧
    (files.slotFiles slot = some shard ∨ ∃ pass < 2, answer pass slot = some ⟨200, shard⟩)

/-- What is wanted of a reconstruction. -/
structure CommittedMdu.Reconstructs (out : Except String Unit × MduFiles) : Prop where
  mdu : out.1 = .ok () → ∃ mdu expanded, out.2.mdu = some mdu ∧ mdu.length = mduSize ∧
    expandMduEncoded ctx rs mdu k m = .ok expanded ∧
    createMduMerkleRoot ctx expanded.witness = .ok (mdu0.getRoot (index - 1))
  slotFiles : out.1 = .ok () → committed.HasSlotFiles out.2.slotFiles
  enough : ∀ slots : List Nat, slots.Nodup → k ≤ slots.length →
    (∀ slot ∈ slots, committed.GivesShard answer files slot) → out.1 = .ok ()
  error : out.1 ≠ .ok () → out.2.mdu = none

/-- The shards that are taken are committed, if there are enough. -/
def CommittedMdu.TakesCommitted : Prop :=
  k ≤ (usableShards k m answer files.slotFiles).length →
    ∀ e ∈ (usableShards k m answer files.slotFiles).take k, committed.shard e.1 = some e.2

variable {committed answer files}

/-- A file or an answer of the right size is something. -/
theorem offered_isSome {size slot : Nat} {answer : Nat → Option ShardResponse}
    {slotFiles : Nat → Option Bytes} {shard : Bytes} (hlength : shard.length = size)
    (h : slotFiles slot = some shard ∨ answer slot = some ⟨200, shard⟩) :
    (offered size answer slotFiles slot).isSome = true := by
  rw [offered, Option.isSome_or, Bool.or_eq_true]
  rcases h with h | h
  · left
    rw [h, filter_length_of_eq hlength]
    rfl
  · right
    have hfetch : (fetchShardFromProvider (answer slot)).toOption = some shard := by
      rw [h]
      rfl
    rw [hfetch, filter_length_of_eq hlength]
    rfl

/-- A slot that gives its shard gives something: in the first pass, or in the second. -/
theorem CommittedMdu.GivesShard.mem_usableShards {slot : Nat}
    (h : committed.GivesShard answer files slot)
    (hlength : committed.expanded.shards.length = k + m)
    (hsizes : ∀ shard ∈ committed.expanded.shards, shard.length = shardSize k) :
    slot ∈ (usableShards k m answer files.slotFiles).map (·.1) := by
  obtain ⟨shard, hshard, hgiven⟩ := h
  have hslot : slot < k + m := by
    rw [← hlength]
    exact (List.getElem?_eq_some_iff.mp hshard).1
  have hsize := hsizes shard (List.mem_of_getElem? hshard)
  rw [usableShards, List.map_append, List.mem_append]
  -- a slot is in the list of the first pass in which it gives something
  cases hfirst : offered (shardSize k) (answer 0) files.slotFiles slot with
  | some first =>
      refine Or.inl (mem_map_accepted.mpr ⟨List.mem_range.mpr hslot, ?_⟩)
      rw [hfirst]
      rfl
  | none =>
      have hsecond : (offered (shardSize k) (answer 1) files.slotFiles slot).isSome = true := by
        -- the file is there, or one of the two answers has the shard
        rcases hgiven with hlocal | ⟨pass, hpass, hanswer⟩
        · exact offered_isSome hsize (Or.inl hlocal)
        · obtain rfl | rfl : pass = 0 ∨ pass = 1 := by omega
          · have hsome : (offered (shardSize k) (answer 0) files.slotFiles slot).isSome = true :=
              offered_isSome hsize (Or.inr hanswer)
            rw [hfirst] at hsome
            cases hsome
          · exact offered_isSome hsize (Or.inr hanswer)
      refine Or.inr (mem_map_accepted.mpr ⟨List.mem_range.mpr hslot, ?_⟩)
      show Option.isSome
        (if (offered (shardSize k) (answer 0) files.slotFiles slot).isSome then none
        else _) = true
      rw [hfirst]
      exact hsecond

/-- `K` slots that give their shard are enough to have `K` shards. -/
theorem le_length_usableShards (hlength : committed.expanded.shards.length = k + m)
    (hsizes : ∀ shard ∈ committed.expanded.shards, shard.length = shardSize k) {slots : List Nat}
    (hnodup : slots.Nodup) (hk : k ≤ slots.length)
    (hslots : ∀ slot ∈ slots, committed.GivesShard answer files slot) :
    k ≤ (usableShards k m answer files.slotFiles).length := by
  have hsubset : slots ⊆ (usableShards k m answer files.slotFiles).map (·.1) :=
    fun slot hslot => (hslots slot hslot).mem_usableShards hlength hsizes
  have hle := (hnodup.subperm hsubset).length_le
  rw [List.length_map] at hle
  omega

/-- Where no answer of the right size is another shard, only committed shards are taken. -/
theorem takesCommitted_of_honest (hlocal : committed.HasSlotFiles files.slotFiles)
    (hanswers : ∀ pass slot shard, fetchShardFromProvider (answer pass slot) = .ok shard →
      shard.length = shardSize k → committed.shard slot = some shard) :
    committed.TakesCommitted answer files := by
  intro _ e he
  -- what a slot offers is in the directory, or in an answer
  have hoffered : ∀ pass, offered (shardSize k) (answer pass) files.slotFiles e.1 = some e.2 →
      committed.shard e.1 = some e.2 := by
    intro pass h
    rw [offered, Option.or_eq_some_iff] at h
    rcases h with h | ⟨-, h⟩
    · exact hlocal _ _ (Option.filter_eq_some_iff.mp h).1
    · obtain ⟨hfetch, hlength⟩ := Option.filter_eq_some_iff.mp h
      refine hanswers pass e.1 e.2 ?_ (of_decide_eq_true hlength)
      cases hresp : fetchShardFromProvider (answer pass e.1) with
      | error e' =>
          rw [hresp] at hfetch
          cases hfetch
      | ok shard =>
          rw [hresp] at hfetch
          exact congrArg Except.ok (Option.some.inj hfetch)
  rcases List.mem_append.mp (List.mem_of_mem_take he) with he | he
  · exact hoffered 0 (mem_accepted.mp he).2
  · have haccept := (mem_accepted.mp he).2
    split at haccept
    · cases haccept
    · exact hoffered 1 haccept

end

/-- A reconstruction gives the committed MDU, leaves committed shards, succeeds where `K` slots give
their shard, and leaves no MDU otherwise, exactly when the shards that it takes are the committed
ones. These are the first `K` of those that are in the directory or are sent in the first pass,
followed by those that are sent in the second. -/
theorem reconstructs_iff (ctx : KzgContext) (rs : ReedSolomon) (k m : UInt64)
    (coeff : Nat → Nat → UInt8)
    (hk : k.toNat ∣ 64) (hm : 1 ≤ m.toNat) (hcode : MdsCode rs k.toNat m.toNat coeff)
    (mdu0 : Mdu0Builder)
    (index : Nat) (committed : CommittedMdu ctx rs k.toNat m.toNat mdu0 index)
    (providers : List Str)
    (hproviders : providers.length = k.toNat + m.toNat) (answer : Nat → Nat → Option ShardResponse)
    (files : MduFiles) (hfiles : files.mdu = none)
    (hlocal : committed.HasSlotFiles files.slotFiles) :
    committed.Reconstructs answer files
        (ensureMode2MduOnDisk rs (mode2Stripe k m) (.ok providers) answer files) ↔
      committed.TakesCommitted answer files := by
  obtain ⟨hlength, hsizes, hreconstruct⟩ :=
    committed.reconstruct_eq hcode.toErasureCode (Nat.mod_eq_zero_of_dvd hk) hm
  have hsum : k.toNat + m.toNat < 2 ^ 64 := lt_of_le_of_lt hcode.shards_le (by decide)
  obtain ⟨hnodup, htaken⟩ := @takenOf_wf k m answer files
  -- enough shards, or too few
  by_cases hfull : k.toNat ≤ (usableShards k.toNat m.toNat answer files.slotFiles).length
  · obtain ⟨mdu, hmdu, hensure⟩ := ensureMode2MduOnDisk_full hk hm hcode hproviders.ge hfiles hfull
    rw [hensure]
    constructor
    · -- what is taken is stored
      intro h _ e he
      exact h.slotFiles rfl e.1 e.2 (takeAll_of_mem _ hnodup he).2
    -- committed shards give the committed MDU
    · intro h
      have hcommitted := h hfull
      have herased : Lib.Erased committed.expanded.shards (takenShards _ _ files.slotFiles) :=
        erased_takenShards hnodup hcommitted
      rw [hlength] at herased
      have hcount :
          (takenShards (k.toNat + m.toNat) (takenOf k m answer files) files.slotFiles).countP
          (·.isSome) = k.toNat := by
        rw [countP_takenShards hnodup fun e he => (htaken e he).1, takenOf, List.length_take]
        exact Nat.min_eq_left hfull
      have hmissing := countP_isNone length_takenShards hcount
      have hsame := hmdu.symm.trans (hreconstruct _ herased hmissing.le)
      refine ⟨fun _ => ?_, fun _ => ?_, fun _ _ _ _ => rfl, fun hne => absurd rfl hne⟩
      · refine ⟨mdu, committed.expanded, rfl, ?_, ?_, committed.root_eq⟩
        · rw [Except.ok.inj hsame]
          exact committed.length_eq
        · rw [Except.ok.inj hsame]
          exact committed.expand_eq
      · intro slot shard hshard
        by_cases hmem : slot ∈ (takenOf k m answer files).map (·.1)
        · obtain ⟨e, he, rfl⟩ := List.mem_map.mp hmem
          have hstored := (takeAll_of_mem (.start files.slotFiles) hnodup he).2
          rw [← hshard, hcommitted e he]
          exact hstored.symm
        · -- the file was there before
          have hkept := (takeAll_of_notMem (.start files.slotFiles) hmem).2
          exact hlocal slot shard (hkept.symm.trans hshard)
  -- with too few there is no MDU, and the condition asks for nothing
  · have hshort := not_le.mp hfull
    rw [ensureMode2MduOnDisk_eq hk hsum hproviders.ge hfiles, if_pos hshort]
    refine iff_of_true ?_ fun h => absurd h hfull
    refine ⟨fun h => (by cases h), fun h => (by cases h), fun slots hslotsNodup hcount hslots => ?_,
      fun _ => hfiles⟩
    exact absurd (le_length_usableShards hlength hsizes hslotsNodup hcount hslots) hfull

/-! ### One data and one parity shard -/

/-- The mirror code corrects every loss of one shard. -/
theorem mdsCode_mirrorCode : MdsCode mirrorCode 1 1 (fun _ _ => 1) where
  toErasureCode := erasureCode_mirrorCode
  total := by
    intro n remaining hn hlength hsizes hcount
    obtain ⟨first, second, rfl⟩ := List.length_eq_two.mp hlength
    cases first with
    | none =>
        cases second with
        | none => cases hcount
        | some parity =>
            exact ⟨[parity, parity], codeword_mirrorCode.mpr ⟨parity, hsizes parity (by simp), rfl⟩,
              .cons (Or.inl rfl) (.cons (Or.inr rfl) .nil)⟩
    | some data =>
        cases second with
        | none =>
            exact ⟨[data, data], codeword_mirrorCode.mpr ⟨data, hsizes data (by simp), rfl⟩,
              .cons (Or.inr rfl) (.cons (Or.inl rfl) .nil)⟩
        | some parity => cases hcount
  shards_le := by decide

/-- A tree with leaves has a root. -/
theorem root_isSome {α : Type} (node : α → α → α) {l : List α} (h : l ≠ []) :
    (PromotedMerkle.root node l).isSome = true := by
  induction l using PromotedMerkle.root.induct node with
  | case1 l hone =>
      rw [PromotedMerkle.root, if_pos hone, List.head?_eq_some_head h]
      rfl
  | case2 l hmore ih =>
      rw [PromotedMerkle.root, if_neg hmore]
      refine ih fun hnil => ?_
      have hlength := PromotedMerkle.length_layerUp node l
      rw [hnil, List.length_nil] at hlength
      omega

/-- Any MDU can be committed. Each row is encoded on its own, and the root of its commitments goes
into a new builder. -/
theorem exists_committedMdu {mdu : Bytes} (hmdu : mdu.length = mduSize) :
    ∃ mdu0, ∃ committed :
      CommittedMdu identitySetup mirrorCode 1 1 mdu0 1, committed.mdu = mdu := by
  -- a code word for each row; past the last row any list will do
  have hrow : ∀ row, ∃ encoded, row < Core.blobsPerMdu / 1 →
      RowCode mirrorCode 1 1 (fun _ _ => 1) mdu row encoded := by
    intro row
    by_cases hlt : row < Core.blobsPerMdu / 1
    · obtain ⟨encoded, hencoded⟩ := exists_rowCode erasureCode_mirrorCode (by decide) hmdu hlt
      exact ⟨encoded, fun _ => hencoded⟩
    · exact ⟨[], fun h => absurd h hlt⟩
  choose encoded hencoded using hrow
  obtain ⟨expanded, hexpanded, -⟩ :=
    expandMduEncoded_ok identitySetup rfl (by decide) (by decide) hmdu hencoded
  -- the first blob of the first shard has a commitment
  have hwitness : expanded.witness ≠ [] := by
    rw [expandMduEncoded, except_bind_ok] at hexpanded
    obtain ⟨_, -, hexpanded⟩ := hexpanded
    rw [except_bind_ok] at hexpanded
    obtain ⟨_, -, hexpanded⟩ := hexpanded
    obtain ⟨_, -, hexpanded⟩ := except_bind_ok.mp hexpanded
    obtain ⟨shards, -, hexpanded⟩ := except_bind_ok.mp hexpanded
    obtain ⟨witness, hmap, hexpanded⟩ := except_bind_ok.mp hexpanded
    obtain ⟨commitment, hmem, -⟩ := (mem_of_mapM_eq_ok hmap).2 (0, 0) (by decide)
    have heq : witness = expanded.witness := congrArg ExpandedMdu.witness (Except.ok.inj hexpanded)
    rw [← heq]
    exact List.ne_nil_of_mem hmem
  obtain ⟨root, hroot⟩ := Option.isSome_iff_exists.mp (root_isSome
    (fun left right => (⟨[], by decide⟩ : HashTable).hash (left ++ right))
    (l := expanded.witness.map (⟨[], by decide⟩ : HashTable).hash) (by simpa using hwitness))
  have hlength : root.length = 32 := by
    refine PromotedMerkle.forall_root (P := fun b : Bytes => b.length = 32)
      (fun _ _ => HashTable.length_hash _ _) ?_ hroot
    intro leaf hleaf
    obtain ⟨_, -, rfl⟩ := List.mem_map.mp hleaf
    exact HashTable.length_hash _ _
  refine ⟨{ Mdu0Builder.newWithCommitments 1 128 with
    buffer := overwrite (Mdu0Builder.newWithCommitments 1 128).buffer (32 * 0) root },
    ⟨mdu, expanded, hmdu, hexpanded, ?_⟩, rfl⟩
  rw [((Mdu0Builder.lists_new 1 128).setRoot (i := 0) (by decide) hlength).2 0, if_pos rfl,
    createMduMerkleRoot]
  have hmerkle : identitySetup.crates.merkleRoot
      (expanded.witness.map identitySetup.crates.blake2s256) = some root := hroot
  rw [hmerkle]

section

variable {mdu0 : Mdu0Builder} (committed : CommittedMdu identitySetup mirrorCode 1 1 mdu0 1)

/-- Both slots send their shard. -/
def honestAnswer (_ slot : Nat) : Option ShardResponse :=
  (committed.shard slot).map fun shard => ⟨200, shard⟩

/-- The first slot sends other bytes. -/
def lyingAnswer (_ slot : Nat) : Option ShardResponse :=
  (committed.shard slot).map fun shard => ⟨200, if slot = 0 then shard.map (· + 1) else shard⟩

/-- No files are there. -/
def noMduFiles : MduFiles := ⟨none, fun _ => none⟩

/-- The MDU of a short payload comes back from honest providers. Two providers and one data slot are
enough here. -/
theorem reconstructs_iff_mirrorCode : ∃ mdu0, ∃ committed :
    CommittedMdu identitySetup mirrorCode 1 1 mdu0 1,
    committed.mdu = payloadMdu [1, 2, 3] ∧
      committed.Reconstructs (honestAnswer committed) noMduFiles
        (ensureMode2MduOnDisk mirrorCode (mode2Stripe 1 1) (.ok [['a'], ['b']])
          (honestAnswer committed)
          noMduFiles) := by
  obtain ⟨mdu0, committed, hmdu⟩ := exists_committedMdu (@length_payloadMdu [1, 2, 3] (by decide))
  have hlocal : committed.HasSlotFiles noMduFiles.slotFiles := nofun
  refine ⟨mdu0, committed, hmdu, ?_⟩
  refine (reconstructs_iff identitySetup mirrorCode 1 1 (fun _ _ => 1) (by decide) (by decide)
    mdsCode_mirrorCode mdu0 1 committed [['a'], ['b']] rfl
      (honestAnswer committed) noMduFiles rfl hlocal).mpr ?_
  -- what an honest provider sends is the committed shard
  refine takesCommitted_of_honest hlocal fun pass slot shard hfetch _ => ?_
  rw [honestAnswer] at hfetch
  cases hshard : committed.shard slot with
  | none =>
      rw [hshard] at hfetch
      cases hfetch
  | some shard' =>
      rw [hshard] at hfetch
      exact congrArg some (Except.ok.inj hfetch)

/-- One provider that sends other bytes makes another MDU, and leaves its bytes as a shard. Nothing
is checked against the root, so the slot file stays for the next reader. -/
theorem lyingSlot_reconstructs : ∃ mdu0, ∃ committed :
    CommittedMdu identitySetup mirrorCode 1 1 mdu0 1,
    committed.mdu = payloadMdu [1, 2, 3] ∧
      ¬committed.Reconstructs (lyingAnswer committed) noMduFiles
        (ensureMode2MduOnDisk mirrorCode (mode2Stripe 1 1) (.ok [['a'], ['b']])
          (lyingAnswer committed)
          noMduFiles) := by
  obtain ⟨mdu0, committed, hmdu⟩ := exists_committedMdu (@length_payloadMdu [1, 2, 3] (by decide))
  obtain ⟨hlength, hsizes, -⟩ :=
    committed.reconstruct_eq erasureCode_mirrorCode (by decide) (by decide)
  refine ⟨mdu0, committed, hmdu, fun h => ?_⟩
  -- the shard of the first slot, and what the provider sends for it
  obtain ⟨shard, hshard⟩ : ∃ shard, committed.shard 0 = some shard :=
    ⟨_, List.getElem?_eq_getElem (by rw [hlength]; decide)⟩
  have hsize := hsizes shard (List.mem_of_getElem? hshard)
  have hfirst : offered (shardSize 1) (lyingAnswer committed 0) noMduFiles.slotFiles 0 =
      some (shard.map (· + 1)) := by
    have hfetch : (fetchShardFromProvider (lyingAnswer committed 0 0)).toOption =
        some (shard.map (· + 1)) := by
      rw [lyingAnswer, hshard]
      rfl
    rw [offered, hfetch, filter_length_of_eq (by rw [List.length_map, hsize])]
    rfl
  -- its bytes are the first to be taken
  obtain ⟨rest, hrest⟩ : ∃ rest, usableShards 1 1 (lyingAnswer committed) noMduFiles.slotFiles =
      (0, shard.map (· + 1)) :: rest := by
    rw [usableShards]
    show ∃ rest, accepted _ (0 :: [1]) ++ _ = _
    rw [accepted_cons, hfirst]
    exact ⟨_, rfl⟩
  have hfull : 1 ≤ (usableShards 1 1 (lyingAnswer committed) noMduFiles.slotFiles).length := by
    rw [hrest, List.length_cons]
    omega
  obtain ⟨mdu, -, hensure⟩ :=
    @ensureMode2MduOnDisk_full mirrorCode 1 1 _ (lyingAnswer committed) noMduFiles
    [['a'], ['b']] (by decide) (by decide) mdsCode_mirrorCode le_rfl rfl hfull
  have htaken : (0, shard.map (· + 1)) ∈ takenOf 1 1 (lyingAnswer committed) noMduFiles := by
    show (0, shard.map (· + 1)) ∈
      (usableShards 1 1 (lyingAnswer committed) noMduFiles.slotFiles).take 1
    rw [hrest]
    exact List.mem_cons_self
  -- the file of the slot holds the other bytes
  rw [hensure] at h
  have hstored := h.slotFiles rfl 0 (shard.map (· + 1)) (takeAll_of_mem _ takenOf_wf.1 htaken).2
  rw [hshard, Option.some.injEq] at hstored
  cases shard with
  | nil => exact absurd hsize (by decide)
  | cons byte tail =>
      rw [List.map_cons, List.cons.injEq] at hstored
      exact absurd hstored.1.symm (by simp)

end

end NilStore.Gateway
