import NilStore.Lib.KVStore

/-!
# `NilStore.Lib.LastWins`: entries of which the last one counts

A log of entries may have a key more than once, and then the last entry counts: `lastValue`. The map
that is built of the entries, one after the other, has these values (`get_mapOf`). The entries that
count are `latest`, and a sum over the map is a sum over these (`entries_mapOf_perm`). A sum over
the whole log counts the others too, which are `replaced`.
-/

set_option autoImplicit false

namespace NilStore.Lib

section

variable {κ ν : Type} [LinearOrder κ]

/-- The value of the last entry of a key. -/
def lastValue (k : κ) : List (κ × ν) → Option ν
  | [] => none
  | e :: rest => (lastValue k rest).or (if e.1 = k then some e.2 else none)

/-- The entries that no later one replaces. They keep their order. -/
def latest : List (κ × ν) → List (κ × ν)
  | [] => []
  | e :: rest => if e.1 ∈ rest.map (·.1) then latest rest else e :: latest rest

/-- The entries that a later one replaces. -/
def replaced : List (κ × ν) → List (κ × ν)
  | [] => []
  | e :: rest => if e.1 ∈ rest.map (·.1) then e :: replaced rest else replaced rest

/-- A conditional that gives a value took its first branch. -/
theorem ite_some_eq {e : κ × ν} {k : κ} {v : ν}
    (h : (if e.1 = k then some e.2 else none) = some v) :
    e.1 = k ∧ e.2 = v := by
  split at h
  · rename_i hkey
    exact ⟨hkey, Option.some.inj h⟩
  · cases h

/-- A key has no last value exactly when no entry has it. -/
theorem lastValue_eq_none {k : κ} {l : List (κ × ν)} : lastValue k l = none ↔ k ∉ l.map (·.1) := by
  induction l with
  | nil => simp [lastValue]
  | cons e rest ih =>
      rw [lastValue, Option.or_eq_none_iff, ih, List.map_cons, List.mem_cons, not_or, and_comm]
      refine and_congr_left fun _ => ?_
      rw [eq_comm (a := k)]
      split <;> simp_all

/-- A key that some entry has, has a last value. -/
theorem lastValue_isSome {k : κ} {v : ν} {l : List (κ × ν)} (h : (k, v) ∈ l) :
    ∃ w, lastValue k l = some w := by
  refine Option.ne_none_iff_exists'.mp fun hnone => ?_
  exact lastValue_eq_none.mp hnone (List.mem_map.mpr ⟨_, h, rfl⟩)

/-- The last value of a key stands in the list under that key. -/
theorem mem_of_lastValue {k : κ} {v : ν} {l : List (κ × ν)} (h : lastValue k l = some v) :
    (k, v) ∈ l := by
  induction l with
  | nil => cases h
  | cons e rest ih =>
      rw [lastValue, Option.or_eq_some_iff] at h
      rcases h with h | ⟨-, h⟩
      · exact List.mem_cons_of_mem _ (ih h)
      · obtain ⟨rfl, rfl⟩ := ite_some_eq h
        exact List.mem_cons_self

/-- The entries that count are those of the last values. -/
theorem mem_latest {e : κ × ν} {l : List (κ × ν)} : e ∈ latest l ↔ lastValue e.1 l = some e.2 := by
  induction l with
  | nil => simp [latest, lastValue]
  | cons e' rest ih =>
      rw [latest, lastValue]
      -- an entry of the key, or of another one
      by_cases hkey : e'.1 = e.1
      · rw [hkey, if_pos rfl, Option.or_eq_some_iff, ← ih, lastValue_eq_none]
        split
        · rename_i hmem
          simp [hmem]
        · rename_i hmem
          have hnot : e ∉ latest rest := by
            rw [ih, lastValue_eq_none.mpr hmem]
            nofun
          simp only [List.mem_cons, hnot, or_false, false_or, hmem, not_false_eq_true, true_and,
            Option.some.injEq]
          constructor
          · rintro rfl
            rfl
          · exact fun hvalue => (Prod.ext hkey hvalue).symm
      · rw [if_neg hkey, Option.or_none, ← ih]
        have hne : e ≠ e' := fun heq => hkey (congrArg Prod.fst heq).symm
        split
        · rfl
        · simp [hne]

/-- The latest entries are entries of the list. -/
theorem latest_subset (l : List (κ × ν)) : latest l ⊆ l := fun _ he =>
  mem_of_lastValue (mem_latest.mp he)

/-- The latest entries are distinct. -/
theorem nodup_latest (l : List (κ × ν)) : (latest l).Nodup := by
  induction l with
  | nil => exact List.nodup_nil
  | cons e rest ih =>
      rw [latest]
      split
      · exact ih
      · rename_i hmem
        refine List.nodup_cons.mpr ⟨fun he => hmem ?_, ih⟩
        exact List.mem_map_of_mem (latest_subset rest he)

/-- A sum over all the entries counts the replaced ones too. -/
theorem sum_latest_add_replaced (f : κ × ν → Nat) (l : List (κ × ν)) :
    ((latest l).map f).sum + ((replaced l).map f).sum = (l.map f).sum := by
  induction l with
  | nil => rfl
  | cons e rest ih =>
      rw [latest, replaced, List.map_cons, List.sum_cons, ← ih]
      split
      · rw [List.map_cons, List.sum_cons, Nat.add_left_comm]
      · rw [List.map_cons, List.sum_cons, Nat.add_assoc]

/-- Where a second log has entries for the same keys, made of those of the first, its last values
are made of them too, unless the last one is left out. -/
theorem lastValue_filterMap {ν' : Type} (g : ν → Option ν') {k : κ} {l : List (κ × ν)} {v : ν}
    (h : lastValue k l = some v) (hv : (g v).isSome) :
    lastValue k (l.filterMap fun e => (g e.2).map (e.1, ·)) = g v := by
  induction l with
  | nil => cases h
  | cons e rest ih =>
      rw [lastValue, Option.or_eq_some_iff] at h
      -- the last value is in the rest, or it is that of this entry
      rcases h with h | ⟨hnone, h⟩
      · have hrest := ih h
        obtain ⟨w, hw⟩ := Option.isSome_iff_exists.mp hv
        rw [List.filterMap_cons]
        split
        · exact hrest
        · rw [lastValue, hrest, hw, Option.some_or]
      · obtain ⟨rfl, rfl⟩ := ite_some_eq h
        obtain ⟨w, hw⟩ := Option.isSome_iff_exists.mp hv
        have hleft : lastValue e.1 (rest.filterMap fun e => (g e.2).map (e.1, ·)) = none := by
          rw [lastValue_eq_none] at hnone ⊢
          intro hmem
          obtain ⟨e₁, he₁, hkey⟩ := List.mem_map.mp hmem
          obtain ⟨e₂, he₂, hpair⟩ := List.mem_filterMap.mp he₁
          obtain ⟨w', -, rfl⟩ := Option.map_eq_some_iff.mp hpair
          exact hnone (hkey ▸ List.mem_map_of_mem he₂)
        rw [List.filterMap_cons, hw]
        simp only [Option.map_some]
        rw [lastValue, hleft, if_pos rfl, Option.none_or]

/-- The map that is built of the entries, one after the other. -/
def mapOf (l : List (κ × ν)) : KVStore κ ν := l.foldl (fun m e => m.set e.1 e.2) KVStore.empty

/-- A map filled entry by entry reads the last value of each key. -/
theorem get_mapOf (l : List (κ × ν)) (k : κ) : (mapOf l).get k = lastValue k l := by
  have hfold : ∀ m : KVStore κ ν, (l.foldl (fun m e => m.set e.1 e.2) m).get k =
      (lastValue k l).or (m.get k) := by
    induction l with
    | nil => exact fun m => rfl
    | cons e rest ih =>
        intro m
        rw [List.foldl_cons, ih, lastValue, Option.or_assoc, KVStore.get_set]
        congr 1
        by_cases hkey : e.1 = k
        · rw [if_pos hkey, if_pos hkey.symm]
          rfl
        · rw [if_neg hkey, if_neg (Ne.symm hkey)]
          rfl
  rw [mapOf, hfold]
  exact Option.or_none

/-- What a loop over the map meets. -/
theorem entries_mapOf_perm (l : List (κ × ν)) : (mapOf l).entries.Perm (latest l) := by
  have hnodup : (mapOf l).entries.Nodup := (mapOf l).sorted.imp fun h heq =>
    absurd (congrArg Prod.fst heq) (ne_of_lt h)
  rw [List.perm_ext_iff_of_nodup hnodup (nodup_latest l)]
  intro e
  rw [mem_latest, ← get_mapOf]
  exact KVStore.mem_entries

end

end NilStore.Lib
