import Mathlib.Data.List.Lex
import Mathlib.Data.List.Sort
import Mathlib.Data.Prod.Lex
import Mathlib.Order.Lattice
import Mathlib.Algebra.BigOperators.Group.List.Basic
import Mathlib.Algebra.Order.BigOperators.Group.List
import Mathlib.Algebra.Order.Ring.Int
import Mathlib.Tactic.Abel

/-!
# `NilStore.Lib.KVStore`: a key-value store that iterates in key order

A `KVStore κ ν` is a list of entries whose keys strictly increase. The order is a field of
the structure, so a store has one representation: two stores that answer every `get` alike
are equal (`KVStore.ext_get`). `set` and `remove` keep the order, and `entries` is what a
walk over the store visits, first to last.

`sumOf` adds a measure over the stored values. Its step law `sumOf_set` says what one write
does to the total: the measure of the old value leaves, the measure of the new one enters.
`sumOf_nonneg` and `le_sumOf` bound one value by the total when no measure is negative.
-/

set_option autoImplicit false

namespace NilStore.Lib

/-- A finite map from `κ` to `ν`, stored as entries in strictly increasing key order. -/
structure KVStore (κ ν : Type) [LinearOrder κ] where
  entries : List (κ × ν)
  sorted : entries.Pairwise (fun a b => a.1 < b.1)

namespace KVStore

variable {κ ν : Type} [LinearOrder κ]

/-- The empty store. No key has a value. -/
def empty : KVStore κ ν := ⟨[], List.Pairwise.nil⟩

/-- The value stored at the key, if there is one. -/
def get (m : KVStore κ ν) (k : κ) : Option ν := m.entries.lookup k

/-- Write one entry into a list of entries, at its place in the key order. -/
def insertEntry (k : κ) (v : ν) : List (κ × ν) → List (κ × ν)
  | [] => [(k, v)]
  | (k', v') :: rest =>
      if k < k' then (k, v) :: (k', v') :: rest
      else if k = k' then (k, v) :: rest
      else (k', v') :: insertEntry k v rest

/-- A key of the list after a write is the written one or an old one. -/
theorem mem_insertEntry {k : κ} {v : ν} {l : List (κ × ν)} {e : κ × ν}
    (h : e ∈ insertEntry k v l) : e = (k, v) ∨ e ∈ l := by
  induction l with
  | nil => simpa [insertEntry] using h
  | cons hd rest ih =>
      obtain ⟨k', v'⟩ := hd
      rw [insertEntry] at h
      split at h
      · simpa using h
      · split at h
        · rcases List.mem_cons.mp h with h | h
          · exact Or.inl h
          · exact Or.inr (List.mem_cons_of_mem _ h)
        · rcases List.mem_cons.mp h with h | h
          · exact Or.inr (h ▸ List.mem_cons_self)
          · rcases ih h with h | h
            · exact Or.inl h
            · exact Or.inr (List.mem_cons_of_mem _ h)

/-- A write keeps the key order. -/
theorem sorted_insertEntry (k : κ) (v : ν) {l : List (κ × ν)}
    (h : l.Pairwise (fun a b => a.1 < b.1)) :
    (insertEntry k v l).Pairwise (fun a b => a.1 < b.1) := by
  induction l with
  | nil => simp [insertEntry]
  | cons hd rest ih =>
      obtain ⟨k', v'⟩ := hd
      obtain ⟨hhd, hrest⟩ := List.pairwise_cons.mp h
      rw [insertEntry]
      -- before the head, in its place, or further back
      split
      · rename_i hlt
        refine List.pairwise_cons.mpr ⟨fun e he => ?_, h⟩
        rcases List.mem_cons.mp he with rfl | he
        · exact hlt
        · exact lt_trans hlt (hhd e he)
      · split
        · rename_i heq
          exact List.pairwise_cons.mpr ⟨fun e he => heq ▸ hhd e he, hrest⟩
        · rename_i hlt hne
          refine List.pairwise_cons.mpr ⟨fun e he => ?_, ih hrest⟩
          rcases mem_insertEntry he with rfl | he
          · exact lt_of_le_of_ne (not_lt.mp hlt) (Ne.symm hne)
          · exact hhd e he

/-- Store the value at the key, in place of the one that was there. -/
def set (m : KVStore κ ν) (k : κ) (v : ν) : KVStore κ ν :=
  ⟨insertEntry k v m.entries, sorted_insertEntry k v m.sorted⟩

/-- Drop the key. A store without the key does not change. -/
def remove (m : KVStore κ ν) (k : κ) : KVStore κ ν :=
  ⟨m.entries.filter (fun e => e.1 ≠ k), m.sorted.filter _⟩

/-! ### What the operations do to `get` -/

/-- An empty store has no entry. -/
@[simp] theorem get_empty (k : κ) : (empty : KVStore κ ν).get k = none := rfl

/-- Looking a key up in a list looks at the first entry first. -/
theorem lookup_cons_ite (k k₀ : κ) (v₀ : ν) (l : List (κ × ν)) :
    ((k₀, v₀) :: l).lookup k = if k = k₀ then some v₀ else l.lookup k := by
  rw [List.lookup_cons]
  by_cases h : k = k₀
  · simp [h]
  · rw [beq_eq_false_iff_ne.mpr h, if_neg h]

/-- Inserting an entry into the sorted list sets its key and leaves every other key alone. -/
theorem lookup_insertEntry (k k' : κ) (v : ν) (l : List (κ × ν)) :
    (insertEntry k v l).lookup k' = if k' = k then some v else l.lookup k' := by
  induction l with
  | nil => rw [insertEntry, lookup_cons_ite]
  | cons hd rest ih =>
      obtain ⟨k₀, v₀⟩ := hd
      rw [insertEntry]
      split
      · rw [lookup_cons_ite]
      · split
        · rename_i heq
          subst heq
          rw [lookup_cons_ite, lookup_cons_ite]
          split <;> rfl
        · rename_i hne
          rw [lookup_cons_ite, lookup_cons_ite, ih]
          by_cases h : k' = k
          · rw [if_pos h, if_pos h, if_neg (h ▸ hne)]
          · rw [if_neg h, if_neg h]

/-- Reading after a write: the written value at the written key, the old answer elsewhere. -/
theorem get_set (m : KVStore κ ν) (k k' : κ) (v : ν) :
    (m.set k v).get k' = if k' = k then some v else m.get k' :=
  lookup_insertEntry k k' v m.entries

/-- What was written under a key is read under it. -/
@[simp] theorem get_set_self (m : KVStore κ ν) (k : κ) (v : ν) : (m.set k v).get k = some v := by
  rw [get_set, if_pos rfl]

/-- A write leaves every other key alone. -/
theorem get_set_ne (m : KVStore κ ν) {k k' : κ} (h : k' ≠ k) (v : ν) :
    (m.set k v).get k' = m.get k' := by
  rw [get_set, if_neg h]

/-- A value read after a write is the written one, or was there before. -/
theorem get_set_some {m : KVStore κ ν} {k k' : κ} {v w : ν} (h : (m.set k v).get k' = some w) :
    (k' = k ∧ w = v) ∨ (k' ≠ k ∧ m.get k' = some w) := by
  rw [get_set] at h
  split at h
  · rename_i hk
    exact Or.inl ⟨hk, (Option.some.inj h).symm⟩
  · rename_i hk
    exact Or.inr ⟨hk, h⟩

/-! ### The entries are the answers -/

/-- In a sorted list a lookup finds exactly the entries of the list. -/
theorem lookup_eq_some_iff {l : List (κ × ν)} (h : l.Pairwise (fun a b => a.1 < b.1))
    {k : κ} {v : ν} : l.lookup k = some v ↔ (k, v) ∈ l := by
  induction l with
  | nil => simp
  | cons hd rest ih =>
      obtain ⟨k₀, v₀⟩ := hd
      obtain ⟨hhd, hrest⟩ := List.pairwise_cons.mp h
      rw [lookup_cons_ite, List.mem_cons, Prod.mk.injEq]
      split
      · rename_i hk
        subst hk
        constructor
        · intro hv
          exact Or.inl ⟨rfl, (Option.some.inj hv).symm⟩
        · rintro (⟨-, rfl⟩ | hmem)
          · rfl
          · exact absurd (hhd _ hmem) (lt_irrefl _)
      · rename_i hk
        rw [ih hrest]
        exact ⟨Or.inr, fun hor => hor.resolve_left fun heq => hk heq.1⟩

/-- The entries of a store are what can be read from it. -/
theorem mem_entries {m : KVStore κ ν} {k : κ} {v : ν} :
    (k, v) ∈ m.entries ↔ m.get k = some v :=
  (lookup_eq_some_iff m.sorted).symm

/-- A store is what it answers: equal `get` at every key, equal stores. -/
theorem ext_get {m m' : KVStore κ ν} (h : ∀ k, m.get k = m'.get k) : m = m' := by
  have hmem : ∀ e, e ∈ m.entries ↔ e ∈ m'.entries := by
    rintro ⟨k, v⟩
    rw [mem_entries, mem_entries, h]
  have : Std.Irrefl (fun a b : κ × ν => a.1 < b.1) := ⟨fun a => lt_irrefl a.1⟩
  have : Std.Antisymm (fun a b : κ × ν => a.1 < b.1) :=
    ⟨fun a b hab hba => absurd (lt_trans hab hba) (lt_irrefl a.1)⟩
  have hentries := List.Pairwise.eq_of_mem_iff m.sorted m'.sorted hmem
  cases m
  cases m'
  cases hentries
  rfl

/-- Writing back the stored value changes nothing. -/
theorem set_get {m : KVStore κ ν} {k : κ} {v : ν} (h : m.get k = some v) : m.set k v = m :=
  ext_get fun k' => by
    rw [get_set]
    split
    · rename_i hk
      rw [hk, h]
    · rfl

/-- A removal clears its key and leaves every other key alone. -/
theorem get_remove (m : KVStore κ ν) (k k' : κ) :
    (m.remove k).get k' = if k' = k then none else m.get k' := by
  refine Option.ext fun v => ?_
  rw [← mem_entries, remove, List.mem_filter, mem_entries]
  split
  · rename_i hk
    simp [hk]
  · rename_i hk
    simp [hk]

/-! ### Writes that commute -/

/-- Writes at two keys commute. -/
theorem set_comm (m : KVStore κ ν) {k k' : κ} (h : k ≠ k') (v v' : ν) :
    (m.set k v).set k' v' = (m.set k' v').set k v :=
  ext_get fun j => by
    simp only [get_set]
    by_cases hj : j = k
    · rw [if_pos hj, if_neg (by rw [hj]; exact h), if_pos hj]
    · rw [if_neg hj, if_neg hj]

/-- The second of two writes at a key counts. -/
theorem set_set (m : KVStore κ ν) (k : κ) (v v' : ν) : (m.set k v).set k v' = m.set k v' :=
  ext_get fun j => by
    simp only [get_set]
    split <;> rfl

/-- Replace the answer at a key by a function of it. -/
def modify (m : KVStore κ ν) (k : κ) (f : Option ν → Option ν) : KVStore κ ν :=
  match f (m.get k) with
  | some v => m.set k v
  | none => m.remove k

/-- An update in place changes its key by the function and leaves every other key alone. -/
theorem get_modify (m : KVStore κ ν) (k k' : κ) (f : Option ν → Option ν) :
    (m.modify k f).get k' = if k' = k then f (m.get k) else m.get k' := by
  rw [modify]
  split
  · rename_i v hv
    rw [get_set, hv]
  · rename_i hv
    rw [get_remove, hv]

/-- An update whose function gives a value is a write of that value. -/
theorem modify_of_some {m : KVStore κ ν} {k : κ} {f : Option ν → Option ν} {v : ν}
    (h : f (m.get k) = some v) : m.modify k f = m.set k v := by
  rw [modify, h]

/-- Two replacements commute, when their functions do. -/
theorem modify_comm (m : KVStore κ ν) (k k' : κ) {f g : Option ν → Option ν}
    (h : ∀ o, f (g o) = g (f o)) : (m.modify k f).modify k' g = (m.modify k' g).modify k f :=
  ext_get fun j => by
    simp only [get_modify]
    by_cases hk : k' = k
    · subst hk
      split
      · rw [if_pos rfl, if_pos rfl, h]
      · rfl
    · rw [if_neg hk, if_neg (Ne.symm hk)]
      by_cases hj : j = k'
      · rw [if_pos hj, if_neg (by rw [hj]; exact hk), if_pos hj]
      · rw [if_neg hj, if_neg hj]

/-! ### Sums over the stored values -/

section Sum

variable {M : Type} [AddCommGroup M]

/-- The total of a measure over the stored values. Each key counts once. -/
def sumOf (m : KVStore κ ν) (f : ν → M) : M := (m.entries.map fun e => f e.2).sum

/-- The sum over an empty store is zero. -/
@[simp] theorem sumOf_empty (f : ν → M) : (empty : KVStore κ ν).sumOf f = 0 := rfl

/-- Inserting an entry adds its value to a sum over the store and takes away that of the entry it
replaces. -/
theorem sum_insertEntry (k : κ) (v : ν) (f : ν → M) {l : List (κ × ν)}
    (h : l.Pairwise (fun a b => a.1 < b.1)) :
    ((insertEntry k v l).map fun e => f e.2).sum + ((l.lookup k).map f).getD 0
      = (l.map fun e => f e.2).sum + f v := by
  induction l with
  | nil => simp [insertEntry]
  | cons hd rest ih =>
      obtain ⟨k₀, v₀⟩ := hd
      obtain ⟨hhd, hrest⟩ := List.pairwise_cons.mp h
      rw [insertEntry]
      -- before the head, in its place, or further back
      split
      · rename_i hlt
        -- The key is below the head, so no entry carries it.
        have hnone : ((k₀, v₀) :: rest).lookup k = none := by
          rw [Option.eq_none_iff_forall_ne_some]
          intro w hw
          rcases List.mem_cons.mp ((lookup_eq_some_iff h).mp hw) with heq | hmem
          · exact absurd hlt (by rw [(Prod.mk.inj heq).1]; exact lt_irrefl _)
          · exact absurd (lt_trans hlt (hhd _ hmem)) (lt_irrefl _)
        rw [hnone]
        simp only [List.map_cons, List.sum_cons, Option.map_none, Option.getD_none]
        abel
      · split
        · rename_i heq
          subst heq
          rw [lookup_cons_ite, if_pos rfl]
          simp only [List.map_cons, List.sum_cons, Option.map_some, Option.getD_some]
          abel
        · rename_i hne
          rw [lookup_cons_ite, if_neg hne]
          have := ih hrest
          simp only [List.map_cons, List.sum_cons] at this ⊢
          rw [add_assoc, this]
          abel

/-- One write moves the total from the measure of the old value to that of the new one. -/
theorem sumOf_set (m : KVStore κ ν) (k : κ) (v : ν) (f : ν → M) :
    (m.set k v).sumOf f = m.sumOf f - ((m.get k).map f).getD 0 + f v := by
  have h := sum_insertEntry k v f m.sorted
  rw [sub_add_eq_add_sub, eq_sub_iff_add_eq]
  exact h

end Sum

/-- The total of a non-negative measure is non-negative. -/
theorem sumOf_nonneg {m : KVStore κ ν} {f : ν → Int} (h : ∀ k v, m.get k = some v → 0 ≤ f v) :
    0 ≤ m.sumOf f := by
  refine List.sum_nonneg fun x hx => ?_
  obtain ⟨⟨k, v⟩, hmem, rfl⟩ := List.mem_map.mp hx
  exact h k v (mem_entries.mp hmem)

/-- One value's measure is at most the total, when no measure is negative. -/
theorem le_sumOf {m : KVStore κ ν} {f : ν → Int} (h : ∀ k v, m.get k = some v → 0 ≤ f v)
    {k : κ} {v : ν} (hk : m.get k = some v) : f v ≤ m.sumOf f := by
  refine List.single_le_sum (fun x hx => ?_) _ (List.mem_map.mpr ⟨(k, v), mem_entries.mpr hk, rfl⟩)
  obtain ⟨⟨k', v'⟩, hmem, rfl⟩ := List.mem_map.mp hx
  exact h k' v' (mem_entries.mp hmem)

end KVStore

end NilStore.Lib
