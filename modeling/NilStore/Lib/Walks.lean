import Mathlib.Data.List.FinRange
import NilStore.Lib.KVStore

/-!
# `NilStore.Lib.Walks`: what a walk over a store visits

A walk visits the entries of a store in the order of their keys. A list in that order that has the
same members is what the walk visits (`KVStore.entries_eq`).

A store of values often has an index beside it, under a name and the key of the value. `Indexes`
says that the index has an entry for each value under the name of that value, and nothing else. Then
a walk over the index that keeps one name and looks the values up finds the values of that name, in
the order of their keys: `Indexes.walk_eq`.
-/

set_option autoImplicit false

namespace NilStore.Lib

variable {κ ν : Type} [LinearOrder κ]

/-- A list in key order with the entries of a store as its members is the list of its entries. -/
theorem KVStore.entries_eq {m : KVStore κ ν} {l : List (κ × ν)}
    (hsorted : l.Pairwise fun a b => a.1 < b.1)
    (hmem : ∀ k v, (k, v) ∈ l ↔ m.get k = some v) : m.entries = l := by
  have heq : m = ⟨l, hsorted⟩ := by
    refine KVStore.ext_get fun k => Option.ext fun v => ?_
    rw [← hmem k v]
    exact (KVStore.lookup_eq_some_iff hsorted).symm
  rw [heq]

section Index

variable {η ι : Type} [LinearOrder η] {name : ν → η} {index : KVStore (η ×ₗ κ) ι}
  {values : KVStore κ ν}

/-- The index has an entry for each value, under the name of the value and its key. -/
def Indexes (name : ν → η) (index : KVStore (η ×ₗ κ) ι) (values : KVStore κ ν) : Prop :=
  ∀ n k, (index.get (toLex (n, k))).isSome ↔ ∃ v, values.get k = some v ∧ name v = n

/-- A walk over an index that looks up the values of one name. -/
def walkIndex (index : KVStore (η ×ₗ κ) ι) (values : KVStore κ ν) (n : η) : List ν :=
  index.entries.filterMap fun e =>
    if (ofLex e.1).1 ≠ n then none else values.get (ofLex e.1).2

/-- What the walk finds at an entry, with its key. -/
def visit (values : KVStore κ ν) (n : η) (e : (η ×ₗ κ) × ι) : Option (κ × ν) :=
  if (ofLex e.1).1 ≠ n then none
  else (values.get (ofLex e.1).2).map fun v => ((ofLex e.1).2, v)

/-- An index entry is visited exactly when it stands under the name asked for and its value is
stored. -/
theorem visit_eq_some {n : η} {e : (η ×ₗ κ) × ι} {k : κ} {v : ν} :
    visit values n e = some (k, v) ↔ e.1 = toLex (n, k) ∧ values.get k = some v := by
  unfold visit
  constructor
  · intro h
    split at h
    · cases h
    · rename_i hn
      obtain ⟨w, hget, hw⟩ := Option.map_eq_some_iff.mp h
      cases hw
      exact ⟨toLex_inj.mp (Prod.ext (not_not.mp hn) rfl), hget⟩
  · rintro ⟨hkey, hget⟩
    rw [hkey]
    simp [hget]

/-- The walk gives the values of the visited entries in the order of the index. -/
theorem walkIndex_eq (index : KVStore (η ×ₗ κ) ι) (values : KVStore κ ν) (n : η) :
    walkIndex index values n = (index.entries.filterMap (visit values n)).map (·.2) := by
  rw [walkIndex, List.map_filterMap]
  congr 1
  funext e
  unfold visit
  split
  · rfl
  · cases values.get (ofLex e.1).2 <;> rfl

/-- The walk finds the values of the name, in the order of their keys. -/
theorem Indexes.walk_eq (h : Indexes name index values) (n : η) :
    walkIndex index values n = (values.entries.filter fun e => name e.2 = n).map (·.2) := by
  rw [walkIndex_eq]
  congr 1
  have : Std.Irrefl (fun a b : κ × ν => a.1 < b.1) := ⟨fun a => lt_irrefl a.1⟩
  have : Std.Antisymm (fun a b : κ × ν => a.1 < b.1) :=
    ⟨fun a b hab hba => absurd (lt_trans hab hba) (lt_irrefl a.1)⟩
  -- Both lists are in key order, so it is enough that they have the same members.
  refine List.Pairwise.eq_of_mem_iff ?_ (values.sorted.filter _) fun ⟨k, v⟩ => ?_
  -- the keys of the index have the name first, so for one name they are in the order of the rest
  · rw [List.pairwise_filterMap]
    refine index.sorted.imp fun {e e'} hlt b hb b' hb' => ?_
    obtain ⟨k, v⟩ := b
    obtain ⟨k', v'⟩ := b'
    rw [(visit_eq_some.mp hb).1, (visit_eq_some.mp hb').1, Prod.Lex.toLex_lt_toLex] at hlt
    rcases hlt with hlt | ⟨-, hlt⟩
    · exact absurd hlt (lt_irrefl _)
    · exact hlt
  · rw [List.mem_filterMap, List.mem_filter, KVStore.mem_entries, decide_eq_true_iff]
    constructor
    · rintro ⟨⟨key, i⟩, he, hvisit⟩
      obtain ⟨rfl, hget⟩ := visit_eq_some.mp hvisit
      have hentry : (index.get (toLex (n, k))).isSome := by
        rw [KVStore.mem_entries.mp he]
        rfl
      obtain ⟨w, hget', hname⟩ := (h n k).mp hentry
      rw [hget] at hget'
      cases hget'
      exact ⟨hget, hname⟩
    · rintro ⟨hget, hname⟩
      obtain ⟨i, hi⟩ := Option.isSome_iff_exists.mp ((h n k).mpr ⟨v, hget, hname⟩)
      exact ⟨(toLex (n, k), i), KVStore.mem_entries.mpr hi, visit_eq_some.mpr ⟨rfl, hget⟩⟩

end Index

end NilStore.Lib
