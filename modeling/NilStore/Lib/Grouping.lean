import Mathlib.Data.List.Induction
import Mathlib.Data.List.Nodup
import Mathlib.Data.Nat.Init
import Mathlib.Tactic.Common

/-!
# `NilStore.Lib.Grouping`: elements grouped by a key

A map that keeps its keys in the order of insertion is a list of pairs. `groupOn` collects the
elements of a list in such a map, each under its key. `groupOn_spec` says what stands in the map,
and `regroup_eq_iff` when the groups, one after the other, are the list in its own order: when no
key comes back after another one (`Together`).
-/

set_option autoImplicit false

namespace NilStore.Lib

variable {α κ γ : Type}

/-! ### Two parts of a list, one after the other -/

/-- The elements with a property and then the others are the list itself, seen through an injection,
when no element without the property stands before one with it. -/
theorem map_filter_append_eq_iff (f : α → γ) (p : α → Bool) {l : List α}
    (hinj : ∀ a ∈ l, ∀ b ∈ l, f a = f b → a = b) :
    (l.filter p).map f ++ (l.filter fun a => !p a).map f = l.map f ↔
      l.Pairwise fun a b => p b = true → p a = true := by
  induction l with
  | nil => simp
  | cons a l ih =>
      have hinj' : ∀ b ∈ l, ∀ c ∈ l, f b = f c → b = c := fun b hb c hc =>
        hinj b (List.mem_cons_of_mem _ hb) c (List.mem_cons_of_mem _ hc)
      specialize ih hinj'
      rw [List.pairwise_cons]
      cases ha : p a with
      | true => simp [ha, ih]
      | false =>
          -- the list begins with `a`, so there is no element with the property
          have hnone : (∀ b ∈ l, p b = true → false = true) ↔ l.filter p = [] := by
            simp [List.filter_eq_nil_iff]
          rw [hnone]
          constructor
          -- if the list does not change, the first element of the others would stand before `a`
          · intro h
            have hnil : l.filter p = [] := by
              cases hfilter : l.filter p with
              | nil => rfl
              | cons b rest =>
                  have hb : b ∈ l.filter p := by simp [hfilter]
                  obtain ⟨hbl, hpb⟩ := List.mem_filter.mp hb
                  have hfirst : f b = f a := by
                    have hhead := congrArg List.head? h
                    simpa [ha, hfilter] using hhead
                  have hab := hinj b (List.mem_cons_of_mem _ hbl) a List.mem_cons_self hfirst
                  rw [hab, ha] at hpb
                  cases hpb
            refine ⟨hnil, ih.mp ?_⟩
            simpa [ha, hnil] using h
          · rintro ⟨hnil, hpairs⟩
            have hrest := ih.mpr hpairs
            simpa [ha, hnil] using hrest

/-- The same for the elements themselves. -/
theorem filter_append_eq_iff (p : α → Bool) {l : List α} :
    l.filter p ++ l.filter (fun a => !p a) = l ↔ l.Pairwise fun a b => p b = true → p a = true := by
  have h := map_filter_append_eq_iff id p (l := l) fun a _ b _ hab => hab
  simpa only [List.map_id] using h

/-! ### A map in the order of insertion -/

variable [DecidableEq κ]

/-- Write the value of a key: in its place, or at the end when the key is new. -/
def mapUpdate (k : κ) (update : Option γ → γ) : List (κ × γ) → List (κ × γ)
  | [] => [(k, update none)]
  | (k', g) :: rest =>
      if k' = k then (k', update (some g)) :: rest else (k', g) :: mapUpdate k update rest

/-- Updating a map adds the key at its end if it is new and otherwise keeps the order of the
keys. -/
theorem keys_mapUpdate (k : κ) (update : Option γ → γ) (m : List (κ × γ)) :
    (mapUpdate k update m).map Prod.fst =
      if k ∈ m.map Prod.fst then m.map Prod.fst else m.map Prod.fst ++ [k] := by
  induction m with
  | nil => simp [mapUpdate]
  | cons entry rest ih =>
      obtain ⟨k', g⟩ := entry
      by_cases hk : k' = k
      · simp [mapUpdate, hk]
      · have hk' : ¬k = k' := fun h => hk h.symm
        simp only [mapUpdate, if_neg hk, List.map_cons, ih, List.mem_cons, hk', false_or]
        split <;> rfl

/-- What stands under a key afterwards. -/
theorem mem_mapUpdate {k k' : κ} {update : Option γ → γ} {m : List (κ × γ)} {g' : γ}
    (hnodup : (m.map Prod.fst).Nodup) (h : (k', g') ∈ mapUpdate k update m) :
    k' ≠ k ∧ (k', g') ∈ m ∨
      k' = k ∧ ((∃ g, (k, g) ∈ m ∧ g' = update (some g)) ∨
        k ∉ m.map Prod.fst ∧ g' = update none) := by
  induction m with
  | nil =>
      right
      simpa [mapUpdate] using h
  | cons entry rest ih =>
      obtain ⟨k₁, g₁⟩ := entry
      rw [List.map_cons, List.nodup_cons] at hnodup
      -- the entry that is updated, or one before it
      by_cases hk : k₁ = k
      · subst hk
        simp only [mapUpdate, if_pos, List.mem_cons, Prod.mk.injEq] at h
        rcases h with ⟨rfl, rfl⟩ | hrest
        · exact Or.inr ⟨rfl, Or.inl ⟨g₁, List.mem_cons_self, rfl⟩⟩
        · have hne : k' ≠ k₁ := by
            intro heq
            exact hnodup.1 (List.mem_map.mpr ⟨(k', g'), hrest, heq⟩)
          -- another entry has another key, since no key is there twice
          exact Or.inl ⟨hne, List.mem_cons_of_mem _ hrest⟩
      · simp only [mapUpdate, if_neg hk, List.mem_cons, Prod.mk.injEq] at h
        rcases h with ⟨rfl, rfl⟩ | hrest
        · exact Or.inl ⟨hk, List.mem_cons_self⟩
        · have hk' : ¬k = k₁ := fun h => hk h.symm
          rcases ih hnodup.2 hrest with ⟨hne, hmem⟩ | ⟨heq, hold | ⟨hnew, hg⟩⟩
          · exact Or.inl ⟨hne, List.mem_cons_of_mem _ hmem⟩
          · obtain ⟨g, hmem, hg⟩ := hold
            exact Or.inr ⟨heq, Or.inl ⟨g, List.mem_cons_of_mem _ hmem, hg⟩⟩
          · exact Or.inr ⟨heq, Or.inr ⟨by simp [hk', hnew], hg⟩⟩

/-! ### Groups -/

/-- The value of a group: its elements are added one by one, the first to nothing. -/
def collect (add : Option γ → α → γ) (l : List α) : Option γ :=
  l.foldl (fun g a => some (add g a)) none

/-- Collecting one more element adds it to what was collected. -/
theorem collect_concat (add : Option γ → α → γ) (l : List α) (a : α) :
    collect add (l ++ [a]) = some (add (collect add l) a) := by
  rw [collect, List.foldl_append]
  rfl

/-- Collect the elements of a list by their keys. The keys come in the order of their first
elements. -/
def groupOn (key : α → κ) (add : Option γ → α → γ) (l : List α) : List (κ × γ) :=
  l.foldl (fun groups a => mapUpdate (key a) (fun g => add g a) groups) []

/-- Grouping one more element updates the group of its key. -/
theorem groupOn_concat (key : α → κ) (add : Option γ → α → γ) (l : List α) (a : α) :
    groupOn key add (l ++ [a]) = mapUpdate (key a) (fun g => add g a) (groupOn key add l) := by
  rw [groupOn, List.foldl_append]
  rfl

/-- One more element stays only if the list does not have it yet. -/
theorem eraseDups_concat (l : List κ) (k : κ) :
    (l ++ [k]).eraseDups = if k ∈ l then l.eraseDups else l.eraseDups ++ [k] := by
  rw [List.eraseDups_append]
  by_cases hk : k ∈ l <;> simp [hk, List.removeAll, List.eraseDups_cons]

variable (key : α → κ) (add : Option γ → α → γ)

/-- The keys stand in the order in which they first come, and the value of a key is that of the
elements that have it. -/
theorem groupOn_spec (l : List α) :
    ((groupOn key add l).map Prod.fst).Nodup ∧
      (groupOn key add l).map Prod.fst = (l.map key).eraseDups ∧
      ∀ k g, (k, g) ∈ groupOn key add l → collect add (l.filter (key · = k)) = some g := by
  -- one more element updates the entry of its key, or adds one
  induction l using List.reverseRecOn with
  | nil => exact ⟨List.nodup_nil, rfl, fun k g h => by cases h⟩
  | append_singleton l a ih =>
      obtain ⟨hnodup, hkeys, hvalue⟩ := ih
      have hmem : key a ∈ (groupOn key add l).map Prod.fst ↔ key a ∈ l.map key := by
        rw [hkeys, List.mem_eraseDups]
      rw [groupOn_concat, keys_mapUpdate, List.map_append, List.map_singleton, eraseDups_concat]
      refine ⟨?_, ?_, ?_⟩
      · split
        · exact hnodup
        · rename_i hnew
          exact List.nodup_append.mpr ⟨hnodup, List.nodup_singleton _, by
            intro k hk k' hk' heq
            rw [List.mem_singleton.mp hk'] at heq
            exact hnew (heq ▸ hk)⟩
      · simp only [hkeys, List.mem_eraseDups]
      · intro k g hg
        rw [List.filter_append]
        rcases mem_mapUpdate hnodup hg with ⟨hne, hold⟩ | ⟨rfl, hgroup⟩
        · have hsingle : [a].filter (key · = k) = [] := by simp [Ne.symm hne]
          rw [hsingle, List.append_nil]
          exact hvalue k g hold
        -- the element has this key: it is added to those that have it already
        · have hsingle : [a].filter (key · = key a) = [a] := by simp
          rw [hsingle, collect_concat]
          rcases hgroup with ⟨old, hold, rfl⟩ | ⟨hnew, rfl⟩
          · rw [hvalue _ old hold]
          · have hnone : l.filter (key · = key a) = [] := by
              rw [List.filter_eq_nil_iff]
              intro b hb hkey
              rw [hmem] at hnew
              exact hnew (List.mem_map.mpr ⟨b, hb, of_decide_eq_true hkey⟩)
            rw [hnone]
            rfl

/-- Every key of the list has a group. -/
theorem mem_keys_groupOn (l : List α) {k : κ} :
    k ∈ (groupOn key add l).map Prod.fst ↔ k ∈ l.map key := by
  rw [(groupOn_spec key add l).2.1, List.mem_eraseDups]

/-! ### The order of the groups -/

/-- No key comes back after another one. -/
def Together (keys : List κ) : Prop := ∀ p q, [p, q, p].Sublist keys → p = q

/-- The elements of a list, key by key. -/
def regroup (l : List α) : List α := (l.map key).eraseDups.flatMap fun k => l.filter (key · = k)

variable {key}

/-- Regrouping invents no element. -/
theorem mem_of_mem_regroup {l : List α} {a : α} (h : a ∈ regroup key l) : a ∈ l := by
  obtain ⟨k, -, ha⟩ := List.mem_flatMap.mp h
  exact List.mem_of_mem_filter ha

/-- Regrouping takes the first element, then the others of its key, then the rest regrouped. -/
theorem regroup_cons (a : α) (l : List α) :
    regroup key (a :: l) =
      a :: (l.filter (key · = key a) ++
        regroup key (l.filter fun b => !decide (key b = key a))) := by
  have hkeys : ((a :: l).map key).eraseDups =
      key a :: ((l.filter fun b => !decide (key b = key a)).map key).eraseDups := by
    rw [List.map_cons, List.eraseDups_cons, List.filter_map]
    rfl
  have hrest : ∀ k ∈ ((l.filter fun b => !decide (key b = key a)).map key).eraseDups,
      (a :: l).filter (key · = k) =
        (l.filter fun b => !decide (key b = key a)).filter (key · = k) := by
    intro k hk
    obtain ⟨b, hb, rfl⟩ := List.mem_map.mp (List.mem_eraseDups.mp hk)
    have hne : ¬key b = key a := by simpa using List.of_mem_filter hb
    rw [List.filter_cons_of_neg (by simpa using Ne.symm hne), List.filter_filter]
    refine List.filter_congr fun c _ => ?_
    by_cases hc : key c = key b <;> simp [hc, hne]
  rw [regroup, hkeys, List.flatMap_cons, List.filter_cons_of_pos (by simp), List.cons_append]
  congr 2
  rw [regroup, List.flatMap_def, List.flatMap_def, List.map_congr_left hrest]

/-- Regrouping only reorders. -/
theorem regroup_perm (l : List α) : (regroup key l).Perm l := by
  induction hlength : l.length using Nat.strong_induction_on generalizing l with
  | _ n ih =>
      cases l with
      | nil => exact List.Perm.nil
      | cons a l =>
          have hshort : (l.filter fun b => !decide (key b = key a)).length < n := by
            have hle := List.length_filter_le (fun b => !decide (key b = key a)) l
            rw [List.length_cons] at hlength
            omega
          have hrest := ih _ hshort (l.filter fun b => !decide (key b = key a)) rfl
          rw [regroup_cons]
          exact ((hrest.append_left _).trans (List.filter_append_perm _ _)).cons a

/-- Equal keys stand together exactly when the copies of the first key lead the list and the others
stand together without it. -/
theorem together_cons (k : κ) (keys : List κ) :
    Together (k :: keys) ↔
      (keys.Pairwise fun p q => decide (q = k) = true → decide (p = k) = true) ∧
        Together (keys.filter fun p => !decide (p = k)) := by
  simp only [decide_eq_true_eq]
  constructor
  · intro h
    refine ⟨List.pairwise_iff_forall_sublist.mpr ?_, ?_⟩
    -- a copy of the first key behind another key would split it
    · rintro p q hsub rfl
      exact (h q p (hsub.cons_cons q)).symm
    · intro p q hsub
      exact h p q ((hsub.trans List.filter_sublist).cons k)
  · rintro ⟨hpairs, hrest⟩ p q hsub
    rw [List.pairwise_iff_forall_sublist] at hpairs
    -- the first of the three is the first key, or all of them stand in the list behind it
    cases hsub with
    | cons_cons _ htail => exact (hpairs htail rfl).symm
    | cons _ hall =>
        by_cases hp : p = k
        · rw [hp] at hall ⊢
          exact (hpairs ((List.sublist_cons_self _ _).trans hall) rfl).symm
        · by_cases hq : q = k
          · have hfront : [p, q].Sublist keys :=
              ((List.sublist_append_left [p, q] [p]).trans hall)
            exact (hp (hpairs hfront hq)).elim
          · -- none of the three is the first key, so they stand in the rest
            refine hrest p q ?_
            have hfilter := hall.filter fun p => !decide (p = k)
            simpa [hp, hq] using hfilter

/-- Key by key the list is in its own order exactly when no key comes back after another one. -/
theorem regroup_eq_iff (l : List α) : regroup key l = l ↔ Together (l.map key) := by
  -- the induction is on the length: without the first key the list is shorter
  induction hlength : l.length using Nat.strong_induction_on generalizing l with
  | _ n ih =>
      cases l with
      | nil => exact iff_of_true rfl fun p q h => by cases h
      | cons a l =>
          have hshort : (l.filter fun b => !decide (key b = key a)).length < n := by
            have hle := List.length_filter_le (fun b => !decide (key b = key a)) l
            rw [List.length_cons] at hlength
            omega
          have hrest := ih _ hshort (l.filter fun b => !decide (key b = key a)) rfl
          have hmap : (l.map key).filter (fun p => !decide (p = key a)) =
              (l.filter fun b => !decide (key b = key a)).map key := List.filter_map
          rw [List.map_cons, together_cons, hmap, ← hrest, List.pairwise_map,
            ← filter_append_eq_iff (fun b => decide (key b = key a)), regroup_cons,
            List.cons_inj_right]
          constructor
          · intro h
            have hregroup : regroup key (l.filter fun b => !decide (key b = key a)) =
                l.filter fun b => !decide (key b = key a) := by
              -- without the elements of the first key, both lists are those of the other keys
              have hfilter := congrArg (List.filter fun b => !decide (key b = key a)) h
              rw [List.filter_append, List.filter_filter] at hfilter
              have hnone : (l.filter fun b => (!decide (key b = key a)) && decide (key b = key a)) =
                  [] := by
                rw [List.filter_eq_nil_iff]
                intro b _
                simp
              have hall : (regroup key (l.filter fun b => !decide (key b = key a))).filter
                  (fun b => !decide (key b = key a)) =
                    regroup key (l.filter fun b => !decide (key b = key a)) := by
                rw [List.filter_eq_self]
                intro b hb
                exact (List.mem_filter.mp (mem_of_mem_regroup hb)).2
              rwa [hnone, List.nil_append, hall] at hfilter
            exact ⟨by rwa [hregroup] at h, hregroup⟩
          · rintro ⟨hparts, hregroup⟩
            rwa [hregroup]

instance (keys : List κ) : Decidable (Together keys) :=
  decidable_of_iff (regroup id keys = keys) (by rw [regroup_eq_iff, List.map_id])

omit [DecidableEq κ] in
/-- One key for all. -/
theorem together_of_forall_eq {keys : List κ} {k : κ} (h : ∀ p ∈ keys, p = k) : Together keys := by
  intro p q hsub
  rw [h p (hsub.subset (by simp)), h q (hsub.subset (by simp))]

end NilStore.Lib
