import Mathlib.Data.List.Nodup
import Runbook.SortedMap

/-!
# Sorted maps as functions

A sorted map is told by what is found under each key, as its keys are in order. What is found after
a change is told by what was found before.

## Main definitions

* `SortedMap.map`: the map with every value replaced by its image.

## Main results

* `SortedMap.ext_get?`: maps in which the same is found are equal;
* `SortedMap.get?_erase`, `SortedMap.get?_map`, `SortedMap.get?_ofList`: what is found in a map that
  was made from others;
* `SortedMap.perm_entries_insert`: a new key adds one entry.
-/

namespace Runbook.SortedMap

variable {α β : Type}

/-- The keys are distinct. -/
theorem nodup_keys (m : SortedMap α) : m.keys.Nodup :=
  m.ascending.imp fun h => String.ne_of_lt h

/-- Under distinct keys, what is found is what there is. -/
theorem lookup_eq_some_iff {entries : List (String × α)} (h : (entries.map Prod.fst).Nodup)
    {key : String} {value : α} : entries.lookup key = some value ↔ (key, value) ∈ entries := by
  induction entries with
  | nil => simp
  | cons entry rest ih =>
    obtain ⟨k, v⟩ := entry
    rw [List.map_cons, List.nodup_cons] at h
    rw [List.lookup_cons, List.mem_cons, Prod.mk.injEq]
    by_cases hk : key = k
    · -- The key stands in front, and so nowhere else.
      subst hk
      have hrest : (key, value) ∉ rest := fun hmem =>
        h.1 (List.mem_map.mpr ⟨_, hmem, rfl⟩)
      simp [hrest, eq_comm]
    · rw [beq_false_of_ne hk, ih h.2]
      simp [hk]

theorem get?_eq_some_iff {m : SortedMap α} {key : String} {value : α} :
    m.get? key = some value ↔ (key, value) ∈ m.entries :=
  lookup_eq_some_iff m.nodup_keys

/-- The keys are those under which something is found. -/
theorem mem_keys_iff {m : SortedMap α} {key : String} :
    key ∈ m.keys ↔ ∃ value, m.get? key = some value := by
  simp [keys, get?_eq_some_iff]

/-- Maps in which the same is found are equal. -/
theorem ext_get? {m n : SortedMap α} (h : ∀ key, m.get? key = n.get? key) : m = n := by
  have hmem (entry : String × α) : entry ∈ m.entries ↔ entry ∈ n.entries := by
    rw [← get?_eq_some_iff, ← get?_eq_some_iff, h]
  have hperm : m.entries.Perm n.entries :=
    (List.perm_ext_iff_of_nodup m.nodup_keys.of_map n.nodup_keys.of_map).mpr hmem
  have hm : m.entries.Pairwise fun a b => a.1 < b.1 := List.pairwise_map.mp m.ascending
  have hn : n.entries.Pairwise fun a b => a.1 < b.1 := List.pairwise_map.mp n.ascending
  -- Both lists have the same entries in the order of their keys.
  refine ext (hperm.eq_of_pairwise (fun a b _ _ hab hba => ?_) hm hn)
  exact absurd hba (String.lt_asymm hab)

@[simp]
theorem get?_empty (key : String) : (empty : SortedMap α).get? key = none := rfl

/-- What is found after a key was removed. -/
theorem get?_erase (m : SortedMap α) (key k : String) :
    (m.erase key).get? k = if k = key then none else m.get? k := by
  refine Option.ext fun value => ?_
  split
  next hk => simp [get?_eq_some_iff, erase, hk]
  next hk => simp [get?_eq_some_iff, erase, hk]

/-- Removing a key under which there is nothing changes nothing. -/
theorem erase_of_get?_eq_none {m : SortedMap α} {key : String} (h : m.get? key = none) :
    m.erase key = m := by
  refine ext_get? fun k => ?_
  rw [get?_erase]
  split
  next hk => rw [hk, h]
  next => rfl

/-- What is found in a map made of entries under distinct keys. -/
theorem get?_ofList {entries : List (String × α)} (h : (entries.map Prod.fst).Nodup)
    (key : String) : (ofList entries).get? key = entries.lookup key := by
  have hfold (m : SortedMap α) :
      (entries.foldl (fun m entry => m.insert entry.1 entry.2) m).get? key =
        (entries.lookup key).or (m.get? key) := by
    induction entries generalizing m with
    | nil => rfl
    | cons entry rest ih =>
      rw [List.map_cons, List.nodup_cons] at h
      rw [List.foldl_cons, ih h.2, get?_insert, List.lookup_cons]
      by_cases hk : key = entry.1
      · -- Nothing behind the first entry is under its key.
        have hnone : rest.lookup key = none := by
          refine List.lookup_eq_none_iff.mpr fun other hother => ?_
          have : key ≠ other.1 := fun hsame => h.1 (hk ▸ hsame ▸ List.mem_map_of_mem hother)
          simpa using this
        simp [hk, hk ▸ hnone]
      · rw [beq_false_of_ne hk, if_neg hk]
  rw [ofList, hfold, get?_empty, Option.or_none]

/-- A map is made of its entries. -/
theorem ofList_entries (m : SortedMap α) : ofList m.entries = m :=
  ext_get? fun key => get?_ofList m.nodup_keys key

/-- The keys of a map of entries are those of the entries. -/
theorem mem_keys_ofList {entries : List (String × α)} {key : String} :
    key ∈ (ofList entries).keys ↔ ∃ entry ∈ entries, entry.1 = key := by
  have hfold (m : SortedMap α) :
      key ∈ (entries.foldl (fun m entry => m.insert entry.1 entry.2) m).keys ↔
        (∃ entry ∈ entries, entry.1 = key) ∨ key ∈ m.keys := by
    induction entries generalizing m with
    | nil => simp
    | cons entry rest ih =>
      have hinsert : key ∈ (m.insert entry.1 entry.2).keys ↔ entry.1 = key ∨ key ∈ m.keys := by
        rw [keys, entries_insert, mem_map_fst_insertEntry, eq_comm, keys]
      rw [List.foldl_cons, ih, hinsert, List.exists_mem_cons_iff, or_left_comm, or_assoc]
  rw [ofList, hfold]
  exact or_iff_left List.not_mem_nil

/-- With a new key there is one more entry, and the others are as before. -/
theorem perm_entries_insert {m : SortedMap α} {key : String} (h : m.get? key = none) (value : α) :
    (m.insert key value).entries.Perm ((key, value) :: m.entries) := by
  have hinsert {entries : List (String × α)} (h : entries.lookup key = none) :
      (insertEntry key value entries).Perm ((key, value) :: entries) := by
    induction entries with
    | nil => exact .refl _
    | cons entry rest ih =>
      obtain ⟨k, v⟩ := entry
      by_cases hk : key = k
      · rw [hk, List.lookup_cons_self] at h
        cases h
      · rw [List.lookup_cons, beq_false_of_ne hk] at h
        rw [insertEntry, if_neg hk]
        split
        · exact .refl _
        · exact ((ih h).cons (k, v)).trans (.swap _ _ _)
  exact hinsert h

/-- The map with every value replaced by its image. -/
def map (f : α → β) (m : SortedMap α) : SortedMap β where
  entries := m.entries.map fun entry => (entry.1, f entry.2)
  ascending := by simpa [Function.comp_def] using m.ascending

/-- What is found is the image of what was found. -/
theorem get?_map (f : α → β) (m : SortedMap α) (key : String) :
    (m.map f).get? key = (m.get? key).map f := by
  refine Option.ext fun value => ?_
  simp [get?_eq_some_iff, map, Option.map_eq_some_iff]

/-- Inserting the image of a value. -/
theorem map_insert (f : α → β) (m : SortedMap α) (key : String) (value : α) :
    (m.insert key value).map f = (m.map f).insert key (f value) := by
  refine ext_get? fun k => ?_
  rw [get?_map, get?_insert, get?_insert, get?_map]
  split <;> rfl

/-- Removing the image of a value. -/
theorem map_erase (f : α → β) (m : SortedMap α) (key : String) :
    (m.erase key).map f = (m.map f).erase key := by
  refine ext_get? fun k => ?_
  rw [get?_map, get?_erase, get?_erase, get?_map]
  split <;> rfl

end Runbook.SortedMap
