/-!
# Sorted maps

Maps from text to values that hold their keys in ascending order, character by character in order
of code point: the records of a log and the names in a JSON object.
-/

namespace Runbook

/-- A map from text to values with ascending keys. -/
structure SortedMap (α : Type) where
  /-- The keys with their values, in ascending order. -/
  entries : List (String × α)
  /-- Each key is less than those after it. -/
  ascending : (entries.map Prod.fst).Pairwise (· < ·)

namespace SortedMap

variable {α : Type}

/-- Two maps with the same entries are equal. -/
@[ext]
theorem ext {m n : SortedMap α} (h : m.entries = n.entries) : m = n := by
  cases m; cases n; cases h; rfl

/-- The map without entries. -/
def empty : SortedMap α :=
  ⟨[], by simp⟩

instance : EmptyCollection (SortedMap α) := ⟨empty⟩

instance : Inhabited (SortedMap α) := ⟨empty⟩

/-- The number of entries. -/
def size (m : SortedMap α) : Nat :=
  m.entries.length

/-- The keys, in ascending order. -/
def keys (m : SortedMap α) : List String :=
  m.entries.map Prod.fst

/-- The value under a key. -/
def get? (m : SortedMap α) (key : String) : Option α :=
  m.entries.lookup key

/-- The entries with `value` under `key`, at its place in the order. -/
def insertEntry (key : String) (value : α) : List (String × α) → List (String × α)
  | [] => [(key, value)]
  | (k, v) :: rest =>
    if key = k then (k, value) :: rest
    else if key < k then (key, value) :: (k, v) :: rest
    else (k, v) :: insertEntry key value rest

/-- A key of the entries after an insertion is the inserted one or an old one. -/
theorem mem_map_fst_insertEntry {key k : String} {value : α} {entries : List (String × α)} :
    k ∈ (insertEntry key value entries).map Prod.fst ↔ k = key ∨ k ∈ entries.map Prod.fst := by
  induction entries with
  | nil => simp [insertEntry]
  | cons entry rest ih =>
    obtain ⟨j, v⟩ := entry
    rw [insertEntry]
    split
    · rename_i h; subst h; simp
    · split
      · simp
      · rw [List.map_cons, List.mem_cons, ih, List.map_cons, List.mem_cons]
        exact or_left_comm

/-- Two texts that are neither equal nor in ascending order are in descending order. -/
theorem lt_of_ne_of_not_lt {a b : String} (hne : a ≠ b) (h : ¬a < b) : b < a :=
  String.not_le.mp fun hab => hne (String.le_antisymm hab (String.not_lt.mp h))

/-- Insertion keeps the keys in ascending order. -/
theorem pairwise_insertEntry {key : String} {value : α} {entries : List (String × α)}
    (h : (entries.map Prod.fst).Pairwise (· < ·)) :
    ((insertEntry key value entries).map Prod.fst).Pairwise (· < ·) := by
  induction entries with
  | nil => simp [insertEntry]
  | cons entry rest ih =>
    obtain ⟨k, v⟩ := entry
    rw [List.map_cons, List.pairwise_cons] at h
    rw [insertEntry]
    split
    · exact List.pairwise_cons.mpr h
    · rename_i hne
      split
      · rename_i hlt
        -- The new key is less than the first one, and so than all of them.
        refine List.pairwise_cons.mpr ⟨fun j hj => ?_, List.pairwise_cons.mpr h⟩
        rcases List.mem_cons.mp hj with rfl | hj
        · exact hlt
        · exact String.lt_trans hlt (h.1 j hj)
      · rename_i hlt
        refine List.pairwise_cons.mpr ⟨fun j hj => ?_, ih h.2⟩
        -- The new key comes later, and the first key is less than it.
        rcases mem_map_fst_insertEntry.mp hj with rfl | hj
        · exact lt_of_ne_of_not_lt hne hlt
        · exact h.1 j hj

/-- The map with `value` under `key`. -/
def insert (m : SortedMap α) (key : String) (value : α) : SortedMap α :=
  ⟨insertEntry key value m.entries, pairwise_insertEntry m.ascending⟩

/-- The map without the entry under `key`. -/
def erase (m : SortedMap α) (key : String) : SortedMap α where
  entries := m.entries.filter fun entry => entry.1 ≠ key
  ascending := List.pairwise_map.mpr ((List.pairwise_map.mp m.ascending).filter _)

/-- The map of the given entries; of several under one key the last one counts. -/
def ofList (entries : List (String × α)) : SortedMap α :=
  entries.foldl (fun m entry => m.insert entry.1 entry.2) empty

/-- Insertion changes what is found under its key only. -/
theorem lookup_insertEntry (key k : String) (value : α) (entries : List (String × α)) :
    (insertEntry key value entries).lookup k =
      if k = key then some value else entries.lookup k := by
  have hbeq (j : String) : (k == j) = decide (k = j) := rfl
  induction entries with
  | nil => by_cases h : k = key <;> simp [insertEntry, List.lookup_cons, hbeq, h]
  | cons entry rest ih =>
    obtain ⟨j, v⟩ := entry
    rw [insertEntry]
    split
    next hj => by_cases hk : k = key <;> simp [List.lookup_cons, hbeq, hj.symm, hk]
    next hj =>
      split
      next => by_cases hk : k = key <;> simp [List.lookup_cons, hbeq, hk]
      next =>
        rw [List.lookup_cons, List.lookup_cons, ih]
        by_cases hk : k = j <;> simp [hbeq, hk, Ne.symm hj]

/-- What is found after an insertion. -/
theorem get?_insert (m : SortedMap α) (key k : String) (value : α) :
    (m.insert key value).get? k = if k = key then some value else m.get? k :=
  lookup_insertEntry key k value m.entries

@[simp]
theorem entries_empty : (empty : SortedMap α).entries = [] := rfl

@[simp]
theorem entries_insert (m : SortedMap α) (key : String) (value : α) :
    (m.insert key value).entries = insertEntry key value m.entries := rfl

end SortedMap

end Runbook
