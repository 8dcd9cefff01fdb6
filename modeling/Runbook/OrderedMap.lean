/-!
# Ordered maps

Maps from text to values that keep the order in which their keys were first inserted: the
parameters of a command, the fillers of a run, the counts of a report. Inserting under a key that
is present replaces its value in place, so keys stay pairwise distinct.
-/

namespace Runbook

/-- A map from text to values in order of first insertion. -/
structure OrderedMap (α : Type) where
  /-- The keys with their values, in order. -/
  entries : List (String × α)
  /-- No key occurs twice. -/
  distinct : (entries.map Prod.fst).Nodup
deriving DecidableEq

namespace OrderedMap

variable {α β ε : Type}

/-- Two maps with the same entries in the same order are equal. -/
@[ext]
theorem ext {m n : OrderedMap α} (h : m.entries = n.entries) : m = n := by
  cases m; cases n; cases h; rfl

/-- The map without entries. -/
def empty : OrderedMap α :=
  ⟨[], by simp⟩

instance : EmptyCollection (OrderedMap α) := ⟨empty⟩

instance : Inhabited (OrderedMap α) := ⟨empty⟩

/-- The keys, in order. -/
def keys (m : OrderedMap α) : List String :=
  m.entries.map Prod.fst

/-- The values, in the order of their keys. -/
def values (m : OrderedMap α) : List α :=
  m.entries.map Prod.snd

/-- The value under a key. -/
def get? (m : OrderedMap α) (key : String) : Option α :=
  m.entries.lookup key

/-- Whether there is a value under a key. -/
def contains (m : OrderedMap α) (key : String) : Bool :=
  (m.get? key).isSome

/-- The entries with `value` under `key`: in place of the old value, or at the end. -/
def insertEntry (key : String) (value : α) : List (String × α) → List (String × α)
  | [] => [(key, value)]
  | (k, v) :: rest =>
    if k = key then (k, value) :: rest else (k, v) :: insertEntry key value rest

/-- Inserting adds a new key at the end and moves no other. -/
theorem map_fst_insertEntry (key : String) (value : α) (entries : List (String × α)) :
    (insertEntry key value entries).map Prod.fst =
      if key ∈ entries.map Prod.fst then entries.map Prod.fst
      else entries.map Prod.fst ++ [key] := by
  induction entries with
  | nil => simp [insertEntry]
  | cons entry rest ih =>
    obtain ⟨k, v⟩ := entry
    by_cases h : k = key
    · simp [insertEntry, h]
    · have h' : ¬key = k := fun e => h e.symm
      rw [insertEntry, if_neg h]
      by_cases hmem : key ∈ rest.map Prod.fst
      · rw [List.map_cons, ih, if_pos hmem, if_pos (by simp [hmem])]; rfl
      · rw [List.map_cons, ih, if_neg hmem, if_neg (by simp [h', hmem])]; rfl

/-- The map with `value` under `key`; a key that is present keeps its place. -/
def insert (m : OrderedMap α) (key : String) (value : α) : OrderedMap α where
  entries := insertEntry key value m.entries
  distinct := by
    rw [map_fst_insertEntry]
    split
    · exact m.distinct
    · rename_i h
      rw [List.nodup_append]
      refine ⟨m.distinct, by simp, ?_⟩
      rintro a ha b hb rfl
      exact h (List.mem_singleton.mp hb ▸ ha)

/-- The map that holds the given entries, inserted from left to right. -/
def ofList (entries : List (String × α)) : OrderedMap α :=
  entries.foldl (fun m entry => m.insert entry.1 entry.2) empty

/-- The map with every value replaced by its image. -/
def map (f : α → β) (m : OrderedMap α) : OrderedMap β where
  entries := m.entries.map fun entry => (entry.1, f entry.2)
  distinct := by
    have h : (m.entries.map fun entry => (entry.1, f entry.2)).map Prod.fst =
        m.entries.map Prod.fst := by simp
    rw [h]
    exact m.distinct

/-- The images of the values in order, or the first failure. -/
def traverseEntries (f : α → Except ε β) : List (String × α) → Except ε (List (String × β))
  | [] => .ok []
  | (key, value) :: rest =>
    match f value with
    | .error e => .error e
    | .ok image =>
      match traverseEntries f rest with
      | .error e => .error e
      | .ok images => .ok ((key, image) :: images)

/-- Images stand under the keys of their values. -/
theorem map_fst_of_traverseEntries {f : α → Except ε β} {entries : List (String × α)}
    {images : List (String × β)} (h : traverseEntries f entries = .ok images) :
    images.map Prod.fst = entries.map Prod.fst := by
  induction entries generalizing images with
  | nil => cases h; rfl
  | cons entry rest ih =>
    rw [traverseEntries] at h
    split at h
    · cases h
    · split at h
      · cases h
      · rename_i hrest
        cases h
        simp [ih hrest]

/-- The map with every value replaced by its image, or the first failure in key order. -/
def traverse (f : α → Except ε β) (m : OrderedMap α) : Except ε (OrderedMap β) :=
  match h : traverseEntries f m.entries with
  | .error e => .error e
  | .ok images => .ok ⟨images, map_fst_of_traverseEntries h ▸ m.distinct⟩

/-- The entries of the image are the images of the entries. -/
theorem traverse_eq_ok_iff {f : α → Except ε β} {m : OrderedMap α} {n : OrderedMap β} :
    m.traverse f = .ok n ↔ traverseEntries f m.entries = .ok n.entries := by
  rw [traverse]
  split
  next e h => simp [h]
  next images h =>
    constructor
    · intro heq
      cases heq
      exact h
    · intro heq
      exact congrArg Except.ok (ext (Except.ok.inj (h.symm.trans heq)))

/-- Insertion changes what is found under its key only. -/
theorem lookup_insertEntry (key k : String) (value : α) (entries : List (String × α)) :
    (insertEntry key value entries).lookup k =
      if k = key then some value else entries.lookup k := by
  have hbeq (j : String) : (k == j) = decide (k = j) := rfl
  induction entries with
  | nil => by_cases h : k = key <;> simp [insertEntry, List.lookup_cons, hbeq, h]
  | cons entry rest ih =>
    obtain ⟨j, v⟩ := entry
    -- The entry in front is the one that is replaced, or stays and is looked at first.
    by_cases hj : j = key
    · by_cases hk : k = key <;> simp [insertEntry, List.lookup_cons, hbeq, hj, hk]
    · rw [insertEntry, if_neg hj, List.lookup_cons, List.lookup_cons, ih]
      by_cases hk : k = j <;> simp [hbeq, hk, hj]

/-- A new key is put at the end. -/
theorem insertEntry_of_not_mem {key : String} {value : α} {entries : List (String × α)}
    (h : key ∉ entries.map Prod.fst) :
    insertEntry key value entries = entries ++ [(key, value)] := by
  induction entries with
  | nil => rfl
  | cons entry rest ih =>
    obtain ⟨k, v⟩ := entry
    simp only [List.map_cons, List.mem_cons, not_or] at h
    have hne : ¬k = key := fun heq => h.1 heq.symm
    rw [insertEntry, if_neg hne, ih h.2, List.cons_append]

/-- What is found after an insertion. -/
theorem get?_insert (m : OrderedMap α) (key k : String) (value : α) :
    (m.insert key value).get? k = if k = key then some value else m.get? k :=
  lookup_insertEntry key k value m.entries

/-- What is found is one of the values. -/
theorem mem_values_of_get? {m : OrderedMap α} {key : String} {value : α}
    (h : m.get? key = some value) : value ∈ m.values := by
  obtain ⟨before, after, hsplit, -⟩ := List.lookup_eq_some_iff.mp h
  rw [values, hsplit]
  simp

/-- What is in a list of entries after an insertion is the new value or an old one. -/
theorem mem_map_snd_insertEntry {key : String} {value v : α} {entries : List (String × α)}
    (h : v ∈ (insertEntry key value entries).map Prod.snd) :
    v = value ∨ v ∈ entries.map Prod.snd := by
  induction entries with
  | nil => exact .inl (List.mem_singleton.mp h)
  | cons entry rest ih =>
    obtain ⟨k, old⟩ := entry
    rw [insertEntry] at h
    split at h
    · exact (List.mem_cons.mp h).imp_right (List.mem_cons_of_mem old)
    · rcases List.mem_cons.mp h with rfl | hrest
      · exact .inr List.mem_cons_self
      · exact (ih hrest).imp_right (List.mem_cons_of_mem old)

/-- The values of a map of entries are among the values of the entries. -/
theorem mem_of_mem_values_ofList {entries : List (String × α)} {v : α}
    (h : v ∈ (ofList entries).values) : ∃ entry ∈ entries, entry.2 = v := by
  -- The fold is taken from any map, as each step goes on with another one.
  have hfold (m : OrderedMap α)
      (hv : v ∈ (entries.foldl (fun m entry => m.insert entry.1 entry.2) m).values) :
      v ∈ entries.map Prod.snd ∨ v ∈ m.values := by
    clear h
    induction entries generalizing m with
    | nil => exact .inr hv
    | cons entry rest ih =>
      rcases ih _ hv with hrest | hinsert
      · exact .inl (List.mem_cons_of_mem _ hrest)
      · rcases mem_map_snd_insertEntry hinsert with rfl | hold
        · exact .inl List.mem_cons_self
        · exact .inr hold
  exact List.mem_map.mp ((hfold empty h).resolve_right List.not_mem_nil)

/-- There is a value under each key and under no other text. -/
theorem contains_eq_false_iff {m : OrderedMap α} {key : String} :
    m.contains key = false ↔ key ∉ m.keys := by
  simp only [contains, get?, Option.isSome_eq_false_iff, Option.isNone_iff_eq_none,
    List.lookup_eq_none_iff, keys, List.mem_map, not_exists, not_and, bne_iff_ne, ne_eq]
  exact forall₂_congr fun _ _ => ⟨fun h heq => h heq.symm, fun h heq => h heq.symm⟩

/-- The entries of a map make up that map. -/
theorem ofList_entries (m : OrderedMap α) : ofList m.entries = m := by
  -- Entries are put behind those that were seen; no key of theirs is among the seen ones.
  have key (entries : List (String × α)) (seen : OrderedMap α)
      (h : ((seen.entries ++ entries).map Prod.fst).Nodup) :
      (entries.foldl (fun m entry => m.insert entry.1 entry.2) seen).entries =
        seen.entries ++ entries := by
    induction entries generalizing seen with
    | nil => simp
    | cons entry rest ih =>
      have hnew : entry.1 ∉ seen.entries.map Prod.fst := by
        rw [List.map_append, List.nodup_append] at h
        exact fun hmem => h.2.2 _ hmem _ (List.mem_map_of_mem List.mem_cons_self) rfl
      have hinsert : (seen.insert entry.1 entry.2).entries = seen.entries ++ [entry] :=
        insertEntry_of_not_mem hnew
      rw [List.foldl_cons, ih _ (by rw [hinsert]; simpa using h), hinsert]
      simp
  exact ext (key m.entries empty (by simpa [empty] using m.distinct))

@[simp]
theorem entries_empty : (empty : OrderedMap α).entries = [] := rfl

@[simp]
theorem entries_insert (m : OrderedMap α) (key : String) (value : α) :
    (m.insert key value).entries = insertEntry key value m.entries := rfl

@[simp]
theorem entries_map (f : α → β) (m : OrderedMap α) :
    (m.map f).entries = m.entries.map fun entry => (entry.1, f entry.2) := rfl

/-- Mapping keeps the keys and their order. -/
@[simp]
theorem keys_map (f : α → β) (m : OrderedMap α) : (m.map f).keys = m.keys := by
  simp [keys]

@[simp]
theorem values_map (f : α → β) (m : OrderedMap α) : (m.map f).values = m.values.map f := by
  simp [values]

/-- Functions that agree on the values of a map have the same image. -/
theorem map_congr {f g : α → β} {m : OrderedMap α} (h : ∀ v ∈ m.values, f v = g v) :
    m.map f = m.map g := by
  refine ext (List.map_congr_left fun entry hentry => ?_)
  rw [h entry.2 (List.mem_map_of_mem hentry)]

@[simp]
theorem map_id (m : OrderedMap α) : m.map id = m :=
  ext (List.map_id _)

/-- A map is traversed as its entries are. -/
theorem map_entries_traverse (f : α → Except ε β) (m : OrderedMap α) :
    (m.traverse f).map entries = traverseEntries f m.entries := by
  rw [traverse]
  split
  next e h => exact h.symm
  next images h => exact h.symm

/-- A map of images is traversed as the map is, if each image is treated as its value. -/
theorem traverse_map {γ : Type} {f : β → Except ε γ} {f' : α → Except ε γ} {g : α → β}
    {m : OrderedMap α} (h : ∀ v ∈ m.values, f (g v) = f' v) :
    (m.map g).traverse f = m.traverse f' := by
  have hentries : traverseEntries f (m.map g).entries = traverseEntries f' m.entries := by
    rw [entries_map]
    rw [values] at h
    generalize m.entries = entries at h
    induction entries with
    | nil => rfl
    | cons entry rest ih =>
      rw [List.map_cons, List.forall_mem_cons] at h
      rw [List.map_cons, traverseEntries, traverseEntries, h.1, ih h.2]
  rw [← map_entries_traverse, ← map_entries_traverse] at hentries
  -- Maps with the same entries are equal.
  cases hleft : (m.map g).traverse f <;> cases hright : m.traverse f' <;>
    simp_all [Except.map, OrderedMap.ext_iff]

/-- Where every value has an image the map has one. -/
theorem traverse_eq_ok_of_forall {f : α → Except ε β} {g : α → β} {m : OrderedMap α}
    (h : ∀ v ∈ m.values, f v = .ok (g v)) : m.traverse f = .ok (m.map g) := by
  rw [traverse_eq_ok_iff, entries_map]
  rw [values] at h
  -- The entries are a list like any other from here on.
  generalize m.entries = entries at h
  induction entries with
  | nil => rfl
  | cons entry rest ih =>
    rw [List.map_cons, List.forall_mem_cons] at h
    rw [traverseEntries, h.1, ih h.2]
    rfl

/-- Where the map has an image, functions that agree on each value and its image give the same
map. -/
theorem map_eq_map_of_traverse {γ : Type} {f : α → Except ε β} {m : OrderedMap α}
    {n : OrderedMap β} (h : m.traverse f = .ok n) {g : α → γ} {g' : β → γ}
    (hg : ∀ v ∈ m.values, ∀ w, f v = .ok w → g v = g' w) : m.map g = n.map g' := by
  rw [traverse_eq_ok_iff] at h
  refine ext ?_
  rw [entries_map, entries_map]
  rw [values] at hg
  generalize m.entries = entries at h hg
  generalize n.entries = images at h
  -- Each image was made from the value in its place.
  induction entries generalizing images with
  | nil => cases h; rfl
  | cons entry rest ih =>
    rw [List.map_cons, List.forall_mem_cons] at hg
    rw [traverseEntries] at h
    split at h
    · cases h
    rename_i image himage
    split at h
    · cases h
    rename_i others hothers
    cases h
    rw [List.map_cons, List.map_cons, ih hg.2 others hothers, hg.1 image himage]

/-- Where the map has an image, it has the same keys in the same order. -/
theorem keys_of_traverse {f : α → Except ε β} {m : OrderedMap α} {n : OrderedMap β}
    (h : m.traverse f = .ok n) : n.keys = m.keys :=
  map_fst_of_traverseEntries (traverse_eq_ok_iff.mp h)

/-- Where the map has an image, it consists of the images of the values. -/
theorem map_eq_of_traverse {f : α → Except ε β} {m : OrderedMap α} {n : OrderedMap β}
    (h : m.traverse f = .ok n) : m.map f = n.map .ok :=
  map_eq_map_of_traverse h fun _ _ _ himage => himage

/-- The first entry whose value has no image decides how the images fail. -/
theorem traverseEntries_append_cons {f : α → Except ε β} {before after : List (String × α)}
    {key : String} {v : α} {e : ε} (hbefore : ∀ entry ∈ before, ∃ w, f entry.2 = .ok w)
    (hv : f v = .error e) : traverseEntries f (before ++ (key, v) :: after) = .error e := by
  induction before with
  | nil => rw [List.nil_append, traverseEntries, hv]
  | cons entry rest ih =>
    rw [List.forall_mem_cons] at hbefore
    obtain ⟨⟨w, hw⟩, hrest⟩ := hbefore
    rw [List.cons_append, traverseEntries, hw, ih hrest]

/-- Where images fail there is a first entry whose value has none. -/
theorem exists_of_traverseEntries_eq_error {f : α → Except ε β} {entries : List (String × α)}
    {e : ε} (h : traverseEntries f entries = .error e) :
    ∃ before key v after, entries = before ++ (key, v) :: after ∧
      (∀ entry ∈ before, ∃ w, f entry.2 = .ok w) ∧ f v = .error e := by
  induction entries with
  | nil => cases h
  | cons entry rest ih =>
    obtain ⟨key, v⟩ := entry
    rw [traverseEntries] at h
    split at h
    next e' hv =>
      cases h
      exact ⟨[], key, v, rest, rfl, by simp, hv⟩
    next image hv =>
      split at h
      next e' hrest =>
        cases h
        obtain ⟨before, key', v', after, rfl, hbefore, hv'⟩ := ih hrest
        exact ⟨(key, v) :: before, key', v', after, rfl,
          List.forall_mem_cons.mpr ⟨⟨image, hv⟩, hbefore⟩, hv'⟩
      next => cases h

/-- The map has no image exactly if some value has none, and the first such value in key order is
the failure. -/
theorem traverse_eq_error_iff {f : α → Except ε β} {m : OrderedMap α} {e : ε} :
    m.traverse f = .error e ↔ ∃ before key v after, m.entries = before ++ (key, v) :: after ∧
      (∀ entry ∈ before, ∃ w, f entry.2 = .ok w) ∧ f v = .error e := by
  have hentries : m.traverse f = .error e ↔ traverseEntries f m.entries = .error e := by
    rw [traverse]
    split
    next e' h => simp [h]
    next images h => simp [h]
  rw [hentries]
  constructor
  · exact exists_of_traverseEntries_eq_error
  · rintro ⟨before, key, v, after, hsplit, hbefore, hv⟩
    rw [hsplit]
    exact traverseEntries_append_cons hbefore hv

/-- Where every value has an image the map has one. -/
theorem exists_traverse {f : α → Except ε β} {m : OrderedMap α}
    (h : ∀ v ∈ m.values, ∃ w, f v = .ok w) : ∃ n, m.traverse f = .ok n := by
  cases htraverse : m.traverse f with
  | ok n => exact ⟨n, rfl⟩
  | error e =>
    obtain ⟨before, key, v, after, hsplit, -, hv⟩ := traverse_eq_error_iff.mp htraverse
    have hmem : v ∈ m.values := by
      rw [values, hsplit]
      simp
    obtain ⟨w, hw⟩ := h v hmem
    cases hv.symm.trans hw

/-- Where the map has an image, every value has one. -/
theorem exists_of_traverse {f : α → Except ε β} {m : OrderedMap α} {n : OrderedMap β}
    (h : m.traverse f = .ok n) : ∀ v ∈ m.values, ∃ w ∈ n.values, f v = .ok w := by
  intro v hv
  have hmem : f v ∈ (n.map .ok).values := by
    rw [← map_eq_of_traverse h, values_map]
    exact List.mem_map_of_mem hv
  rw [values_map] at hmem
  obtain ⟨w, hw, heq⟩ := List.mem_map.mp hmem
  exact ⟨w, hw, heq.symm⟩

/-- Where the map has an image, every value of the image is that of some value. -/
theorem mem_of_traverse {f : α → Except ε β} {m : OrderedMap α} {n : OrderedMap β}
    (h : m.traverse f = .ok n) : ∀ w ∈ n.values, ∃ v ∈ m.values, f v = .ok w := by
  intro w hw
  have hmem : .ok w ∈ (m.map f).values := by
    rw [map_eq_of_traverse h, values_map]
    exact List.mem_map_of_mem hw
  rwa [values_map, List.mem_map] at hmem

end OrderedMap

end Runbook
