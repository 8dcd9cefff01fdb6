import Runbook.Proofs.SortedMap
import Runbook.Proofs.Store.Lawful

/-!
# What stores hold

A store in memory is a map, and a store in a directory works as one: each record is a file, and the
files that are named as records are the map. What the requests of a store answer and what they leave
is told by the map that the store holds.

## Main definitions

* `MappedStore`: a store whose requests are told by a map;
* `Directory.recordMap`: what is named as a record in a directory, by key;
* `Directory.Takes`, `Directory.Holds`: the keys of records in a directory, and the map that these
  records are.

## Main results

* `Directory.get?_recordMap`: what is under a key is what has the file name of the key;
* `Directory.deleteItems_files`: files are removed one by one without failure;
* the instances of `MappedStore` for stores in memory and in directories.
-/

namespace Runbook

/-- A store whose requests are told by the map that it holds. -/
class MappedStore (σ : Type) [Store σ] where
  /-- The keys under which the store takes records. -/
  Takes : String → Prop
  /-- The store holds the records of a map and no others. -/
  Holds : σ → SortedMap ByteArray → Prop
  /-- Bytes that are put are under their key. -/
  put {store : σ} {m : SortedMap ByteArray} {key : String} (bytes : ByteArray) :
    Holds store m → Takes key →
      ∃ store', Store.put store key bytes = (.ok (), store') ∧ Holds store' (m.insert key bytes)
  /-- A request for bytes gives those in the map. -/
  get {store : σ} {m : SortedMap ByteArray} {key : String} :
    Holds store m → Takes key →
      Store.get store key = (m.get? key).elim (.error (.notFound key)) .ok
  /-- A record is removed. -/
  delete {store : σ} {m : SortedMap ByteArray} {key : String} {bytes : ByteArray} :
    Holds store m → m.get? key = some bytes →
      ∃ store', Store.delete store key = (.ok (), store') ∧ Holds store' (m.erase key)
  /-- Where there is no record none is removed. -/
  delete_of_none {store : σ} {m : SortedMap ByteArray} {key : String} :
    Holds store m → Takes key → m.get? key = none →
      Store.delete store key = (.error (.notFound key), store)
  /-- Under other keys nothing is found and nothing is removed. -/
  refuses (store : σ) {key : String} : ¬Takes key →
    ∃ error, Store.get store key = .error error ∧ Store.delete store key = (.error error, store)
  /-- All records are removed. -/
  deleteAll {store : σ} {m : SortedMap ByteArray} :
    Holds store m →
      ∃ store', Store.deleteAll store = (.ok m.size, store') ∧ Holds store' .empty
  /-- All records are given. -/
  records {store : σ} {m : SortedMap ByteArray} :
    Holds store m → Store.records store = .ok m.entries

instance : MappedStore Memory where
  Takes _ := True
  Holds store m := store.entries = m
  put := by
    rintro store _ key bytes rfl -
    exact ⟨_, rfl, rfl⟩
  get := by
    rintro store _ key rfl -
    show store.get key = _
    rw [Memory.get]
    cases store.entries.get? key <;> rfl
  delete := by
    rintro store _ key bytes rfl hbytes
    refine ⟨⟨store.entries.erase key⟩, ?_, rfl⟩
    show store.delete key = _
    rw [Memory.delete, hbytes]
  delete_of_none := by
    rintro store _ key rfl - hnone
    show store.delete key = _
    rw [Memory.delete, hnone]
  refuses _ _ h := absurd trivial h
  deleteAll := by
    rintro store _ rfl
    exact ⟨_, rfl, rfl⟩
  records := by
    rintro store _ rfl
    rfl

namespace Directory

/-- Keys consist of letters, digits, `-` and `_`. -/
theorem forall_of_isKey {key : String} (h : isKey key = true) :
    ∀ c ∈ key.toList, (c.isAlphanum || c == '-' || c == '_') = true := by
  rw [isKey, Bool.and_eq_true, List.all_eq_true] at h
  exact h.2

/-- What is named as a record, by key. -/
def recordMap (d : Directory) : SortedMap FileTree :=
  .ofList <| d.contents.entries.filterMap fun entry =>
    (key? entry.1).map fun key => (key, entry.2)

/-- The key of the record in a file is the one that the file is named by. -/
theorem key?_eq_some_iff {name key : String} :
    key? name = some key ↔ isKey key = true ∧ name = fileName key := by
  simp only [key?]
  constructor
  · intro h
    split at h
    next hname =>
      cases h
      refine ⟨hname.2, ?_⟩
      rw [fileName, String.toList_ofList, ← hname.1, String.ofList_toList]
    next => cases h
  · rintro ⟨hkey, rfl⟩
    have hstem : (fileName key).toList.take ((fileName key).toList.length - extension.length) =
        key.toList := by simp [fileName]
    rw [hstem, String.ofList_toList, if_pos ⟨String.toList_ofList, hkey⟩]

/-- What is under a key is what has the file name of the key. -/
theorem get?_recordMap (d : Directory) (key : String) :
    d.recordMap.get? key = if isKey key then d.contents.get? (fileName key) else none := by
  -- A key is that of one name at most, so the names that have one are under distinct keys.
  have hnodup : ((d.contents.entries.filterMap fun entry =>
      (key? entry.1).map fun key => (key, entry.2)).map Prod.fst).Nodup := by
    have hkeys : (d.contents.keys.filterMap key?).Nodup := by
      refine d.contents.nodup_keys.filterMap fun name other key hname hother => ?_
      rw [(key?_eq_some_iff.mp hname).2, (key?_eq_some_iff.mp hother).2]
    rw [SortedMap.keys, List.filterMap_map] at hkeys
    rw [List.map_filterMap]
    simpa [Function.comp_def] using hkeys
  refine Option.ext fun item => ?_
  rw [recordMap, SortedMap.get?_ofList hnodup, SortedMap.lookup_eq_some_iff hnodup,
    List.mem_filterMap]
  cases hkey : isKey key with
  | false => simp [key?_eq_some_iff, hkey]
  | true => simp [key?_eq_some_iff, hkey, SortedMap.get?_eq_some_iff]

/-- A file that is placed is a record. -/
theorem recordMap_place (d : Directory) {key : String} (hkey : isKey key = true)
    (item : FileTree) : (d.place (fileName key) item).recordMap = d.recordMap.insert key item := by
  refine SortedMap.ext_get? fun k => ?_
  rw [get?_recordMap, SortedMap.get?_insert, get?_recordMap]
  simp only [place, contents, Option.getD_some, SortedMap.get?_insert,
    fileName_injective.eq_iff]
  by_cases hk : k = key <;> simp [hk, hkey]

/-- A file that is removed is no record any more. -/
theorem recordMap_erase (d : Directory) {key : String} (hkey : isKey key = true) :
    (Directory.mk (some (d.contents.erase (fileName key)))).recordMap = d.recordMap.erase key := by
  refine SortedMap.ext_get? fun k => ?_
  rw [get?_recordMap, SortedMap.get?_erase, get?_recordMap]
  simp only [contents, Option.getD_some, SortedMap.get?_erase, fileName_injective.eq_iff]
  by_cases hk : k = key <;> simp [hk, hkey]

/-- Files are read one by one. -/
theorem readItems_files (records : List (String × ByteArray)) :
    readItems (records.map fun record => (record.1, .file record.2)) = .ok records := by
  induction records with
  | nil => rfl
  | cons record rest ih =>
    rw [List.map_cons, readItems, ih]
    rfl

/-- Files are removed one by one, and nothing else is. -/
theorem deleteItems_files (contents : SortedMap FileTree) (records : List (String × ByteArray)) :
    ∃ contents', deleteItems contents (records.map fun record => (record.1, .file record.2)) =
        (.ok (), contents') ∧
      ∀ name, contents'.get? name =
        if name ∈ records.map (fun record => fileName record.1) then none
        else contents.get? name := by
  induction records generalizing contents with
  | nil => exact ⟨contents, rfl, fun name => (if_neg List.not_mem_nil).symm⟩
  | cons record rest ih =>
    obtain ⟨contents', hdelete, hget⟩ := ih (contents.erase (fileName record.1))
    refine ⟨contents', by rw [List.map_cons, deleteItems, hdelete], fun name => ?_⟩
    rw [hget, SortedMap.get?_erase, List.map_cons]
    by_cases hname : name = fileName record.1
    · simp [hname]
    · simp only [List.mem_cons, hname, false_or, if_false]

/-- The keys that make names which a file can have. -/
def Takes (key : String) : Prop :=
  isKey key = true ∧ fits (fileName key) = true

instance (key : String) : Decidable (Takes key) :=
  inferInstanceAs (Decidable (_ ∧ _))

/-- The records in the directory are those of a map, under keys that the directory takes. -/
structure Holds (d : Directory) (m : SortedMap ByteArray) : Prop where
  /-- What is named as a record is a file with its bytes. -/
  recordMap_eq : d.recordMap = m.map .file
  /-- The directory takes the keys. -/
  takes : ∀ key bytes, m.get? key = some bytes → Takes key

namespace Holds

variable {d : Directory} {m : SortedMap ByteArray} {key : String}

/-- What is named as a record, in order of key. -/
theorem recordItems_eq (h : d.Holds m) :
    d.recordItems = m.entries.map fun record => (record.1, .file record.2) :=
  congrArg SortedMap.entries h.recordMap_eq

/-- The file of a key holds the bytes under it. -/
theorem get?_contents (h : d.Holds m) (hkey : isKey key = true) :
    d.contents.get? (fileName key) = (m.get? key).map .file := by
  rw [← SortedMap.get?_map, ← h.recordMap_eq, get?_recordMap, if_pos hkey]

/-- A request for bytes gives those in the map. -/
theorem get_eq (h : d.Holds m) (hkey : Takes key) :
    d.get key = (m.get? key).elim (.error (.notFound key)) .ok := by
  have hcontents := h.get?_contents hkey.1
  obtain ⟨items⟩ := d
  rw [get, hkey.1, hkey.2]
  cases items with
  | none =>
    -- In a directory that does not exist there is nothing, as in the map.
    have hnone : m.get? key = none := Option.map_eq_none_iff.mp hcontents.symm
    rw [hnone]
    rfl
  | some items =>
    rw [contents, Option.getD_some] at hcontents
    simp only [Bool.not_true, Bool.false_eq_true, if_false, if_true, hcontents]
    cases m.get? key <;> rfl

/-- Bytes that are put are in the map. -/
theorem place (h : d.Holds m) (hkey : Takes key) (bytes : ByteArray) :
    (d.place (fileName key) (.file bytes)).Holds (m.insert key bytes) where
  recordMap_eq := by rw [recordMap_place d hkey.1, h.recordMap_eq, SortedMap.map_insert]
  takes k b hb := by
    rw [SortedMap.get?_insert] at hb
    split at hb
    next hk => exact hk ▸ hkey
    next => exact h.takes k b hb

/-- A file that is removed is not in the map. -/
theorem erase (h : d.Holds m) (hkey : isKey key = true) :
    (Directory.mk (some (d.contents.erase (fileName key)))).Holds (m.erase key) where
  recordMap_eq := by rw [recordMap_erase d hkey, h.recordMap_eq, SortedMap.map_erase]
  takes k b hb := by
    rw [SortedMap.get?_erase] at hb
    split at hb
    next => cases hb
    next => exact h.takes k b hb

/-- Once all records are removed there are none. -/
theorem deleteAll (h : d.Holds m) :
    ∃ d', d.deleteAll = (.ok m.size, d') ∧ d'.Holds .empty := by
  obtain ⟨contents', hdelete, hget⟩ := deleteItems_files d.contents m.entries
  refine ⟨⟨d.items.map fun _ => contents'⟩, ?_, ?_, fun _ _ hnone => by cases hnone⟩
  · rw [Directory.deleteAll, h.recordItems_eq, hdelete, List.length_map]
    rfl
  · -- Whatever is named as a record was in the map, and so among what was removed.
    have hnone (key : String) (hkey : isKey key = true) : contents'.get? (fileName key) = none := by
      rw [hget, h.get?_contents hkey]
      split
      next => rfl
      next hkept =>
        cases hbytes : m.get? key with
        | none => rfl
        | some bytes =>
          exact absurd (List.mem_map.mpr ⟨_, SortedMap.get?_eq_some_iff.mp hbytes, rfl⟩) hkept
    refine SortedMap.ext_get? fun key => ?_
    rw [get?_recordMap]
    split
    next hkey =>
      cases hitems : d.items with
      | none => rfl
      | some items => exact hnone key hkey
    next => rfl

end Holds

/-- A directory in which nothing is named as a record holds none. -/
theorem holds_empty {d : Directory} (h : d.recordItems = []) : d.Holds .empty :=
  ⟨SortedMap.ext h, fun _ _ hnone => by cases hnone⟩

/-- Under a key that the directory does not take nothing is found. -/
theorem exists_error_of_not_takes (d : Directory) {key : String} (hkey : ¬Takes key) :
    ∃ error, d.get key = .error error := by
  rw [get]
  cases hvalid : isKey key with
  | false => exact ⟨_, rfl⟩
  | true =>
    -- Such a key makes too long a name, which is looked for only where there is a directory.
    have hlong : fits (fileName key) = false :=
      Bool.eq_false_iff.mpr fun hfits => hkey ⟨hvalid, hfits⟩
    cases d.items with
    | none => exact ⟨_, rfl⟩
    | some items => exact ⟨_, by rw [hlong]; rfl⟩

instance : MappedStore Directory where
  Takes := Takes
  Holds := Holds
  put := by
    intro d m key bytes h hkey
    refine ⟨_, ?_, h.place hkey bytes⟩
    show d.put key bytes = _
    rw [put, hkey.1, hkey.2, h.get?_contents hkey.1]
    cases m.get? key <;> rfl
  get h hkey := h.get_eq hkey
  delete := by
    intro d m key bytes h hbytes
    have hkey := h.takes key bytes hbytes
    refine ⟨_, ?_, h.erase hkey.1⟩
    show d.delete key = _
    rw [delete, h.get_eq hkey, hbytes]
    rfl
  delete_of_none := by
    intro d m key h hkey hnone
    show d.delete key = _
    rw [delete, h.get_eq hkey, hnone]
    rfl
  refuses := by
    intro d key hkey
    obtain ⟨error, herror⟩ := d.exists_error_of_not_takes hkey
    refine ⟨error, herror, ?_⟩
    show d.delete key = _
    rw [delete, herror]
  deleteAll h := h.deleteAll
  records := by
    intro d m h
    show d.records = _
    rw [records, h.recordItems_eq]
    exact readItems_files m.entries

end Directory

end Runbook
