import Runbook.Proofs.FileTree
import Runbook.Proofs.Path
import Runbook.Proofs.Store.Refinement
import Runbook.Store.Archive

/-!
# Archives in place of directories

The path of an archive is followed anew for every request. Where it leads to a folder the archive
answers as the directory with the items of that folder, and the path leads to the same place
afterwards: a request writes and removes files only, and paths pass through folders. Nothing
changes elsewhere.

## Main definitions

* `Directory.KeepsFolders`: the items after a request have all folders that there were;
* `Archive.Shows`: the path of an archive leads to a folder with some items.

## Main results

* `Directory.keepsFolders_perform`: every request to a directory keeps its folders;
* `Archive.Shows.perform`: an archive answers one request as its directory;
* `Archive.answers_as_directory`: so it does request after request.
-/

namespace Runbook

/-! ## Directories -/

namespace Directory

variable {key : String}

/-- The name of the file of a record can stand behind any path. -/
theorem fileName_of_isKey (h : isKey key = true) :
    '\x00' ∉ (fileName key).toList ∧ Path.isAbsolute (fileName key).toList = false := by
  have hchars := forall_of_isKey h
  rw [fileName, String.toList_ofList]
  constructor
  · intro hmem
    rcases List.mem_append.mp hmem with hmem | hmem
    · cases hchars _ hmem
    · revert hmem
      decide
  · cases hkey : key.toList with
    | nil => rfl
    | cons c cs =>
      have hc : c ≠ '/' := by
        rintro rfl
        cases hchars _ (hkey ▸ List.mem_cons_self)
      simp [Path.isAbsolute, hc]

/-- The items after a request have all folders that there were, and no new name that is too long
for a file. -/
structure KeepsFolders (items items' : SortedMap FileTree) : Prop where
  /-- No folder is removed or replaced. -/
  folders : ∀ name entries, items.get? name = some (.folder entries) →
    items'.get? name = some (.folder entries)
  /-- Files can have the new names. -/
  fits : ∀ name ∈ items'.keys, name ∈ items.keys ∨ fits name = true

namespace KeepsFolders

variable {items items' items'' : SortedMap FileTree} {name : String}

theorem refl (items : SortedMap FileTree) : KeepsFolders items items :=
  ⟨fun _ _ h => h, fun _ h => .inl h⟩

theorem trans (h : KeepsFolders items items') (h' : KeepsFolders items' items'') :
    KeepsFolders items items'' :=
  ⟨fun name entries hold => h'.folders name entries (h.folders name entries hold),
    fun name hname => (h'.fits name hname).elim (h.fits name) .inr⟩

/-- A file is written where there is no folder. -/
theorem insert (hfits : Directory.fits name = true)
    (hold : ∀ entries, items.get? name ≠ some (.folder entries)) (item : FileTree) :
    KeepsFolders items (items.insert name item) where
  folders other entries hother := by
    have hne : other ≠ name := by
      rintro rfl
      exact hold entries hother
    rw [SortedMap.get?_insert, if_neg hne, hother]
  fits other hother := by
    obtain ⟨found, hfound⟩ := SortedMap.mem_keys_iff.mp hother
    rw [SortedMap.get?_insert] at hfound
    split at hfound
    next hname => exact .inr (hname ▸ hfits)
    next => exact .inl (SortedMap.mem_keys_iff.mpr ⟨found, hfound⟩)

/-- What is removed is no folder. -/
theorem erase (hold : ∀ entries, items.get? name ≠ some (.folder entries)) :
    KeepsFolders items (items.erase name) where
  folders other entries hother := by
    have hne : other ≠ name := by
      rintro rfl
      exact hold entries hother
    rw [SortedMap.get?_erase, if_neg hne, hother]
  fits other hother := by
    obtain ⟨found, hfound⟩ := SortedMap.mem_keys_iff.mp hother
    rw [SortedMap.get?_erase] at hfound
    split at hfound
    next => cases hfound
    next => exact .inl (SortedMap.mem_keys_iff.mpr ⟨found, hfound⟩)

/-- Files are removed one by one, as long as those named as the given items are no folders. -/
theorem deleteItems {doomed : List (String × FileTree)}
    (h : ∀ entry ∈ doomed, ∀ bytes, entry.2 = .file bytes →
      ∀ entries, items.get? (fileName entry.1) ≠ some (.folder entries)) :
    KeepsFolders items (Directory.deleteItems items doomed).2 := by
  induction doomed generalizing items with
  | nil => exact .refl items
  | cons entry rest ih =>
    obtain ⟨key, item⟩ := entry
    rw [List.forall_mem_cons] at h
    cases item with
    | folder entries => exact .refl items
    | file bytes =>
      refine (erase (h.1 bytes rfl)).trans (ih fun entry hentry bytes hfile entries => ?_)
      rw [SortedMap.get?_erase]
      split
      · simp
      · exact h.2 entry hentry bytes hfile entries

end KeepsFolders

/-- What is read under a key is the file of the key. -/
theorem get?_of_get_eq_ok {items : SortedMap FileTree} {bytes : ByteArray}
    (h : (Directory.mk (some items)).get key = .ok bytes) :
    items.get? (fileName key) = some (.file bytes) := by
  rw [get] at h
  split at h
  next => cases h
  next =>
    dsimp only at h
    split at h
    next =>
      cases hitem : items.get? (fileName key) with
      | none => rw [hitem] at h; cases h
      | some item =>
        rw [hitem] at h
        cases item <;> cases h
        rfl
    next => cases h

/-- What is named as a record is what the folder has under the name. -/
theorem get?_of_mem_recordItems {items : SortedMap FileTree} {entry : String × FileTree}
    (h : entry ∈ (Directory.mk (some items)).recordItems) :
    isKey entry.1 = true ∧ items.get? (fileName entry.1) = some entry.2 := by
  have hrecord : (Directory.mk (some items)).recordMap.get? entry.1 = some entry.2 :=
    SortedMap.get?_eq_some_iff.mpr h
  rw [get?_recordMap] at hrecord
  split at hrecord
  next hkey => exact ⟨hkey, hrecord⟩
  next => cases hrecord

/-- A record is written where there is no folder. -/
theorem keepsFolders_put (items : SortedMap FileTree) (key : String) (bytes : ByteArray) :
    ∃ items', (put ⟨some items⟩ key bytes).2 = ⟨some items'⟩ ∧ KeepsFolders items items' := by
  rw [put]
  split
  · exact ⟨items, rfl, .refl items⟩
  · dsimp only
    split
    next hfits =>
      split
      · exact ⟨items, rfl, .refl items⟩
      next hold => exact ⟨_, rfl, .insert hfits hold _⟩
    next => exact ⟨items, rfl, .refl items⟩

/-- Only what can be read as a record is removed. -/
theorem keepsFolders_delete (items : SortedMap FileTree) (key : String) :
    ∃ items', (delete ⟨some items⟩ key).2 = ⟨some items'⟩ ∧ KeepsFolders items items' := by
  rw [delete]
  split
  next bytes hget =>
    refine ⟨_, rfl, .erase fun entries => ?_⟩
    show items.get? (fileName key) ≠ _
    rw [get?_of_get_eq_ok hget]
    simp
  next => exact ⟨items, rfl, .refl items⟩

/-- Only files are removed. -/
theorem keepsFolders_deleteAll (items : SortedMap FileTree) :
    ∃ items', (deleteAll ⟨some items⟩).2 = ⟨some items'⟩ ∧ KeepsFolders items items' := by
  refine ⟨_, rfl, .deleteItems fun entry hentry bytes hfile entries => ?_⟩
  show items.get? (fileName entry.1) ≠ _
  rw [(get?_of_mem_recordItems hentry).2, hfile]
  simp

/-- After a request a directory has all folders that there were. -/
theorem keepsFolders_perform (items : SortedMap FileTree) (r : Store.Request) :
    ∃ items', (r.perform (Directory.mk (some items))).2 = ⟨some items'⟩ ∧
      KeepsFolders items items' := by
  cases r with
  | put key bytes => exact keepsFolders_put items key bytes
  | delete key => exact keepsFolders_delete items key
  | deleteAll => exact keepsFolders_deleteAll items
  | get _ | records => exact ⟨items, rfl, .refl items⟩

end Directory

/-! ## Archives -/

namespace Archive

variable {a : Archive} {place : Place} {items items' : SortedMap FileTree} {key : String}

/-- The path of an archive leads to a folder, in which distinct names that files can have lead to
some items, and names behind the path are not too long. -/
structure Shows (a : Archive) (place : Place) (items : SortedMap FileTree) : Prop where
  /-- The path leads to the place. -/
  place_eq : a.place = .ok place
  /-- There is a folder with the items. -/
  folder : ∃ entries, a.files.at? place = some (.folder entries) ∧
    (entries.map Prod.fst).Nodup ∧ items = .ofList entries
  /-- Files can have the names. -/
  fits : ∀ name ∈ items.keys, Directory.fits name = true
  /-- There is room for a name behind the path. -/
  room : Path.byteSize a.path.toList + 1 + Path.nameLimit ≤ Path.lengthLimit

/-- What an archive does is what its directory does: it is refused for the same reason and changes
nothing, or it is done in the directory. -/
def Agrees {α : Type} (a : Archive) (d : Directory) (x : Except StoreError α × Archive)
    (y : Except StoreError α × Directory) : Prop :=
  (∃ error, x = (.error error, a) ∧ y = (.error error, d)) ∨ x = (y.1, a.withDirectory y.2)

theorem Agrees.map {α β : Type} {d : Directory} {x : Except StoreError α × Archive}
    {y : Except StoreError α × Directory} (h : a.Agrees d x y) (f : Except StoreError α → β) :
    (x.map f id).1 = (y.map f id).1 ∧
      ((x.map f id).2 = a ∧ (y.map f id).2 = d ∨
        (x.map f id).2 = a.withDirectory (y.map f id).2) := by
  rcases h with ⟨error, rfl, rfl⟩ | rfl
  · exact ⟨rfl, .inl ⟨rfl, rfl⟩⟩
  · exact ⟨rfl, .inr rfl⟩

namespace Shows

/-- The directory of the archive has the items. -/
theorem directory_eq (h : a.Shows place items) : a.directory = .ok ⟨some items⟩ := by
  obtain ⟨entries, hentries, -, rfl⟩ := h.folder
  simp only [directory, h.place_eq, hentries]

/-- The folder is there already. -/
theorem made_eq (h : a.Shows place items) : a.made = (a, .ok ()) := by
  obtain ⟨entries, hentries, -⟩ := h.folder
  rw [made, FileTree.makeFolders_of_follow h.place_eq ⟨entries, hentries⟩]

/-- The path of the file of a record can be followed, or the name of the file is too long. -/
theorem fault?_cases (h : a.Shows place items) (hkey : Directory.isKey key = true) :
    a.fault? key = none ∨
      (a.fault? key = some .nameTooLong ∧
        Directory.fits (Directory.fileName key) = false) := by
  have hbase : Path.fault? a.path.toList = none := (FileTree.follow_eq_ok_iff.mp h.place_eq).1
  obtain ⟨hnull, habsolute⟩ := Directory.fileName_of_isKey hkey
  refine (Path.fault?_join hbase hnull habsolute).imp_right fun ⟨hlong, hsize⟩ => ⟨hlong, ?_⟩
  have hroom := h.room
  have hname : Path.byteSize (Directory.fileName key).toList =
      (Directory.fileName key).utf8ByteSize := by rw [Path.byteSize, String.ofList_toList]
  rw [Directory.fits, decide_eq_false_iff_not]
  omega

/-- No path of a record in the folder is too long. -/
theorem firstFault?_eq_none (h : a.Shows place items) :
    a.firstFault? (Directory.mk (some items)).recordItems = none := by
  refine List.findSome?_eq_none_iff.mpr fun entry hentry => ?_
  obtain ⟨hkey, hrecord⟩ := Directory.get?_of_mem_recordItems hentry
  have hfits := h.fits _ (SortedMap.mem_keys_iff.mpr ⟨_, hrecord⟩)
  refine (h.fault?_cases hkey).resolve_right fun hlong => ?_
  rw [hlong.2] at hfits
  cases hfits

/-- An archive whose folder gets other items, with all folders that it had, is led to them by its
path. Nothing changes elsewhere. -/
theorem withDirectory (h : a.Shows place items) (hkept : Directory.KeepsFolders items items') :
    (a.withDirectory ⟨some items'⟩).Shows place items' ∧
      ∀ other, ¬place <+: other → ¬other <+: place →
        (a.withDirectory ⟨some items'⟩).files.at? other = a.files.at? other := by
  obtain ⟨entries, hentries, hnodup, rfl⟩ := h.folder
  have hnew : a.withDirectory ⟨some items'⟩ =
      { a with files := (FileTree.folder items'.entries).put a.files place } := by
    simp only [Archive.withDirectory, h.place_eq]
  have hfolders : ∀ name below, entries.lookup name = some (.folder below) →
      items'.entries.lookup name = some (.folder below) := by
    intro name below hlookup
    rw [← SortedMap.get?_ofList hnodup] at hlookup
    exact hkept.folders name below hlookup
  rw [hnew]
  refine ⟨⟨?_, ?_, fun name hname => ?_, h.room⟩,
    fun other => FileTree.at?_put_of_not_prefix hentries _⟩
  · exact FileTree.follow_of_kept (fun other => FileTree.isFolderAt_put hentries hfolders)
      h.place_eq
  · exact ⟨items'.entries, FileTree.at?_put hentries _, items'.nodup_keys,
      items'.ofList_entries.symm⟩
  · exact (hkept.fits name hname).elim (h.fits name) id

/-- What is done to the directory is done in the archive. -/
theorem change_eq {α : Type} (h : a.Shows place items)
    (f : Directory → Except StoreError α × Directory) :
    a.change f = ((f ⟨some items⟩).1, a.withDirectory (f ⟨some items⟩).2) := by
  rw [change, h.directory_eq]

/-- Bytes are put in the directory. -/
theorem agrees_put (h : a.Shows place items) (key : String) (bytes : ByteArray) :
    a.Agrees ⟨some items⟩ (a.put key bytes) (Directory.put ⟨some items⟩ key bytes) := by
  rw [Archive.put, h.made_eq]
  cases hkey : Directory.isKey key with
  | false => exact .inl ⟨.invalidKey key, rfl, by simp [Directory.put, hkey]⟩
  | true =>
    rcases h.fault?_cases hkey with hnone | ⟨hlong, hfits⟩
    · right
      simp only [if_true, hnone, h.change_eq]
    · refine .inl ⟨.file .nameTooLong, by simp [hlong], ?_⟩
      simp [Directory.put, hkey, hfits, Directory.contents]

/-- The bytes under a key are those in the directory. -/
theorem get_eq (h : a.Shows place items) (key : String) :
    a.get key = (Directory.mk (some items)).get key := by
  rw [Archive.get]
  cases hkey : Directory.isKey key with
  | false => simp [Directory.get, hkey]
  | true =>
    rcases h.fault?_cases hkey with hnone | ⟨hlong, hfits⟩
    · simp only [if_true, hnone, h.directory_eq]
    · simp [Directory.get, hkey, hlong, hfits]

/-- A record is removed from the directory. -/
theorem agrees_delete (h : a.Shows place items) (key : String) :
    a.Agrees ⟨some items⟩ (a.delete key) (Directory.delete ⟨some items⟩ key) := by
  rw [Archive.delete]
  cases hkey : Directory.isKey key with
  | false =>
    exact .inl ⟨.invalidKey key, rfl, by simp [Directory.delete, Directory.get, hkey]⟩
  | true =>
    rcases h.fault?_cases hkey with hnone | ⟨hlong, hfits⟩
    · right
      simp only [if_true, hnone, h.change_eq]
    · refine .inl ⟨.file .nameTooLong, by simp [hlong], ?_⟩
      simp [Directory.delete, Directory.get, hkey, hfits]

/-- The records that are removed are those of the directory. -/
theorem agrees_deleteAll (h : a.Shows place items) :
    a.Agrees ⟨some items⟩ a.deleteAll (Directory.deleteAll ⟨some items⟩) := by
  right
  rw [Archive.deleteAll, h.change_eq, deleteRecords, h.firstFault?_eq_none]

/-- The records are those of the directory. -/
theorem records_eq (h : a.Shows place items) :
    a.records = (Directory.mk (some items)).records := by
  simp only [Archive.records, h.directory_eq, h.firstFault?_eq_none]

open Store

/-- An archive answers a request as its directory does. Afterwards it is as it was, as is the
directory, or has the new directory. -/
theorem perform_cases (h : a.Shows place items) (r : Request) :
    (r.perform a).1 = (r.perform (Directory.mk (some items))).1 ∧
      ((r.perform a).2 = a ∧ (r.perform (Directory.mk (some items))).2 = ⟨some items⟩ ∨
        (r.perform a).2 = a.withDirectory (r.perform (Directory.mk (some items))).2) := by
  cases r with
  | put key bytes => exact (h.agrees_put key bytes).map _
  | get key =>
    exact ⟨congrArg (Answer.ofResult Answer.found) (h.get_eq key), .inl ⟨rfl, rfl⟩⟩
  | delete key => exact (h.agrees_delete key).map _
  | deleteAll => exact h.agrees_deleteAll.map _
  | records => exact ⟨congrArg (Answer.ofResult Answer.listed) h.records_eq, .inl ⟨rfl, rfl⟩⟩

/-- An archive answers a request as its directory does, and shows the items of the new directory
afterwards. Nothing changes elsewhere. -/
theorem perform (h : a.Shows place items) (r : Request) :
    (r.perform a).1 = (r.perform (Directory.mk (some items))).1 ∧
      ∃ items', (r.perform (Directory.mk (some items))).2 = ⟨some items'⟩ ∧
        (r.perform a).2.Shows place items' ∧
        ∀ other, ¬place <+: other → ¬other <+: place →
          (r.perform a).2.files.at? other = a.files.at? other := by
  obtain ⟨items', hitems', hkept⟩ := Directory.keepsFolders_perform items r
  obtain ⟨hanswer, ⟨hsame, hsame'⟩ | hnew⟩ := h.perform_cases r
  · rw [hsame]
    exact ⟨hanswer, items, hsame', h, fun _ _ _ => rfl⟩
  · rw [hnew, hitems']
    obtain ⟨hshows, helsewhere⟩ := h.withDirectory hkept
    exact ⟨hanswer, items', rfl, hshows, helsewhere⟩

end Shows

open Store

/-- An archive whose path leads to a folder answers as a directory with the items of that folder,
request after request. Afterwards its path leads to the same place and to the items that are in the
directory then, and nothing has changed elsewhere. -/
theorem answers_as_directory (h : a.Shows place items) (requests : List Request) :
    answers a requests = answers (Directory.mk (some items)) requests ∧
      ∃ items', after (Directory.mk (some items)) requests = ⟨some items'⟩ ∧
        (after a requests).Shows place items' ∧
        ∀ other, ¬place <+: other → ¬other <+: place →
          (after a requests).files.at? other = a.files.at? other := by
  induction requests generalizing a items with
  | nil => exact ⟨rfl, items, rfl, h, fun _ _ _ => rfl⟩
  | cons r rest ih =>
    obtain ⟨hanswer, items', hitems', hshows, helsewhere⟩ := h.perform r
    obtain ⟨hanswers, final, hfinal, hend, hlater⟩ := ih hshows
    rw [answers, answers, after_cons, after_cons, hanswer, hitems', hanswers]
    refine ⟨rfl, final, hfinal, hend, fun other hbelow habove => ?_⟩
    rw [hlater other hbelow habove, helsewhere other hbelow habove]

/-- An archive whose path leads through a folder among its records and up again. -/
private def winding : Archive where
  files := .folder [("home", .folder [("logs", .folder
    [("old", .folder []), ("01B.json", .file "2".toUTF8)])])]
  start := ["home"]
  path := "logs/old/.."

/-- Records are put beside that folder, found and removed. -/
theorem answers_as_directory_winding :
    (∃ items, winding.Shows ["home", "logs"] items) ∧
    answers winding [.put "01A" "1".toUTF8, .records, .delete "01B", .get "01B", .get "old"] =
      [.done, .listed [("01A", "1".toUTF8), ("01B", "2".toUTF8)], .done,
        .refused (.notFound "01B"), .refused (.notFound "old")] := by
  have hshows : winding.Shows ["home", "logs"] (.ofList
      [("old", .folder []), ("01B.json", .file "2".toUTF8)]) :=
    ⟨rfl, ⟨_, rfl, by decide, rfl⟩, by decide, by decide⟩
  exact ⟨⟨_, hshows⟩, (answers_as_directory hshows _).1.trans rfl⟩

end Archive

end Runbook
