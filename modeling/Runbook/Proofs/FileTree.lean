import Mathlib.Data.List.DropRight
import Runbook.FileTree

/-!
# Folders and the paths through them

A path passes through folders only. So it leads to the same place in every tree that has the same
folders, whatever files are written or removed, and making the folders of a path that leads to one
changes nothing.

## Main definitions

* `FileTree.IsFolderAt`: there is a folder at a place.

## Main results

* `FileTree.at?_put_append`, `FileTree.at?_put_of_not_prefix`: what is put at a place is there, and
  nothing changes elsewhere;
* `FileTree.isFolderAt_put`: a folder that is put in place of another one with the same folders
  keeps all folders of the tree;
* `FileTree.follow_of_kept`: a path leads to the same place where no folder is missing;
* `FileTree.makeFolders_of_follow`: for a path that leads to a folder no folder is made.
-/

namespace Runbook.FileTree

/-- There is a folder at a place. -/
def IsFolderAt (t : FileTree) (place : Place) : Prop :=
  ∃ entries, t.at? place = some (.folder entries)

variable {t t' item old : FileTree} {place other : Place}

/-! ## What there is at a place -/

@[simp]
theorem at?_nil (t : FileTree) : t.at? [] = some t := by
  rw [at?]

/-- Only a folder has something at a place below it. -/
theorem exists_of_at?_cons {name : String} (h : t.at? (name :: place) = some old) :
    ∃ entries below, t = .folder entries ∧ entries.lookup name = some below ∧
      below.at? place = some old := by
  cases t with
  | file bytes => cases h
  | folder entries =>
    rw [at?] at h
    split at h
    next below hbelow => exact ⟨entries, below, rfl, hbelow, h⟩
    next => cases h

/-- A folder holds what is at the places below it. -/
theorem at?_folder_cons {entries : List (String × FileTree)} {name : String} {below : FileTree}
    (h : entries.lookup name = some below) (place : Place) :
    (FileTree.folder entries).at? (name :: place) = below.at? place := by
  rw [at?, h]

/-- What is put below a folder is put into what it has under the first name; under the other names
it has what it had. -/
theorem at?_put_cons {entries : List (String × FileTree)} {name : String} {below : FileTree}
    (h : entries.lookup name = some below) (item : FileTree) (place : Place) (name' : String)
    (other : Place) :
    (item.put (.folder entries) (name :: place)).at? (name' :: other) =
      if name' = name then (item.put below place).at? other
      else (FileTree.folder entries).at? (name' :: other) := by
  rw [put, h, Option.getD_some, at?, at?, OrderedMap.lookup_insertEntry]
  by_cases hname : name' = name
  · rw [if_pos hname, if_pos hname]
  · rw [if_neg hname, if_neg hname]

/-- What is put in place of something is there with all that is below it. -/
theorem at?_put_append (h : t.at? place = some old) (item : FileTree) (below : Place) :
    (item.put t place).at? (place ++ below) = item.at? below := by
  induction place generalizing t with
  | nil => rw [put, List.nil_append]
  | cons name rest ih =>
    obtain ⟨entries, inner, rfl, hlookup, hinner⟩ := exists_of_at?_cons h
    rw [List.cons_append, at?_put_cons hlookup, if_pos rfl, ih hinner]

/-- What is put in place of something is there. -/
theorem at?_put (h : t.at? place = some old) (item : FileTree) :
    (item.put t place).at? place = some item := by
  have hbelow := at?_put_append h item []
  rwa [List.append_nil, at?_nil] at hbelow

/-- Nothing changes at places that are neither above nor below. -/
theorem at?_put_of_not_prefix (h : t.at? place = some old) (item : FileTree)
    (hbelow : ¬place <+: other) (habove : ¬other <+: place) :
    (item.put t place).at? other = t.at? other := by
  induction place generalizing t other with
  | nil => exact absurd List.nil_prefix hbelow
  | cons name rest ih =>
    cases other with
    | nil => exact absurd List.nil_prefix habove
    | cons name' rest' =>
      obtain ⟨entries, inner, rfl, hlookup, hinner⟩ := exists_of_at?_cons h
      rw [at?_put_cons hlookup]
      split
      next hname =>
        subst hname
        rw [List.cons_prefix_cons] at hbelow habove
        rw [at?_folder_cons hlookup]
        exact ih hinner (fun h => hbelow ⟨rfl, h⟩) fun h => habove ⟨rfl, h⟩
      next => rfl

/-! ## Folders -/

/-- A folder with all folders of another one has all folders below them. -/
theorem isFolderAt_of_lookup {entries entries' : List (String × FileTree)}
    (h : ∀ name items, entries.lookup name = some (.folder items) →
      entries'.lookup name = some (.folder items))
    (hplace : (FileTree.folder entries).IsFolderAt place) :
    (FileTree.folder entries').IsFolderAt place := by
  cases place with
  | nil => exact ⟨entries', at?_nil _⟩
  | cons name rest =>
    obtain ⟨found, hfound⟩ := hplace
    obtain ⟨_, below, hsame, hlookup, hbelow⟩ := exists_of_at?_cons hfound
    cases hsame
    cases below with
    | file bytes =>
      -- At a file there is no folder, and neither is there below it.
      cases rest <;> cases hbelow
    | folder items => exact ⟨found, by rw [at?_folder_cons (h name items hlookup), hbelow]⟩

/-- A folder that is put in place of another one and has all its folders keeps all folders. -/
theorem isFolderAt_put {entries entries' : List (String × FileTree)}
    (h : t.at? place = some (.folder entries))
    (hkept : ∀ name items, entries.lookup name = some (.folder items) →
      entries'.lookup name = some (.folder items))
    (hother : t.IsFolderAt other) : ((FileTree.folder entries').put t place).IsFolderAt other := by
  induction place generalizing t other with
  | nil =>
    rw [at?_nil] at h
    cases h
    rw [put]
    exact isFolderAt_of_lookup hkept hother
  | cons name rest ih =>
    obtain ⟨items, inner, rfl, hlookup, hinner⟩ := exists_of_at?_cons h
    cases other with
    | nil => exact ⟨_, at?_nil _⟩
    | cons name' rest' =>
      -- Below the first name the folders are those of the new folder, elsewhere those that were
      -- there.
      rw [IsFolderAt, at?_put_cons hlookup]
      split
      next hname =>
        subst hname
        rw [IsFolderAt, at?_folder_cons hlookup] at hother
        exact ih hinner hother
      next => exact hother

/-! ## Paths -/

/-- Only a folder leads on. -/
theorem isFolderAt_of_step {next : Place} {piece : List Char}
    (h : t.step place piece = .ok next) : t.IsFolderAt place := by
  rw [step] at h
  split at h
  next => cases h
  next => cases h
  next entries hplace => exact ⟨entries, hplace⟩

/-- A path leads somewhere if no part of it is at fault and each piece leads on. -/
theorem follow_eq_ok_iff {start : Place} {path : List Char} :
    t.follow start path = .ok place ↔
      Path.fault? path = none ∧ t.walk (origin start path) (Path.pieces path) = .ok place := by
  rw [follow]
  cases Path.fault? path with
  | none => simp
  | some fault => simp

section Kept

variable (hkept : ∀ place, t.IsFolderAt place → t'.IsFolderAt place)
include hkept

/-- A piece of a path leads to the same place where the folder that it leads on from is kept. -/
theorem step_of_kept {next : Place} {piece : List Char} (h : t.step place piece = .ok next) :
    t'.step place piece = .ok next := by
  obtain ⟨entries, hplace⟩ := isFolderAt_of_step h
  obtain ⟨entries', hplace'⟩ := hkept place ⟨entries, hplace⟩
  rw [step, hplace] at h
  rw [step, hplace']
  exact h

theorem walk_of_kept {pieces : List (List Char)} {last : Place}
    (h : t.walk place pieces = .ok last) : t'.walk place pieces = .ok last := by
  induction pieces generalizing place with
  | nil => exact h
  | cons piece rest ih =>
    rw [walk] at h
    cases hstep : t.step place piece with
    | error fault => rw [hstep] at h; cases h
    | ok next =>
      rw [hstep] at h
      rw [walk, step_of_kept hkept hstep]
      exact ih h

/-- A path leads to the same place where no folder is missing. -/
theorem follow_of_kept {start : Place} {path : List Char} (h : t.follow start path = .ok place) :
    t'.follow start path = .ok place := by
  obtain ⟨hfault, hwalk⟩ := follow_eq_ok_iff.mp h
  exact follow_eq_ok_iff.mpr ⟨hfault, walk_of_kept hkept hwalk⟩

end Kept

/-- A path that leads to something passes by something at each piece. -/
theorem exists_at?_of_walk {pieces : List (List Char)} {last : Place}
    (h : t.walk place pieces = .ok last) (hlast : t.at? last = some old) :
    ∃ found, t.at? place = some found := by
  cases pieces with
  | nil =>
    cases h
    exact ⟨old, hlast⟩
  | cons piece rest =>
    rw [walk] at h
    split at h
    next => cases h
    next next hstep =>
      obtain ⟨entries, hplace⟩ := isFolderAt_of_step hstep
      exact ⟨_, hplace⟩

/-- Where a path leads to something no folder is made for its first pieces. -/
theorem walkMaking_of_walk {pieces rest : List (List Char)} {last : Place}
    (h : t.walk place (pieces ++ rest) = .ok last) (hlast : t.at? last = some old) :
    ∃ next, t.walkMaking place pieces = (t, .ok next) := by
  induction pieces generalizing place with
  | nil => exact ⟨place, rfl⟩
  | cons piece more ih =>
    rw [List.cons_append, walk] at h
    cases hstep : t.step place piece with
    | error fault => rw [hstep] at h; cases h
    | ok next =>
      rw [hstep] at h
      obtain ⟨found, hfound⟩ := exists_at?_of_walk h hlast
      obtain ⟨final, hfinal⟩ := ih h
      refine ⟨final, ?_⟩
      simp only [walkMaking, hstep, hfound]
      exact hfinal

/-- The pieces that lead to folders which are made are the first ones of the path. -/
theorem madePieces_prefix (path : List Char) : madePieces path <+: Path.pieces path := by
  unfold madePieces
  split
  · exact (List.dropLast_prefix _).trans (List.rdropWhile_prefix _ _)
  · exact List.prefix_rfl

/-- For a path that leads to a folder no folder is made. -/
theorem makeFolders_of_follow {start : Place} {path : List Char}
    (h : t.follow start path = .ok place) (hfolder : t.IsFolderAt place) :
    t.makeFolders start path = (t, .ok ()) := by
  obtain ⟨entries, hplace⟩ := hfolder
  obtain ⟨rest, hrest⟩ := madePieces_prefix path
  obtain ⟨hfault, hwalk⟩ := follow_eq_ok_iff.mp h
  rw [← hrest] at hwalk
  obtain ⟨next, hnext⟩ := walkMaking_of_walk hwalk hplace
  simp only [makeFolders, hfault, hnext, h, hplace]

end Runbook.FileTree
