import Runbook.OrderedMap
import Runbook.Path

/-!
# Files and folders

Files and folders, and what a path leads to among them. A path is followed piece by piece from a
place; every piece behind the first one must stand below a folder, even one that leads nowhere
else. What the last piece names need not exist.
-/

namespace Runbook

/-- A file, or a folder with what it holds. -/
inductive FileTree where
  /-- A file with its contents. -/
  | file (bytes : ByteArray)
  /-- A folder with what it holds, by name. -/
  | folder (entries : List (String × FileTree))

/-- The names that lead to something from the root down. -/
abbrev Place := List String

namespace FileTree

/-- What there is at a place. -/
def at? : FileTree → Place → Option FileTree
  | t, [] => some t
  | .file _, _ :: _ => none
  | .folder entries, name :: rest =>
    match entries.lookup name with
    | some t => t.at? rest
    | none => none

/-- Puts something at a place; folders above it that are missing are made. -/
def put (item : FileTree) : FileTree → Place → FileTree
  | _, [] => item
  | .file bytes, _ :: _ => .file bytes
  | .folder entries, name :: rest =>
    let old := (entries.lookup name).getD (.folder [])
    .folder (OrderedMap.insertEntry name (item.put old rest) entries)

/-- The place that a piece of a path leads to from a place. -/
def step (t : FileTree) (place : Place) (piece : List Char) : Except FileFault Place :=
  match t.at? place with
  | none => .error .absent
  | some (.file _) => .error .notFolder
  -- A piece behind a file is refused even if it leads nowhere else.
  | some (.folder _) =>
    if !Path.isNamed piece then .ok place
    else if piece = ['.', '.'] then .ok place.dropLast
    else if Path.nameLimit < Path.byteSize piece then .error .nameTooLong
    else .ok (place ++ [String.ofList piece])

/-- The place that pieces of a path lead to from a place. -/
def walk (t : FileTree) (place : Place) : List (List Char) → Except FileFault Place
  | [] => .ok place
  | piece :: rest =>
    match t.step place piece with
    | .error fault => .error fault
    | .ok next => t.walk next rest

/-- The place where following a path begins. -/
def origin (start : Place) (path : List Char) : Place :=
  if Path.isAbsolute path then [] else start

/-- The place that a path leads to; one that is not absolute begins at `start`. -/
def follow (t : FileTree) (start : Place) (path : List Char) : Except FileFault Place :=
  match Path.fault? path with
  | some fault => .error fault
  | none => t.walk (origin start path) (Path.pieces path)

/-- Follows pieces of a path and makes a folder wherever there is nothing. -/
def walkMaking (t : FileTree) (place : Place) :
    List (List Char) → FileTree × Except FileFault Place
  | [] => (t, .ok place)
  | piece :: rest =>
    match t.step place piece with
    | .error fault => (t, .error fault)
    | .ok next =>
      match t.at? next with
      | some _ => t.walkMaking next rest
      | none => ((FileTree.folder []).put t next).walkMaking next rest

/-- The pieces that lead to folders which are made for a path. A path that closes with `.` needs
the folder that it names, so that only the folders above that one are made. -/
def madePieces (path : List Char) : List (List Char) :=
  if Path.endsInDot path then
    ((Path.pieces path).reverse.dropWhile fun piece => !Path.isNamed piece).reverse.dropLast
  else Path.pieces path

/-- Makes the folder that a path leads to and those above it, where there is nothing. -/
def makeFolders (t : FileTree) (start : Place) (path : List Char) :
    FileTree × Except FileFault Unit :=
  match Path.fault? path with
  | some fault => (t, .error fault)
  | none =>
    match t.walkMaking (origin start path) (madePieces path) with
    | (t, .error fault) => (t, .error fault)
    | (t, .ok _) =>
      -- The folder itself may have been there already, or may be a file.
      match t.follow start path with
      | .error fault => (t, .error fault)
      | .ok place =>
        match t.at? place with
        | some (.folder _) => (t, .ok ())
        | some (.file _) => (t, .error .isTaken)
        | none => (t, .error .absent)

end FileTree

end Runbook
