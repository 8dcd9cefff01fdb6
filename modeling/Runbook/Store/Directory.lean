import Runbook.FileTree
import Runbook.SortedMap
import Runbook.Store

/-!
# Stores in a directory

A store that keeps each record in a file of a directory, named by the key and the extension
`.json`. The directory is created with the first record. It may hold other files and folders:
those that are not named as a record are left alone.
-/

namespace Runbook

/-- A directory, which may not exist yet. -/
structure Directory where
  /-- What is in the directory, by name; nothing before it exists. -/
  items : Option (SortedMap FileTree)

namespace Directory

/-- A directory that does not exist yet. -/
def absent : Directory := ⟨none⟩

/-- What is in the directory. -/
def contents (d : Directory) : SortedMap FileTree :=
  d.items.getD .empty

/-- The directory with something placed under a name. -/
def place (d : Directory) (name : String) (item : FileTree) : Directory :=
  ⟨some (d.contents.insert name item)⟩

/-- Whether a key can name a record: it consists of letters, digits, `-` and `_` of ASCII. -/
def isKey (key : String) : Bool :=
  !key.isEmpty && key.toList.all fun c => c.isAlphanum || c == '-' || c == '_'

/-- The end of the names of records. -/
def extension : List Char := ['.', 'j', 's', 'o', 'n']

/-- The name of the file of a record. -/
def fileName (key : String) : String :=
  String.ofList (key.toList ++ extension)

/-- The key of the record in a file of the given name. -/
def key? (name : String) : Option String :=
  let stem := name.toList.take (name.toList.length - extension.length)
  let key := String.ofList stem
  if name.toList = stem ++ extension ∧ isKey key then some key else none

/-- Whether a file can have the name. -/
def fits (name : String) : Bool :=
  name.utf8ByteSize ≤ Path.nameLimit

/-- What a file holds, where something was found under its name. -/
def bytes? (key : String) : Option FileTree → Except StoreError ByteArray
  | some (.file bytes) => .ok bytes
  | some (.folder _) => .error (.file .isFolder)
  | none => .error (.notFound key)

/-- The bytes under a key. In a directory that does not exist no file is found, whatever its
name. -/
def get (d : Directory) (key : String) : Except StoreError ByteArray :=
  if !isKey key then .error (.invalidKey key)
  else
    match d.items with
    | none => .error (.notFound key)
    | some items =>
      if fits (fileName key) then bytes? key (items.get? (fileName key))
      else .error (.file .nameTooLong)

/-- Puts bytes under a key. -/
def put (d : Directory) (key : String) (bytes : ByteArray) :
    Except StoreError Unit × Directory :=
  if !isKey key then (.error (.invalidKey key), d)
  else
    -- The directory is there afterwards even if the file cannot be written.
    let created : Directory := ⟨some d.contents⟩
    if fits (fileName key) then
      match d.contents.get? (fileName key) with
      | some (.folder _) => (.error (.file .isFolder), created)
      | _ => (.ok (), d.place (fileName key) (.file bytes))
    else (.error (.file .nameTooLong), created)

/-- Removes the bytes under a key. -/
def delete (d : Directory) (key : String) : Except StoreError Unit × Directory :=
  match d.get key with
  | .ok _ => (.ok (), ⟨some (d.contents.erase (fileName key))⟩)
  | .error e => (.error e, d)

/-- What is named as a record, by key in ascending order. -/
def recordItems (d : Directory) : List (String × FileTree) :=
  (SortedMap.ofList <| d.contents.entries.filterMap fun entry =>
    (key? entry.1).map fun key => (key, entry.2)).entries

/-- The records among the given items. -/
def readItems : List (String × FileTree) → Except StoreError (List (String × ByteArray))
  | [] => .ok []
  | (key, item) :: rest =>
    match bytes? key (some item) with
    | .error e => .error e
    | .ok bytes =>
      match readItems rest with
      | .error e => .error e
      | .ok records => .ok ((key, bytes) :: records)

/-- All keys with their bytes. -/
def records (d : Directory) : Except StoreError (List (String × ByteArray)) :=
  readItems d.recordItems

/-- Removes the files of the given items in order, up to the first folder. -/
def deleteItems (contents : SortedMap FileTree) :
    List (String × FileTree) → Except StoreError Unit × SortedMap FileTree
  | [] => (.ok (), contents)
  -- Files removed before this folder stay removed.
  | (_, .folder _) :: _ => (.error (.file .isFolder), contents)
  | (key, .file _) :: rest => deleteItems (contents.erase (fileName key)) rest

/-- Removes all records. -/
def deleteAll (d : Directory) : Except StoreError Nat × Directory :=
  let doomed := d.recordItems
  let (result, contents) := deleteItems d.contents doomed
  (result.map fun _ => doomed.length, ⟨d.items.map fun _ => contents⟩)

instance : Store Directory := ⟨put, get, delete, deleteAll, records⟩

end Directory

end Runbook
