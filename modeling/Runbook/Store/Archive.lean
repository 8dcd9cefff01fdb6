import Runbook.Store.Directory

/-!
# Stores at a path

A store in the directory that a path leads to. Before the first record is put, the directory and
the folders above it are made.
-/

namespace Runbook

/-- Files and folders, and the path of the directory among them that holds the records. -/
structure Archive where
  /-- The files and folders. -/
  files : FileTree
  /-- The place where a path that is not absolute begins. -/
  start : Place
  /-- The path of the directory. -/
  path : String

namespace Archive

/-- The place that the path leads to. -/
def place (a : Archive) : Except FileFault Place :=
  a.files.follow a.start a.path.toList

/-- The directory that the path leads to. -/
def directory (a : Archive) : Except FileFault Directory :=
  match a.place with
  | .error .absent => .ok .absent
  | .error fault => .error fault
  | .ok place =>
    match a.files.at? place with
    | some (.folder entries) => .ok ⟨some (.ofList entries)⟩
    | some (.file _) => .error .notFolder
    | none => .ok .absent

/-- The archive with another directory, if there is one. -/
def withDirectory (a : Archive) (d : Directory) : Archive :=
  match a.place, d.items with
  | .ok place, some items => { a with files := (FileTree.folder items.entries).put a.files place }
  | _, _ => a

/-- The archive with the directory made. -/
def made (a : Archive) : Archive × Except FileFault Unit :=
  let (files, result) := a.files.makeFolders a.start a.path.toList
  ({ a with files }, result)

/-- Does something to the directory. -/
def change {α : Type} (a : Archive) (f : Directory → Except StoreError α × Directory) :
    Except StoreError α × Archive :=
  match a.directory with
  | .error fault => (.error (.file fault), a)
  | .ok d => ((f d).1, a.withDirectory (f d).2)

/-- Why the path of the file of a record cannot be followed, whatever there is. The path of the
directory counts towards its length. -/
def fault? (a : Archive) (key : String) : Option FileFault :=
  Path.fault? (Path.join a.path.toList (Directory.fileName key).toList)

/-- The first fault of the paths of some records. -/
def firstFault? (a : Archive) (items : List (String × FileTree)) : Option FileFault :=
  items.findSome? fun item => a.fault? item.1

/-- The bytes under a key. -/
def get (a : Archive) (key : String) : Except StoreError ByteArray :=
  if Directory.isKey key then
    match a.fault? key with
    | some fault => .error (.file fault)
    | none =>
      match a.directory with
      | .error fault => .error (.file fault)
      | .ok d => d.get key
  else .error (.invalidKey key)

/-- Puts bytes under a key. The directory is made even when the file cannot be written. -/
def put (a : Archive) (key : String) (bytes : ByteArray) : Except StoreError Unit × Archive :=
  if Directory.isKey key then
    match a.made with
    | (a, .error fault) => (.error (.file fault), a)
    | (a, .ok _) =>
      match a.fault? key with
      | some fault => (.error (.file fault), a)
      | none => a.change fun d => d.put key bytes
  else (.error (.invalidKey key), a)

/-- Removes the bytes under a key. -/
def delete (a : Archive) (key : String) : Except StoreError Unit × Archive :=
  if Directory.isKey key then
    match a.fault? key with
    | some fault => (.error (.file fault), a)
    | none => a.change fun d => d.delete key
  else (.error (.invalidKey key), a)

/-- Removes the records of a directory in order, up to the first one that cannot be removed. -/
def deleteRecords (a : Archive) (d : Directory) : Except StoreError Nat × Directory :=
  match a.firstFault? d.recordItems with
  | none => d.deleteAll
  | some fault =>
    let reached := d.recordItems.takeWhile fun item => (a.fault? item.1).isNone
    match Directory.deleteItems d.contents reached with
    | (.error error, contents) => (.error error, ⟨some contents⟩)
    | (.ok _, contents) => (.error (.file fault), ⟨some contents⟩)

/-- Removes all records. -/
def deleteAll (a : Archive) : Except StoreError Nat × Archive :=
  a.change a.deleteRecords

/-- All keys with their bytes. -/
def records (a : Archive) : Except StoreError (List (String × ByteArray)) :=
  match a.directory with
  | .error fault => .error (.file fault)
  | .ok d =>
    match a.firstFault? d.recordItems with
    | some fault => .error (.file fault)
    | none => d.records

instance : Store Archive := ⟨put, get, delete, deleteAll, records⟩

end Archive

end Runbook
