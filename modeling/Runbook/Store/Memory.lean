import Runbook.SortedMap
import Runbook.Store

/-!
# Stores in memory

A store that is a map. It takes every key, and a request fails only if there is no record.
-/

namespace Runbook

/-- A store in memory. -/
structure Memory where
  /-- The records. -/
  entries : SortedMap ByteArray

namespace Memory

/-- The store without records. -/
def empty : Memory := ⟨.empty⟩

/-- Puts bytes under a key. -/
def put (m : Memory) (key : String) (bytes : ByteArray) : Except StoreError Unit × Memory :=
  (.ok (), ⟨m.entries.insert key bytes⟩)

/-- The bytes under a key. -/
def get (m : Memory) (key : String) : Except StoreError ByteArray :=
  match m.entries.get? key with
  | some bytes => .ok bytes
  | none => .error (.notFound key)

/-- Removes the bytes under a key. -/
def delete (m : Memory) (key : String) : Except StoreError Unit × Memory :=
  match m.entries.get? key with
  | some _ => (.ok (), ⟨m.entries.erase key⟩)
  | none => (.error (.notFound key), m)

/-- Removes all records. -/
def deleteAll (m : Memory) : Except StoreError Nat × Memory :=
  (.ok m.entries.size, empty)

/-- All keys with their bytes. -/
def records (m : Memory) : Except StoreError (List (String × ByteArray)) :=
  .ok m.entries.entries

instance : Store Memory := ⟨put, get, delete, deleteAll, records⟩

end Memory

end Runbook
