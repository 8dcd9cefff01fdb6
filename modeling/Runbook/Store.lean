import Runbook.FileFault

/-!
# Stores

Where records are kept: bytes under text keys. Every operation is a complete request; one that
changes the store gives the new store even when it fails half way.
-/

namespace Runbook

/-- Why a store does not answer a request. -/
inductive StoreError where
  /-- There is no record under the key. -/
  | notFound (key : String)
  /-- No record can be under the key. -/
  | invalidKey (key : String)
  /-- A file cannot be read or written. -/
  | file (fault : FileFault)
deriving DecidableEq, Repr

namespace StoreError

/-- The error in words. -/
def message : StoreError → String
  | .notFound key => "no record stored under key '" ++ key ++ "'"
  | .invalidKey key => "invalid record key '" ++ key ++ "'"
  | .file fault => "log store I/O error: " ++ fault.reason

end StoreError

/-- What can be asked of a store. -/
class Store (σ : Type) where
  /-- Puts bytes under a key, in place of any earlier ones. -/
  put : σ → String → ByteArray → Except StoreError Unit × σ
  /-- The bytes under a key. -/
  get : σ → String → Except StoreError ByteArray
  /-- Removes the bytes under a key. -/
  delete : σ → String → Except StoreError Unit × σ
  /-- Removes all records and tells how many there were. -/
  deleteAll : σ → Except StoreError Nat × σ
  /-- All keys with their bytes, in ascending order of key. -/
  records : σ → Except StoreError (List (String × ByteArray))

end Runbook
