import Runbook.Report
import Runbook.Store

/-!
# The log

The executions in a store: saving one, loading one or all, and the queries that list or delete
them. A listing never stops at a bad record: it shows the error in its place.
-/

namespace Runbook

/-- Why a request to the log fails. -/
inductive LogError where
  /-- No execution has the identity. -/
  | unknown (id : String)
  /-- A record cannot be read. -/
  | decode (error : DecodeError)
  /-- The store does not give or delete a record. -/
  | access (id : String) (error : StoreError)
  /-- The store does not take a record. -/
  | save (id : String) (error : StoreError)
  /-- The store does not list its records. -/
  | list (error : StoreError)
  /-- The store does not delete its records. -/
  | deleteAll (error : StoreError)
deriving DecidableEq

namespace LogError

/-- The error in words. -/
def message (wording : Wording) : LogError → String
  | .unknown id => "no template execution found for id '" ++ id ++ "'"
  | .decode error => error.message wording
  | .access id error => "failed to access template execution " ++ id ++ ": " ++ error.message
  | .save id error => "failed to store template execution " ++ id ++ ": " ++ error.message
  | .list error => "failed to list template executions: " ++ error.message
  | .deleteAll error => "failed to delete template executions: " ++ error.message

/-- The error of a request for the record of an identity. -/
def ofRequest (id : String) : StoreError → LogError
  | .notFound _ => .unknown id
  | error => .access id error

end LogError

/-- A record of the log: its key, its bytes and the execution they stand for. -/
structure Loaded where
  /-- The key. -/
  key : String
  /-- The bytes. -/
  bytes : ByteArray
  /-- The execution, or why there is none. -/
  execution : Except DecodeError Execution

/-- What is asked of the log. One execution comes before deletions, and these before a listing. -/
structure Query where
  /-- The form in which a listing shows executions. -/
  format : Format
  /-- How many executions a listing shows; zero stands for all. -/
  limit : Nat
  /-- The identity of the only execution to show, in full. -/
  only : Option String
  /-- Whether to delete all records. -/
  deleteAll : Bool
  /-- The identity of the execution to delete. -/
  delete : Option String
deriving DecidableEq, Repr

namespace Log

variable {σ : Type} [Store σ]

/-- Keeps an execution under its identity. -/
def save (store : σ) (e : Execution) : Except LogError Unit × σ :=
  let (result, store) := Store.put store e.id e.encode
  (result.mapError (.save e.id), store)

/-- The execution of an identity. -/
def load (store : σ) (id : String) : Except LogError Execution :=
  match Store.get store id with
  | .error error => .error (.ofRequest id error)
  | .ok bytes => (Execution.decode bytes).mapError .decode

/-- The record under a key. -/
def loaded (record : String × ByteArray) : Loaded :=
  ⟨record.1, record.2, Execution.decode record.2⟩

/-- All records in ascending order of key. -/
def loadAll (store : σ) : Except LogError (List Loaded) :=
  match Store.records store with
  | .error error => .error (.list error)
  | .ok records => .ok (records.map loaded)

/-- The last records of a listing. -/
def lastOf {α : Type} (limit : Nat) (records : List α) : List α :=
  if limit = 0 then records else records.drop (records.length - limit)

section Listing

variable (wording : Wording) (now : Instant)

/-- How a listing shows a record. -/
def shown (format : Format) (l : Loaded) : String :=
  match l.execution with
  | .ok e => (e.shown .standard now format).text ++ "\n"
  | .error error => "Template '" ++ l.key ++ "' in error: " ++ error.message wording ++ "\n"

/-- The listing of records in a form. -/
def listing (format : Format) (records : List Loaded) : String :=
  String.join (records.map (shown wording now format))

/-- Answers a query as of an instant. -/
def query (q : Query) (store : σ) : Output LogError × σ :=
  match q.only with
  | some id =>
    match load store id with
    | .error error => (.ofError error, store)
    | .ok e => (((e.details .standard).mapError .decode).followedBy "\n", store)
  | none =>
    if q.deleteAll then
      let (result, store) := Store.deleteAll store
      match result with
      | .error error => (.ofError (.deleteAll error), store)
      | .ok _ => (.ofText "", store)
    else
      match q.delete with
      | some id =>
        let (result, store) := Store.delete store id
        match result with
        | .error error => (.ofError (.ofRequest id error), store)
        | .ok _ => (.ofText "", store)
      | none =>
        match loadAll store with
        | .error error => (.ofError error, store)
        | .ok records =>
          (.ofText (listing wording now q.format (lastOf q.limit records)), store)

end Listing

end Log

end Runbook
