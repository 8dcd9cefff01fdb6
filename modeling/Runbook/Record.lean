import Runbook.Execution
import Runbook.Json.Fields
import Runbook.Json.Printer
import Runbook.Statement.Reader

/-!
# Records

The form in which executions are stored: a JSON object with one entry per command. An entry holds
the text of the command with references and holes replaced by the values they had in the run,
the error if there was one, the result if it is a text, and a mark if the command did not run.
Reading a record gives bare commands; names of declarations are not kept.
-/

namespace Runbook

/-- A command in a record. -/
structure Entry where
  /-- The text of the command. -/
  line : String
  /-- The errors; only the first one counts. -/
  errors : List String
  /-- The textual results; only the first one counts. -/
  results : List String
  /-- Whether the command did not run. -/
  pending : Bool
deriving DecidableEq, Repr

/-- An execution as it is stored. -/
structure Record where
  /-- The text of the identity. -/
  id : String
  /-- Who ran it. -/
  author : String
  /-- The text that the template was read from. -/
  source : String
  /-- Where it ran. -/
  locale : String
  /-- On whose behalf it ran. -/
  profile : String
  /-- The values of holes. -/
  fillers : Fillers
  /-- The commands. -/
  entries : List Entry
deriving DecidableEq

/-- What is said of bytes that are no record. The words are those of the reader of JSON, which tells
what it met and where. -/
abbrev Wording := ByteArray → String

/-- Bytes are compared as arrays of bytes, whatever libraries bring. -/
local instance (priority := 1100) decidableEqBytes : DecidableEq ByteArray :=
  ByteArray.instDecidableEq

/-- Why bytes are no execution. -/
inductive DecodeError where
  /-- The bytes are no record. -/
  | notRecord (bytes : ByteArray)
  /-- The identity of the record is none. -/
  | identity (text : String) (error : IdentityError)
  /-- The text of the command at a position, counted from one, is none. -/
  | command (position : Nat) (error : SyntaxError)
deriving DecidableEq

namespace DecodeError

variable (wording : Wording)

/-- The cause in words. -/
def reason : DecodeError → String
  | .notRecord bytes => wording bytes
  | .identity text error => "invalid execution id '" ++ text ++ "': " ++ error.reason
  | .command position error => "command " ++ toString position ++ ": " ++ error.message

/-- The error in words. -/
def message (e : DecodeError) : String :=
  "cannot decode template execution: " ++ e.reason wording

end DecodeError

/-- The literal result of the last declaration of a name that did not fail and has one. -/
def Template.captured? (t : Template) (name : String) : Option Literal :=
  t.statements.reverse.findSome? fun s =>
    if s.name = some name then s.command.outcome.captured? else none

/-- The value that a parameter had in the run of a template, or the parameter itself where it had
none that can be written. -/
def Template.executed (t : Template) (fillers : Fillers) : Value → Value
  | .literal l => .literal l
  | .reference name =>
    match t.captured? name with
    | some l => .literal l
    -- Unlike in reversals this is no fault, as the text of the command must be kept.
    | none => .reference name
  | .hole name => fillers.fill name

namespace Entry

/-- The entry of a command of a template. -/
def ofCommand (t : Template) (fillers : Fillers) (c : Command) : Entry where
  line := { c with parameters := c.parameters.map (t.executed fillers) }.text
  errors := c.outcome.error.toList
  results := c.outcome.resultText?.toList
  pending := !c.outcome.hasRun

/-- What became of the command of an entry. One that ran without a textual result or an error has
the result null. -/
def outcome (e : Entry) : Outcome :=
  let kept : Outcome := ⟨e.results.head?.map .string, e.errors.head?⟩
  if e.pending || kept.hasRun then kept else .success .null

/-- The command of an entry. -/
def toCommand (e : Entry) : Except SyntaxError Command :=
  (Statement.ofText e.line).map fun statement => statement.command.withOutcome e.outcome

/-- The entry as a JSON value. Empty lists and an unset mark are left out. -/
def toJson (e : Entry) : Json :=
  .object <|
    [("line", .string e.line)] ++
    (if e.errors.isEmpty then [] else [("errors", .array (e.errors.map .string))]) ++
    (if e.results.isEmpty then [] else [("results", .array (e.results.map .string))]) ++
    (if e.pending then [("pending", .bool true)] else [])

/-- The names of the fields in order. -/
def fieldNames : List String := ["line", "errors", "results", "pending"]

/-- A list of texts in a document. -/
def texts? (d : Json.Document) : Option (List String) := do
  (← d.items?).mapM Json.Document.text?

/-- The entry that a document stands for. -/
def ofDocument? (d : Json.Document) : Option Entry := do
  match ← d.fields? fieldNames with
  | [line, errors, results, pending] =>
    return {
      line := ← Json.Document.fieldOr "" Json.Document.text? line
      errors := ← Json.Document.fieldOr [] texts? errors
      results := ← Json.Document.fieldOr [] texts? results
      pending := ← Json.Document.fieldOr false Json.Document.bool? pending }
  | _ => none

end Entry

namespace Record

/-- The record of an execution. -/
def ofExecution (e : Execution) : Record where
  id := e.id
  author := e.author
  source := e.source
  locale := e.locale
  profile := e.profile
  fillers := e.fillers
  entries := e.template.commands.map (Entry.ofCommand e.template e.fillers)

/-- The commands of entries from the one at a position on. -/
def readEntries (position : Nat) : List Entry → Except DecodeError (List Command)
  | [] => .ok []
  | entry :: rest =>
    match entry.toCommand with
    | .error e => .error (.command position e)
    | .ok command =>
      match readEntries (position + 1) rest with
      | .error e => .error e
      | .ok commands => .ok (command :: commands)

/-- The execution that a record stands for. -/
def toExecution (r : Record) : Except DecodeError Execution :=
  match Identity.parse r.id with
  | .error e => .error (.identity r.id e)
  | .ok _ =>
    match readEntries 1 r.entries with
    | .error e => .error e
    | .ok commands =>
      .ok {
        id := r.id
        author := r.author
        source := r.source
        locale := r.locale
        profile := r.profile
        fillers := r.fillers
        template := .ofCommands commands }

/-- A field that is left out if its text is empty. -/
def optionalField (name value : String) : List (String × Json) :=
  if value.isEmpty then [] else [(name, .string value)]

/-- The record as a JSON value. -/
def toJson (r : Record) : Json :=
  .object <|
    [("id", .string r.id)] ++
    optionalField "author" r.author ++
    [("source", .string r.source), ("locale", .string r.locale)] ++
    optionalField "profile" r.profile ++
    [("fillers", .object (r.fillers.map Literal.toJson).entries),
      ("commands", .array (r.entries.map Entry.toJson))]

/-- The names of the fields in order. -/
def fieldNames : List String :=
  ["id", "author", "source", "locale", "profile", "fillers", "commands"]

/-- The nesting that is left for a filler inside its record. -/
def fillerNesting : Nat := Json.Document.nestingLimit - 2

/-- The filler that a member of a document stands for. -/
def filler? (member : String × Json.Document) : Option (String × Literal) := do
  return (member.1, ← Literal.decode? (← member.2.value? fillerNesting))

/-- The fillers in a document. Of several under one name the last one counts, in the place of the
first. -/
def fillers? (d : Json.Document) : Option Fillers := do
  return .ofList (← (← d.members?).mapM filler?)

/-- The entries in a document. -/
def entries? (d : Json.Document) : Option (List Entry) := do
  (← d.items?).mapM Entry.ofDocument?

/-- The record that a document stands for. -/
def ofDocument? (d : Json.Document) : Option Record := do
  match ← d.fields? fieldNames with
  | [id, author, source, locale, profile, fillers, entries] =>
    return {
      id := ← Json.Document.fieldOr "" Json.Document.text? id
      author := ← Json.Document.fieldOr "" Json.Document.text? author
      source := ← Json.Document.fieldOr "" Json.Document.text? source
      locale := ← Json.Document.fieldOr "" Json.Document.text? locale
      profile := ← Json.Document.fieldOr "" Json.Document.text? profile
      fillers := ← Json.Document.fieldOr .empty fillers? fillers
      entries := ← Json.Document.fieldOr [] entries? entries }
  | _ => none

end Record

namespace Execution

/-- The text of the record of an execution in a layout. -/
def recordText (layout : Json.Layout) (e : Execution) : String :=
  (Record.ofExecution e).toJson.text layout

/-- The bytes that an execution is stored as. -/
def encode (e : Execution) : ByteArray :=
  (e.recordText .compact).toUTF8

/-- The execution that stored bytes stand for. -/
def decode (bytes : ByteArray) : Except DecodeError Execution :=
  match (Json.Document.ofBytes? bytes).bind Record.ofDocument? with
  | none => .error (.notRecord bytes)
  | some record => record.toExecution

end Execution

end Runbook
