import Runbook.Record
import Runbook.Text.Lines

/-!
# Reports

How an execution is shown: in full, in one line, by its identity, or as its record. A report may
fail when the identity is none; the output then holds what was written before.
-/

namespace Runbook

/-- What was written, and the error that ended the writing. -/
structure Output (ε : Type) where
  /-- The text. -/
  text : String
  /-- The error, if there was one. -/
  error : Option ε
deriving DecidableEq, Repr

namespace Output

/-- An output without error. -/
def ofText {ε : Type} (text : String) : Output ε := ⟨text, none⟩

/-- An error before which nothing was written. -/
def ofError {ε : Type} (error : ε) : Output ε := ⟨"", some error⟩

/-- The output with its error replaced by its image. -/
def mapError {ε δ : Type} (f : ε → δ) (o : Output ε) : Output δ := ⟨o.text, o.error.map f⟩

/-- The output with a text behind it, unless it ended in an error. -/
def followedBy {ε : Type} (o : Output ε) (text : String) : Output ε :=
  if o.error.isSome then o else { o with text := o.text ++ text }

end Output

namespace Command

/-- The lines of an error, without tabulators. -/
def errorLines (error : String) : String :=
  let lines := Text.lines (error.toList.filter (· != '\t'))
  String.join (lines.map fun line => "\t    " ++ String.ofList line ++ "\n")

/-- How a command is shown: whether it failed, its text, its textual result and its error. -/
def details (c : Command) : String :=
  let status := if c.outcome.failed then "KO" else "OK"
  let result :=
    match c.outcome.resultText? with
    | some result => "\t[" ++ result ++ "]"
    | none => ""
  "    " ++ status ++ "\t" ++ c.text ++ result ++ "\n" ++
    ((c.outcome.error.map errorLines).getD "")

end Command

namespace Execution

/-- A label with a text, nothing if the text is empty. -/
def labelled (label text : String) : String :=
  if text.isEmpty then "" else "\t" ++ label ++ ": " ++ text

/-- The remark on an execution that cannot be reversed. -/
def remark (policy : Policy) (e : Execution) : String :=
  if e.template.isReversible policy then "" else " (not revertible)"

/-- The instant of the creation, or why there is none. -/
def creation (e : Execution) : Except DecodeError Instant :=
  e.instant.mapError (.identity e.id)

/-- The execution in full: a line on the execution and the details of each command. -/
def details (policy : Policy) (e : Execution) : Output DecodeError :=
  match e.creation with
  | .error error => .ofError error
  | .ok instant =>
    .ofText <|
      "ID: " ++ e.id ++ "\tDate: " ++ instant.stamp ++ labelled "Author" e.author ++
        labelled "Locale" e.locale ++ labelled "Profile" e.profile ++ e.remark policy ++ "\n" ++
        String.join (e.template.commands.map Command.details)

/-- What an execution consists of: its only command, or the number of its commands. -/
def contents (e : Execution) : String :=
  match e.template.commands with
  | [c] => c.kind
  | commands => toString commands.length ++ " commands"

/-- Who ran an execution, on whose behalf. -/
def origin (e : Execution) : String :=
  if e.author.isEmpty then ""
  else if e.profile.isEmpty then " <" ++ e.author ++ ">"
  else " <" ++ e.profile ++ ":" ++ e.author ++ ">"

/-- The execution in one line, as of an instant. -/
def summary (policy : Policy) (now : Instant) (e : Execution) : Output DecodeError :=
  let status := if e.template.tally.allSucceeded then "OK" else "KO"
  let start := e.id ++ " " ++ status ++ " - " ++ e.contents
  match e.creation with
  | .error error => ⟨start, some error⟩
  | .ok instant =>
    .ofText <|
      start ++ " (" ++ instant.age now ++ " ago)" ++ e.origin ++
        (if e.locale.isEmpty then "" else " [" ++ e.locale ++ "]") ++ e.remark policy

/-- The record of an execution, indented. -/
def record (e : Execution) : Output DecodeError :=
  .ofText (e.recordText .indented ++ "\n")

end Execution

/-- The forms in which a listing shows executions. -/
inductive Format where
  /-- With every command. -/
  | full
  /-- In one line. -/
  | short
  /-- By the identity only. -/
  | identity
  /-- As the stored record. -/
  | json
deriving DecidableEq, Repr

namespace Execution

/-- The execution in a form. -/
def shown (policy : Policy) (now : Instant) (e : Execution) : Format → Output DecodeError
  | .full => e.details policy
  | .short => e.summary policy now
  | .identity => .ofText e.id
  | .json => e.record

end Execution

end Runbook
