import Runbook.Arguments
import Runbook.Literal.Text
import Runbook.Log

/-!
# Invocations

What a command line asks for: showing the log, checking a template, simulating one, or printing
the template that reverses an execution.
-/

namespace Runbook

/-- A simulated run of a template. -/
structure SimulationRequest where
  /-- The file of the template. -/
  file : String
  /-- The values of holes, in the order given. -/
  fillers : List (String × Literal)
  /-- Who runs it, if that is given. -/
  author : Option String
  /-- On whose behalf. -/
  profile : String
  /-- Where. -/
  locale : String
  /-- Whether to stop at the first failure. -/
  stopOnError : Bool
deriving DecidableEq

/-- What is to be done. -/
inductive Request where
  /-- Ask the log. -/
  | log (query : Query)
  /-- Check the template in a file. -/
  | check (file : String)
  /-- Simulate the template in a file. -/
  | simulate (simulation : SimulationRequest)
  /-- Print the template that reverses an execution. -/
  | revert (id : String)
deriving DecidableEq

/-- What a command line asks for. -/
structure Invocation where
  /-- The directory of the log, if it is given. -/
  logDirectory : Option String
  /-- What is to be done. -/
  request : Request
deriving DecidableEq

namespace Invocation

/-- The option for the directory of the log, which may stand anywhere. -/
def logDirectoryOption : OptionSpec := .valued "log-dir"

/-- The options for the form of a listing, of which one may be given. -/
def formatOptions : List OptionSpec :=
  [.flag "raw-json", .flag "short", .flag "id-only", .flag "full"]

/-- The options of `log`. -/
def logOptions : List OptionSpec :=
  formatOptions ++ [.flag "delete-all", .valued "delete", ⟨"number", some 'n', true, false⟩]

/-- The options of `simulate`. -/
def simulateOptions : List OptionSpec :=
  [⟨"fill", none, true, true⟩, .valued "author", .valued "profile", .valued "locale",
    .flag "stop-on-error"]

/-- The digits of a count, behind an optional plus sign. -/
def countDigits : List Char → List Char
  | '+' :: cs => cs
  | cs => cs

/-- A count of 64 bits. -/
def count? (text : String) : Option Nat :=
  let digits := countDigits text.toList
  let value := Nat.ofDigitChars 10 digits 0
  if digits ≠ [] ∧ digits.all Char.isDigit ∧ value < 0x10000000000000000 then some value else none

/-- The value of a hole, written as `name=value`. -/
def filler? (text : String) : Option (String × Literal) :=
  match Arguments.splitAtEquals text.toList with
  | ([], _) | (_, none) => none
  | (name, some value) => some (String.ofList name, Literal.ofWord value)

/-- A path, which must not be empty. -/
def path? (text : String) : Option String :=
  if text.isEmpty then none else some text

/-- The form of a listing. -/
def format (a : Arguments) : Format :=
  if a.has "raw-json" then .json
  else if a.has "id-only" then .identity
  else if a.has "full" then .full
  else .short

/-- The query of `log`. -/
def log? (a : Arguments) : Option Request := do
  if 1 < a.operands.length ∨ 1 < formatOptions.countP (fun spec => a.has spec.long) then none
  else
    let limit ← count? ((a.value? "number").getD "0")
    return .log {
      format := format a
      limit
      only := a.operands.head?
      deleteAll := a.has "delete-all"
      delete := a.value? "delete" }

/-- The request of `check`. -/
def check? (a : Arguments) : Option Request :=
  match a.operands with
  | [file] => (path? file).map .check
  | _ => none

/-- The request of `simulate`. -/
def simulate? (a : Arguments) : Option Request :=
  match a.operands with
  | [file] => do
    let file ← path? file
    let fillers ← (a.values "fill").mapM filler?
    return .simulate {
      file, fillers
      author := a.value? "author"
      profile := (a.value? "profile").getD ""
      locale := (a.value? "locale").getD ""
      stopOnError := a.has "stop-on-error" }
  | _ => none

/-- The request of `revert`. -/
def revert? (a : Arguments) : Option Request :=
  match a.operands with
  | [id] => some (.revert id)
  | _ => none

/-- The options of a command, and how its request is read. -/
def command? : String → Option (List OptionSpec × (Arguments → Option Request))
  | "log" => some (logOptions, log?)
  | "check" => some ([], check?)
  | "simulate" => some (simulateOptions, simulate?)
  | "revert" => some ([], revert?)
  | _ => none

/-- The directory of the log among options, if it is given. -/
def logDirectory? (options : List (String × String)) : Option (Option String) :=
  match options.lookup logDirectoryOption.long with
  | none => some none
  | some path => (path? path).map some

/-- What a command line asks for, if it is well formed. The directory of the log may be given
before and behind the command; the latter counts. -/
def ofArguments? (arguments : List String) : Option Invocation := do
  let (options, name, rest) ← Arguments.untilOperand? [logDirectoryOption] arguments
  let (specs, request?) ← command? name
  let a ← Arguments.read? (logDirectoryOption :: specs) rest
  if !Arguments.areUnrepeated [logDirectoryOption] options ||
      !Arguments.areUnrepeated (logDirectoryOption :: specs) a.options then none
  else
    let outer ← logDirectory? options
    let inner ← logDirectory? a.options
    -- Of the two directories the one behind the command counts.
    return ⟨inner.or outer, ← request? a⟩

end Invocation

end Runbook
