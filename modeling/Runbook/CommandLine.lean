import Runbook.FileFault
import Runbook.Invocation
import Runbook.Simulation
import Runbook.Template.Reader

/-!
# The command line

What each request does to a store and prints. Files, the clock, fresh identities, the name of
the user and the words of the reader of JSON come from the surroundings.
-/

namespace Runbook

/-- Why a request fails. -/
inductive Failure where
  /-- A template cannot be read from its file. -/
  | unreadable (file : String) (fault : FileFault)
  /-- A file holds no template. -/
  | malformed (file : String) (error : SyntaxError)
  /-- Holes have no filler. -/
  | missingFillers (names : List String)
  /-- The log does not answer. -/
  | log (error : LogError)
  /-- An execution cannot be reversed. -/
  | irreversible (id : String) (error : ReversalError)
deriving DecidableEq

namespace Failure

/-- The failure in words. -/
def message (wording : Wording) : Failure → String
  | .unreadable file fault => "failed to read template " ++ file ++ ": " ++ fault.reason
  | .malformed file error => "invalid template " ++ file ++ ": " ++ error.message
  | .missingFillers names => "missing --fill for: " ++ ", ".intercalate names
  | .log error => error.message wording
  | .irreversible id error => "cannot revert execution " ++ id ++ ": " ++ error.message

end Failure

/-- What requests need to know. -/
structure Context where
  /-- The text of a file, or why it cannot be read. -/
  fileText : String → Except FileFault String
  /-- The time. -/
  now : Instant
  /-- An identity that no execution has. -/
  fresh : Identity
  /-- The name of the user. -/
  user : Option String
  /-- What is said of bytes that are no record. -/
  wording : Wording

namespace CommandLine

variable {σ : Type} [Store σ]

/-- The template in a file, and its text. -/
def readTemplate (context : Context) (file : String) : Except Failure (String × Template) :=
  match context.fileText file with
  | .error fault => .error (.unreadable file fault)
  | .ok source =>
    match Template.ofText source with
    | .error e => .error (.malformed file e)
    | .ok template => .ok (source, template)

/-- How a count of commands of a kind is shown. -/
def countLine (count : String × Nat) : String :=
  toString count.2 ++ "\t" ++ count.1 ++ "\n"

/-- The canonical text of a template, the counts of its commands and whether it can be reversed. -/
def checked (t : Template) : String :=
  t.text ++ "\n" ++ String.join (t.stats.entries.map countLine) ++
    if t.isReversible .standard then "revertible\n" else "not revertible\n"

/-- Checks the template in a file. -/
def check (context : Context) (file : String) : Output Failure :=
  match readTemplate context file with
  | .error failure => .ofError failure
  | .ok (_, template) => .ofText (checked template)

/-- The execution that a simulation starts from. -/
def started (context : Context) (s : SimulationRequest) (source : String) (t : Template) :
    Execution where
  id := context.fresh.text
  author := s.author.getD (context.user.getD "")
  source := source
  locale := s.locale
  profile := s.profile
  fillers := .ofList s.fillers
  template := t

/-- The execution after its template ran in a simulation. -/
def simulated (e : Execution) (stopOnError : Bool) : Execution :=
  e.withTemplate (e.run (Simulation.runner .empty) stopOnError 0).template

/-- Simulates the template in a file and keeps the execution. -/
def simulate (context : Context) (s : SimulationRequest) (store : σ) : Output Failure × σ :=
  match readTemplate context s.file with
  | .error failure => (.ofError failure, store)
  | .ok (source, template) =>
    let e := started context s source template
    -- Nothing runs and nothing is kept while a hole has no filler.
    match template.missingFillers e.fillers with
    | [] =>
      let e := simulated e s.stopOnError
      let (result, store) := Log.save store e
      match result with
      | .error error => (.ofError (.log error), store)
      | .ok _ => ((e.details .standard).mapError fun error => .log (.decode error), store)
    | names => (.ofError (.missingFillers names), store)

/-- Prints the template that reverses an execution. -/
def revert (id : String) (store : σ) : Output Failure :=
  match Log.load store id with
  | .error error => .ofError (.log error)
  | .ok e =>
    match e.reversed .standard with
    | .error error => .ofError (.irreversible id error)
    | .ok template => .ofText template.text

/-- Does what a request asks for. -/
def perform (context : Context) (store : σ) : Request → Output Failure × σ
  | .log query =>
    let (output, store) := Log.query context.wording context.now query store
    (output.mapError .log, store)
  | .check file => (check context file, store)
  | .simulate s => simulate context s store
  | .revert id => (revert id store, store)

end CommandLine

end Runbook
