import Runbook.OrderedMap
import Runbook.Value

/-!
# Commands

An action on an entity with named parameters, and what became of it when it last ran.
-/

namespace Runbook

/-- What became of a command: nothing yet, a result, or an error. -/
structure Outcome where
  /-- What the runner returned. -/
  result : Option Json
  /-- Why the command failed. -/
  error : Option String
deriving DecidableEq

namespace Outcome

/-- The command has not run. -/
def pending : Outcome := ⟨none, none⟩

/-- The command succeeded with a result. -/
def success (result : Json) : Outcome := ⟨some result, none⟩

/-- The command failed. -/
def failure (error : String) : Outcome := ⟨none, some error⟩

/-- Whether the command ran. -/
def hasRun (o : Outcome) : Bool :=
  o.result.isSome || o.error.isSome

/-- Whether the command failed. -/
def failed (o : Outcome) : Bool :=
  o.error.isSome

/-- Whether the command ran without error. -/
def succeeded (o : Outcome) : Bool :=
  o.hasRun && !o.failed

/-- The result if it is a text that is not empty. -/
def resultText? (o : Outcome) : Option String :=
  match o.result with
  | some (.string text) => if text.isEmpty then none else some text
  | _ => none

/-- The result as a literal, if it has that form. -/
def resultLiteral? (o : Outcome) : Option Literal :=
  o.result.bind Literal.ofJson?

/-- The literal result of a command that did not fail. -/
def captured? (o : Outcome) : Option Literal :=
  if o.failed then none else o.resultLiteral?

end Outcome

/-- An action on an entity. -/
structure Command where
  /-- The verb, such as `create`. -/
  action : String
  /-- The noun, such as `volume`. -/
  entity : String
  /-- The parameters in the order in which they were written. -/
  parameters : OrderedMap Value
  /-- What became of the command. -/
  outcome : Outcome
deriving DecidableEq

namespace Command

/-- A command that has not run. -/
def new (action entity : String) (parameters : OrderedMap Value) : Command :=
  ⟨action, entity, parameters, .pending⟩

/-- The command with a parameter added, or replaced in place. -/
def setParameter (c : Command) (key : String) (value : Value) : Command :=
  { c with parameters := c.parameters.insert key value }

/-- The command with another outcome. -/
def withOutcome (c : Command) (outcome : Outcome) : Command :=
  { c with outcome }

/-- The action and the entity, which reports count by. -/
def kind (c : Command) : String :=
  c.action ++ " " ++ c.entity

/-- A parameter as it is written behind the entity. -/
def parameterChars (parameter : String × Value) : List Char :=
  ' ' :: parameter.1.toList ++ '=' :: parameter.2.chars

/-- The canonical text of a command. -/
def chars (c : Command) : List Char :=
  c.action.toList ++ ' ' :: c.entity.toList ++ c.parameters.entries.flatMap parameterChars

/-- The canonical text of a command. -/
def text (c : Command) : String :=
  String.ofList c.chars

end Command

end Runbook
