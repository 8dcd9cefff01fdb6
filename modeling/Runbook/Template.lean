import Runbook.Command

/-!
# Templates

A template is a list of statements, in the order in which they are written and run. A statement
is a command, which a declaration binds to a name.
-/

namespace Runbook

/-- A line of a template. -/
structure Statement where
  /-- The name that the statement declares. -/
  name : Option String
  /-- The command. -/
  command : Command
deriving DecidableEq

/-- Statements in the order in which they run. -/
structure Template where
  /-- The statements. -/
  statements : List Statement
deriving DecidableEq

namespace Statement

/-- The canonical text of a statement. -/
def chars (s : Statement) : List Char :=
  match s.name with
  | none => s.command.chars
  | some name => name.toList ++ ' ' :: '=' :: ' ' :: s.command.chars

/-- The canonical text of a statement. -/
def text (s : Statement) : String :=
  String.ofList s.chars

/-- The statement with another outcome of its command. -/
def withOutcome (s : Statement) (outcome : Outcome) : Statement :=
  { s with command := s.command.withOutcome outcome }

end Statement

namespace Template

/-- The template without statements. -/
def empty : Template := ⟨[]⟩

/-- A template that declares nothing. -/
def ofCommands (commands : List Command) : Template :=
  ⟨commands.map fun command => ⟨none, command⟩⟩

/-- The commands in order. -/
def commands (t : Template) : List Command :=
  t.statements.map Statement.command

@[simp]
theorem commands_ofCommands (commands : List Command) :
    (ofCommands commands).commands = commands :=
  List.map_map.trans (List.map_id commands)

/-- The number of commands. -/
def size (t : Template) : Nat :=
  t.statements.length

/-- The command of the first statement that declares a name. -/
def declaration? (t : Template) (name : String) : Option Command :=
  (t.statements.find? fun s => s.name == some name).map Statement.command

/-- The canonical text of a template: each statement on a line of its own. -/
def chars (t : Template) : List Char :=
  t.statements.flatMap fun s => s.chars ++ ['\n']

/-- The canonical text of a template. -/
def text (t : Template) : String :=
  String.ofList t.chars

/-- The values of all parameters, command by command. -/
def values (t : Template) : List Value :=
  t.commands.flatMap fun command => command.parameters.values

end Template

end Runbook
