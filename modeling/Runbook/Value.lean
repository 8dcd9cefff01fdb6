import Runbook.Literal.Text

/-!
# Parameter values

A parameter holds a literal, a reference to the result of an earlier declaration, or a hole that
is filled when the template runs.
-/

namespace Runbook

/-- The value of a parameter. -/
inductive Value where
  /-- A value known when the template is written. -/
  | literal (value : Literal)
  /-- The result of the declaration of that name. -/
  | reference (name : String)
  /-- An input of that name. -/
  | hole (name : String)
deriving DecidableEq

namespace Value

/-- The name that a reference refers to. -/
def reference? : Value → Option String
  | .reference name => some name
  | _ => none

/-- The name of a hole. -/
def hole? : Value → Option String
  | .hole name => some name
  | _ => none

/-- The canonical text of a value. -/
def chars : Value → List Char
  | .literal l => l.chars
  | .reference name => '$' :: name.toList
  | .hole name => '{' :: name.toList ++ ['}']

end Value

end Runbook
