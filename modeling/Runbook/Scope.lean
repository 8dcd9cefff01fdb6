import Runbook.SortedMap
import Runbook.Template

/-!
# Resolving values

A parameter value becomes a literal in the scope of a run: a reference becomes the result of the
declaration that was bound last under its name, and a hole the filler of its name.
-/

namespace Runbook

/-- Why a reference has no literal. -/
inductive Unresolved where
  /-- No declaration of the name has run. -/
  | unbound
  /-- The declaration failed. -/
  | failed
  /-- The declaration has no result. -/
  | pending
  /-- The result has no text form. -/
  | notLiteral
deriving DecidableEq, Repr

/-- Why a value cannot be resolved. -/
inductive ResolutionError where
  /-- A reference has no literal. -/
  | reference (name : String) (cause : Unresolved)
  /-- A hole has no filler. -/
  | hole (name : String)
deriving DecidableEq, Repr

namespace ResolutionError

/-- The cause in words. -/
def reason : Unresolved → String
  | .unbound => "identifier is not bound"
  | .failed => "declaration ran with an error"
  | .pending => "declaration has not produced a result"
  | .notLiteral => "declaration result is not a literal value"

/-- The error in words. -/
def message : ResolutionError → String
  | .reference name cause => "unresolved reference $" ++ name ++ ": " ++ reason cause
  | .hole name => "missing input for hole \x7b" ++ name ++ "\x7d"

end ResolutionError

/-- What values are resolved against. -/
structure Scope where
  /-- The outcomes of the declarations that ran, the latest one first. -/
  bindings : List (String × Outcome)
  /-- The values of holes. -/
  fillers : Fillers

namespace Scope

/-- The scope before any declaration ran. -/
def ofFillers (fillers : Fillers) : Scope := ⟨[], fillers⟩

/-- The scope with a name bound to an outcome, in place of any earlier binding. -/
def bind (s : Scope) (name : String) (outcome : Outcome) : Scope :=
  { s with bindings := (name, outcome) :: s.bindings }

/-- The scope after a statement ended with an outcome: bound if the statement declares a name. -/
def afterStatement (s : Scope) (name : Option String) (outcome : Outcome) : Scope :=
  match name with
  | none => s
  | some name => s.bind name outcome

/-- The literal that the reference to a name stands for. -/
def resolveReference (s : Scope) (name : String) : Except Unresolved Literal :=
  match s.bindings.lookup name with
  | none => .error .unbound
  | some outcome =>
    -- A result beside an error does not count.
    if outcome.failed then .error .failed
    else
      match outcome.result with
      | none => .error .pending
      | some result =>
        match Literal.ofJson? result with
        | none => .error .notLiteral
        | some literal => .ok literal

/-- The literal that a value stands for. -/
def resolve (s : Scope) : Value → Except ResolutionError Literal
  | .literal l => .ok l
  | .reference name => (s.resolveReference name).mapError (.reference name)
  | .hole name =>
    match s.fillers.get? name with
    | some l => .ok l
    | none => .error (.hole name)

/-- The literals that the parameters of a command stand for, or the first that has none. -/
def arguments (s : Scope) (c : Command) : Except ResolutionError (OrderedMap Literal) :=
  c.parameters.traverse s.resolve

end Scope

/-- The names of the holes without a filler, each once, in ascending order. -/
def Template.missingFillers (t : Template) (fillers : Fillers) : List String :=
  let missing := (t.values.filterMap Value.hole?).filter fun name => !fillers.contains name
  (SortedMap.ofList (missing.map fun name => (name, ()))).keys

end Runbook
