import Runbook.Policy
import Runbook.Template

/-!
# Reversing a template

The template that undoes what a template did: the inverses of the commands that succeeded, in
reverse order. Its values no longer depend on the run: references become the results they
referred to, and holes become fillers where these are given.
-/

namespace Runbook

/-- Why a command cannot be undone. -/
inductive Irreversible where
  /-- The policy has no inverse of the action. -/
  | noInverse
  /-- The inverse needs the result, which is no literal. -/
  | noResult
  /-- The inverse needs the result of a declaration, which is no literal. -/
  | uncaptured (name : String)
deriving DecidableEq, Repr

/-- The command that cannot be undone, and why. -/
structure ReversalError where
  /-- The verb of the command. -/
  action : String
  /-- The noun of the command. -/
  entity : String
  /-- Why it cannot be undone. -/
  cause : Irreversible
deriving DecidableEq, Repr

namespace ReversalError

/-- The cause in words. -/
def reason : Irreversible → String
  | .noInverse => "action has no inverse"
  | .noResult => "no captured result identifies the created resource"
  | .uncaptured name => "reference $" ++ name ++ " has no captured result"

/-- The error in words. -/
def message (e : ReversalError) : String :=
  "cannot revert '" ++ e.action ++ " " ++ e.entity ++ "': " ++ reason e.cause

end ReversalError

/-- The error that a command is at fault for. -/
def Command.irreversible (c : Command) (cause : Irreversible) : ReversalError :=
  ⟨c.action, c.entity, cause⟩

/-- The value that a hole keeps in text: its filler if there is a flat one, else itself. -/
def Fillers.fill (fillers : Fillers) (name : String) : Value :=
  match fillers.get? name with
  | some filler => if filler.isFlat then .literal filler else .hole name
  | none => .hole name

/-- A hole with a flat filler is replaced by it. -/
theorem Fillers.fill_of_get? {fillers : Fillers} {name : String} {l : Literal}
    (h : fillers.get? name = some l) (hflat : l.isFlat = true) :
    fillers.fill name = .literal l := by
  rw [fill, h]
  exact if_pos hflat

/-- A hole is replaced by a literal or stays. -/
theorem Fillers.fill_eq (fillers : Fillers) (name : String) :
    fillers.fill name = .hole name ∨ ∃ l, fillers.fill name = .literal l := by
  rw [fill]
  split
  · split
    · exact .inr ⟨_, rfl⟩
    · exact .inl rfl
  · exact .inl rfl

namespace Template

/-- The value that a parameter had in the run of a template. -/
def frozen (t : Template) (fillers : Option Fillers) : Value → Except Irreversible Value
  | .literal l => .ok (.literal l)
  | .reference name =>
    -- Unlike in records, a reference without a result cannot be kept.
    match (t.declaration? name).bind fun c => c.outcome.resultLiteral? with
    | some l => .ok (.literal l)
    | none => .error (.uncaptured name)
  | .hole name =>
    match fillers with
    | some fillers => .ok (fillers.fill name)
    | none => .ok (.hole name)

/-- The parameters of the inverse of a command. -/
def inverseParameters (t : Template) (fillers : Option Fillers) (c : Command) :
    Carry → Except Irreversible (OrderedMap Value)
  | .result =>
    match c.outcome.resultLiteral? with
    | some l => .ok (OrderedMap.empty.insert "id" (.literal l))
    | none => .error .noResult
  | .parameters => c.parameters.traverse (t.frozen fillers)

/-- The inverse of a command of a template. -/
def inverse (t : Template) (policy : Policy) (fillers : Option Fillers) (c : Command) :
    Except ReversalError Command :=
  match policy.inverse? c.action c.entity with
  | none => .error (c.irreversible .noInverse)
  | some inverse =>
    match t.inverseParameters fillers c inverse.carry with
    | .error cause => .error (c.irreversible cause)
    | .ok parameters => .ok (.new inverse.action c.entity parameters)

/-- The inverses of commands in order, or the first failure. -/
def inverses (t : Template) (policy : Policy) (fillers : Option Fillers) :
    List Command → Except ReversalError (List Command)
  | [] => .ok []
  | c :: rest =>
    match t.inverse policy fillers c with
    | .error e => .error e
    | .ok inverse =>
      match t.inverses policy fillers rest with
      | .error e => .error e
      | .ok inverses => .ok (inverse :: inverses)

/-- The template that undoes a template that ran. Every command needs an inverse, even one that
did not succeed. -/
def reversed (t : Template) (policy : Policy) (fillers : Option Fillers) :
    Except ReversalError Template :=
  match t.commands.find? fun c => (policy.inverse? c.action c.entity).isNone with
  | some c => .error (c.irreversible .noInverse)
  | none =>
    (t.inverses policy fillers (t.commands.reverse.filter fun c => c.outcome.succeeded)).map
      ofCommands

end Template

end Runbook
