/-!
# Policies of reversal

Which action undoes which, and what the parameters of the undoing command are.
-/

namespace Runbook

/-- What becomes of the parameters of a command in its inverse. -/
inductive Carry where
  /-- The only parameter is `id`, the result of the command. -/
  | result
  /-- The parameters stay as they are. -/
  | parameters
deriving DecidableEq, Repr

/-- The inverse of an action. -/
structure Inverse where
  /-- The action that undoes it. -/
  action : String
  /-- What becomes of its parameters. -/
  carry : Carry
deriving DecidableEq, Repr

/-- The inverses of actions; those for one entity come before those for all. -/
structure Policy where
  /-- The inverses for all entities, by action, the latest one first. -/
  general : List (String × Inverse)
  /-- The inverses for one entity, by action and entity, the latest one first. -/
  special : List ((String × String) × Inverse)

namespace Policy

/-- No action has an inverse. -/
def empty : Policy := ⟨[], []⟩

/-- The policy with an inverse of an action for all entities, in place of any earlier one. -/
def withGeneral (p : Policy) (action : String) (inverse : Inverse) : Policy :=
  { p with general := (action, inverse) :: p.general }

/-- The policy with an inverse of an action for one entity, in place of any earlier one. -/
def withSpecial (p : Policy) (action entity : String) (inverse : Inverse) : Policy :=
  { p with special := ((action, entity), inverse) :: p.special }

/-- The inverse of an action on an entity. -/
def inverse? (p : Policy) (action entity : String) : Option Inverse :=
  match p.special.lookup (action, entity) with
  | some inverse => some inverse
  | none => p.general.lookup action

/-- What was created is deleted by its result, and a tag by its parameters; starting and stopping
undo each other, and so do attaching and detaching. -/
def standard : Policy :=
  empty
    |>.withGeneral "create" ⟨"delete", .result⟩
    |>.withGeneral "start" ⟨"stop", .parameters⟩
    |>.withGeneral "stop" ⟨"start", .parameters⟩
    |>.withGeneral "attach" ⟨"detach", .parameters⟩
    |>.withGeneral "detach" ⟨"attach", .parameters⟩
    |>.withSpecial "create" "tag" ⟨"delete", .parameters⟩

end Policy

end Runbook
