import Runbook.Json.Reader

/-!
# Fields of documents

Reading a document as a record of known fields. Such a document is an object, whose other members
are ignored, or an array of the fields in order, of which the last ones may be missing.
-/

namespace Runbook.Json.Document

/-- The members of an object with their names, if all names can be read. -/
def named? : List (Option String × Document) → Option (List (String × Document))
  | [] => some []
  | (name, document) :: rest => do return (← name, document) :: (← named? rest)

/-- The one member with a name, nothing inside if there is none; two are an error. -/
def member? (members : List (String × Document)) (name : String) : Option (Option Document) :=
  match members.filter fun member => member.1 == name with
  | [] => some none
  | [member] => some (some member.2)
  | _ => none

/-- The fields with the given names, nothing inside for a missing one. -/
def fields? (names : List String) : Document → Option (List (Option Document))
  | .array items =>
    if items.length ≤ names.length then
      some (items.map some ++ List.replicate (names.length - items.length) none)
    else none
  | .object members => do names.mapM (member? (← named? members))
  | _ => none

/-- A text. -/
def text? : Document → Option String
  | .string text => text
  | _ => none

/-- A truth value. -/
def bool? : Document → Option Bool
  | .bool b => some b
  | _ => none

/-- The items of an array. -/
def items? : Document → Option (List Document)
  | .array items => some items
  | _ => none

/-- The members of an object. -/
def members? : Document → Option (List (String × Document))
  | .object members => named? members
  | _ => none

/-- A field read by `read`, or a default if it is missing. -/
def fieldOr {α : Type} (default : α) (read : Document → Option α) :
    Option Document → Option α
  | none => some default
  | some document => read document

end Runbook.Json.Document
