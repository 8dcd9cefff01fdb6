import Runbook.Json.Document
import Runbook.Json
import Runbook.SortedMap

/-!
# Reading JSON values

The value of a document in which nothing is ignored. Texts must be readable, numbers in range and
the nesting below a limit; of several members with one name the last one counts.
-/

namespace Runbook.Json

namespace Document

/-- The greatest number of arrays and objects that may be nested in each other. -/
def nestingLimit : Nat := 127

mutual

/-- The value of a document that may nest up to `depth` arrays and objects. -/
def value? (depth : Nat) : Document → Option Json
  | .null => some .null
  | .bool b => some (.bool b)
  | .number n => n.number?.map .number
  | .string text => text.map .string
  | .array items =>
    -- The limit counts the arrays and objects around a value, so it does not end the recursion.
    match depth with
    | 0 => none
    | depth + 1 => (itemValues? depth items).map .array
  | .object members =>
    match depth with
    | 0 => none
    | depth + 1 =>
      (memberValues? depth members).map fun values => .object (SortedMap.ofList values).entries

/-- The values of the items of an array. -/
def itemValues? (depth : Nat) : List Document → Option (List Json)
  | [] => some []
  | item :: rest => do return (← value? depth item) :: (← itemValues? depth rest)

/-- The names and values of the members of an object. -/
def memberValues? (depth : Nat) : List (Option String × Document) → Option (List (String × Json))
  | [] => some []
  | (name, value) :: rest => do
    return (← name, ← value? depth value) :: (← memberValues? depth rest)

end

end Document

/-- The value that a text spells. -/
def ofText? (text : String) : Option Json := do
  (← Document.ofSymbols? (text.toList.map some)).value? Document.nestingLimit

end Runbook.Json
