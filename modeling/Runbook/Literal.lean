import Runbook.Json
import Runbook.OrderedMap

/-!
# Literals

The concrete values of parameters and fillers, and their exchange with JSON. Results of commands
become literals only when they are flat (`Literal.ofJson?`); fillers may nest lists
(`Literal.decode?`).
-/

namespace Runbook

/-- A concrete value: text, a number, a truth value or a list of literals. -/
inductive Literal where
  /-- A text. -/
  | text (value : String)
  /-- A number. -/
  | number (value : Number)
  /-- A truth value. -/
  | flag (value : Bool)
  /-- Literals in order. -/
  | list (items : List Literal)

/-- Values for holes by name. -/
abbrev Fillers := OrderedMap Literal

namespace Literal

instance : Inhabited Literal := ⟨.text ""⟩

mutual

/-- Decides whether two literals are equal. -/
def decideEq : (a b : Literal) → Decidable (a = b)
  | .text a, .text b => if h : a = b then isTrue (h ▸ rfl) else isFalse (by simp [h])
  | .number a, .number b => if h : a = b then isTrue (h ▸ rfl) else isFalse (by simp [h])
  | .flag a, .flag b => if h : a = b then isTrue (h ▸ rfl) else isFalse (by simp [h])
  | .list a, .list b =>
    match decideEqItems a b with
    | isTrue h => isTrue (h ▸ rfl)
    | isFalse h => isFalse (by simp [h])
  | .text _, .number _ | .text _, .flag _ | .text _, .list _ | .number _, .text _
  | .number _, .flag _ | .number _, .list _ | .flag _, .text _ | .flag _, .number _
  | .flag _, .list _ | .list _, .text _ | .list _, .number _ | .list _, .flag _ =>
    isFalse (by simp)

/-- Decides whether two lists of literals are equal. -/
def decideEqItems : (a b : List Literal) → Decidable (a = b)
  | [], [] => isTrue rfl
  | a :: as, b :: bs =>
    match decideEq a b, decideEqItems as bs with
    | isTrue h, isTrue hs => isTrue (by rw [h, hs])
    | isFalse h, _ => isFalse (by simp [h])
    | _, isFalse hs => isFalse (by simp [hs])
  | [], _ :: _ | _ :: _, [] => isFalse (by simp)

end

instance : DecidableEq Literal := decideEq

/-- Whether the literal is a list. -/
def isList : Literal → Bool
  | .list _ => true
  | _ => false

/-- Whether the literal is no list of lists; only such literals can be written in a template. -/
def isFlat : Literal → Bool
  | .list items => items.all fun item => !item.isList
  | _ => true

/-- The text of a literal that is a text. -/
def asText? : Literal → Option String
  | .text value => some value
  | _ => none

/-- The literal of a JSON text, number or truth value. -/
def scalarOfJson? : Json → Option Literal
  | .string s => some (.text s)
  | .number n => some (.number n)
  | .bool b => some (.flag b)
  | .null | .array _ | .object _ => none

/-- The literal of a JSON value: a scalar, or an array of scalars. -/
def ofJson? : Json → Option Literal
  | .array items => (items.mapM scalarOfJson?).map .list
  | json => scalarOfJson? json

mutual

/-- The literal of a JSON value that consists of scalars and arrays, however nested. -/
def decode? : Json → Option Literal
  | .string s => some (.text s)
  | .number n => some (.number n)
  | .bool b => some (.flag b)
  | .array items => (decodeItems? items).map .list
  | .null | .object _ => none

/-- The literals of the items of an array. -/
def decodeItems? : List Json → Option (List Literal)
  | [] => some []
  | item :: rest => do return (← decode? item) :: (← decodeItems? rest)

end

mutual

/-- The JSON value of a literal. -/
def toJson : Literal → Json
  | .text s => .string s
  | .number n => .number n
  | .flag b => .bool b
  | .list items => .array (itemsToJson items)

/-- The JSON values of the items of a list. -/
def itemsToJson : List Literal → List Json
  | [] => []
  | item :: rest => toJson item :: itemsToJson rest

end

end Literal

end Runbook
