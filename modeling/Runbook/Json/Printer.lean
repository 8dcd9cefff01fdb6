import Runbook.Json

/-!
# JSON text

How JSON values are written. One printer serves every layout; a layout says what stands before an
item at a given depth and between a name and its value.
-/

namespace Runbook.Json

/-- How the parts of a document are set apart. -/
structure Layout where
  /-- What stands before an item at a depth, and before the bracket that closes that depth. -/
  lineBreak : Nat → List Char
  /-- What stands between a name and its value. -/
  colon : List Char

namespace Layout

/-- Nothing is set apart. -/
def compact : Layout := ⟨fun _ => [], [':']⟩

/-- Each item stands on a line of its own, two spaces deeper than what holds it. -/
def indented : Layout := ⟨fun depth => '\n' :: List.replicate (2 * depth) ' ', [':', ' ']⟩

end Layout

/-- A character as it is written between quotes. -/
def escape (c : Char) : List Char :=
  if c = '"' then ['\\', '"']
  else if c = '\\' then ['\\', '\\']
  else if c = '\x08' then ['\\', 'b']
  else if c = '\x0c' then ['\\', 'f']
  else if c = '\n' then ['\\', 'n']
  else if c = '\r' then ['\\', 'r']
  else if c = '\t' then ['\\', 't']
  else if c.toNat < 0x20 then
    ['\\', 'u', '0', '0', Nat.digitChar (c.toNat / 16), Nat.digitChar (c.toNat % 16)]
  else [c]

/-- A text between quotes. -/
def quoted (text : String) : List Char :=
  '"' :: text.toList.flatMap escape ++ ['"']

mutual

/-- The text of a value that stands at a depth. -/
def chars (layout : Layout) (depth : Nat) : Json → List Char
  | .null => ['n', 'u', 'l', 'l']
  | .bool true => ['t', 'r', 'u', 'e']
  | .bool false => ['f', 'a', 'l', 's', 'e']
  | .number n => n.chars
  | .string s => quoted s
  | .array [] => ['[', ']']
  | .array items =>
    '[' :: itemsChars layout (depth + 1) items ++ layout.lineBreak depth ++ [']']
  | .object [] => ['{', '}']
  | .object members =>
    '{' :: membersChars layout (depth + 1) members ++ layout.lineBreak depth ++ ['}']

/-- The items of an array, each behind its line break. -/
def itemsChars (layout : Layout) (depth : Nat) : List Json → List Char
  | [] => []
  | [item] => layout.lineBreak depth ++ chars layout depth item
  | item :: rest =>
    layout.lineBreak depth ++ chars layout depth item ++ ',' :: itemsChars layout depth rest

/-- The members of an object, each behind its line break. -/
def membersChars (layout : Layout) (depth : Nat) : List (String × Json) → List Char
  | [] => []
  | [(name, value)] =>
    layout.lineBreak depth ++ quoted name ++ layout.colon ++ chars layout depth value
  | (name, value) :: rest =>
    layout.lineBreak depth ++ quoted name ++ layout.colon ++ chars layout depth value ++
      ',' :: membersChars layout depth rest

end

/-- The text of a value in a layout. -/
def text (layout : Layout) (json : Json) : String :=
  String.ofList (json.chars layout 0)

end Runbook.Json
