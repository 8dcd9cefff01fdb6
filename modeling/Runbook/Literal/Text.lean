import Runbook.Literal
import Runbook.Number.Numeral
import Runbook.Text.Blank

/-!
# The text of literals

How literals are written in a template. A text is written bare when it would be read back as the
same text, and between double quotes otherwise; lists are written without blanks.
-/

namespace Runbook

/-- The characters that end a bare word. -/
def isDelimiter (c : Char) : Bool :=
  Text.isBlank c || c == '=' || c == ',' || c == '[' || c == ']'

namespace Literal

/-- The literal that a bare word stands for: a truth value, a number, or the word itself. -/
def ofWord (word : List Char) : Literal :=
  if word = ['t', 'r', 'u', 'e'] then .flag true
  else if word = ['f', 'a', 'l', 's', 'e'] then .flag false
  else
    match Number.ofChars? word with
    | some n => .number n
    | none => .text (String.ofList word)

/-- Whether a character that starts a word gives it a meaning of its own. -/
def isSigil (c : Char) : Bool :=
  c == '$' || c == '{' || c == '"' || c == '\'' || c == '#'

/-- Whether a text can stand without quotes. -/
def isBare : List Char → Bool
  | [] => false
  | c :: cs =>
    !isSigil c && !(c :: cs).any isDelimiter && (ofWord (c :: cs)).asText?.isSome

/-- A character as it is written between double quotes. -/
def escape (c : Char) : List Char :=
  if c = '"' then ['\\', '"']
  else if c = '\\' then ['\\', '\\']
  else if c = '\n' then ['\\', 'n']
  else if c = '\t' then ['\\', 't']
  else if c = '\r' then ['\\', 'r']
  else [c]

/-- A text between double quotes. -/
def quoted (cs : List Char) : List Char :=
  '"' :: cs.flatMap escape ++ ['"']

mutual

/-- The canonical text of a literal. -/
def chars : Literal → List Char
  | .text s => if isBare s.toList then s.toList else quoted s.toList
  | .number n => n.chars
  | .flag true => ['t', 'r', 'u', 'e']
  | .flag false => ['f', 'a', 'l', 's', 'e']
  | .list items => '[' :: itemsChars items ++ [']']

/-- The canonical texts of the items of a list, set apart by commas. -/
def itemsChars : List Literal → List Char
  | [] => []
  | [item] => chars item
  | item :: rest => chars item ++ ',' :: itemsChars rest

end

/-- The canonical text of a literal. -/
def toText (literal : Literal) : String :=
  String.ofList literal.chars

end Literal

end Runbook
