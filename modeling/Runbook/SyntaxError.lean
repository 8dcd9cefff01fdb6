/-!
# Syntax errors

What can be wrong with the text of a template, where, and how it is reported.
-/

namespace Runbook

/-- The two words that every command starts with. -/
inductive CommandWord where
  /-- The first word, a verb. -/
  | action
  /-- The second word, a noun. -/
  | entity
deriving DecidableEq, Repr

/-- What is wrong with a text. -/
inductive SyntaxFault where
  /-- A quoted text lacks its closing quote. -/
  | unterminatedText
  /-- A backslash stands before a character that it does not escape. -/
  | unknownEscape (c : Char)
  /-- A quoted text or a hole is followed by a character that does not end a word. -/
  | nothingEndsValue
  /-- What follows `$` is no identifier. -/
  | malformedReference
  /-- A hole lacks its closing brace. -/
  | unterminatedHole
  /-- What stands between braces is no name of a hole. -/
  | malformedHole
  /-- There is nothing to read. -/
  | emptyStatement
  /-- What stands before `=` is no word. -/
  | identifierExpected
  /-- The word before `=` is no identifier. -/
  | malformedIdentifier
  /-- The text ends before the action or the entity. -/
  | missingWord (word : CommandWord)
  /-- The action or the entity is not written in small letters. -/
  | malformedWord (word : CommandWord)
  /-- What stands in place of a key is none. -/
  | parameterExpected
  /-- A key is not followed by `=`. -/
  | equalsExpected
  /-- The text ends before the value of a parameter. -/
  | valueMissing
  /-- What stands in place of a value is none. -/
  | valueExpected
  /-- A key occurs twice. -/
  | duplicateParameter
  /-- A list lacks its closing bracket. -/
  | unterminatedList
  /-- A list stands in a list. -/
  | nestedList
  /-- A reference or a hole stands in a list. -/
  | symbolicItem
  /-- What stands in place of an item is none. -/
  | itemExpected
  /-- An item is followed by neither a comma nor a closing bracket. -/
  | separatorExpected
  /-- A reference names no declaration of an earlier line. -/
  | undeclaredReference
  /-- A name is declared a second time. -/
  | duplicateDeclaration
deriving DecidableEq, Repr

/-- What is wrong with a text and where. -/
structure SyntaxError where
  /-- The line, counted from one. -/
  line : Nat
  /-- The piece of the text that is at fault. -/
  token : String
  /-- What is wrong with it. -/
  fault : SyntaxFault
deriving DecidableEq, Repr

namespace CommandWord

/-- What the word is called. -/
def text : CommandWord → String
  | .action => "action"
  | .entity => "entity"

end CommandWord

namespace SyntaxFault

/-- The fault in words. -/
def reason : SyntaxFault → String
  | .unterminatedText => "unterminated quoted string"
  | .unknownEscape c => "unknown escape sequence '\\" ++ String.ofList [c] ++ "'"
  | .nothingEndsValue => "unexpected character after value"
  | .malformedReference => "malformed reference; expected $identifier"
  | .unterminatedHole => "unterminated hole; expected \x7bname\x7d"
  | .malformedHole => "malformed hole name"
  | .emptyStatement => "empty statement"
  | .identifierExpected => "expected an identifier before '='"
  | .malformedIdentifier => "malformed identifier"
  | .missingWord word => "missing " ++ word.text
  | .malformedWord word => "malformed " ++ word.text ++ "; expected lowercase word"
  | .parameterExpected => "expected a parameter as key=value"
  | .equalsExpected => "expected '=' after parameter name"
  | .valueMissing => "missing parameter value"
  | .valueExpected => "expected a value"
  | .duplicateParameter => "duplicate parameter name"
  | .unterminatedList => "unterminated list"
  | .nestedList => "nested lists are not supported"
  | .symbolicItem => "lists may only contain literals"
  | .itemExpected => "expected a list item"
  | .separatorExpected => "expected ',' or ']' in list"
  | .undeclaredReference => "reference to an identifier not declared on an earlier line"
  | .duplicateDeclaration => "identifier is already declared"

end SyntaxFault

namespace SyntaxError

/-- The error at another line. -/
def atLine (e : SyntaxError) (line : Nat) : SyntaxError :=
  { e with line }

/-- The error in words. -/
def message (e : SyntaxError) : String :=
  "syntax error on line " ++ toString e.line ++ " near '" ++ e.token ++ "': " ++ e.fault.reason

end SyntaxError

end Runbook
