import Runbook.Statement.Reader
import Runbook.Text.Lines

/-!
# Reading a template

Every line that is neither blank nor starts with `#` holds a statement. A reference must name a
declaration of an earlier line, and no name may be declared twice. The first line that breaks a
rule is reported.
-/

namespace Runbook.Template

/-- Whether a trimmed line holds no statement. -/
def isSkipped : List Char → Bool
  | [] => true
  | c :: _ => c == '#'

/-- The first name that a command refers to and that is not among those declared. -/
def undeclared? (declared : List String) (command : Command) : Option String :=
  (command.parameters.values.filterMap Value.reference?).find? fun name => !declared.contains name

/-- The statement of a line, where the lines before it declare the given names. -/
def readLine (declared : List String) (number : Nat) (line : List Char) :
    Except SyntaxError Statement :=
  match Statement.ofText (String.ofList line) with
  | .error e => .error (e.atLine number)
  | .ok statement =>
    -- A statement may not refer to the name that it declares itself.
    match undeclared? declared statement.command with
    | some name => .error ⟨number, String.ofList ('$' :: name.toList), .undeclaredReference⟩
    | none =>
      match statement.name with
      | none => .ok statement
      | some name =>
        if declared.contains name then .error ⟨number, name, .duplicateDeclaration⟩
        else .ok statement

/-- The statements of the lines from the one of that number on. -/
def readLines (declared : List String) (number : Nat) :
    List (List Char) → Except SyntaxError (List Statement)
  | [] => .ok []
  | line :: rest =>
    let trimmed := Text.trim line
    if isSkipped trimmed then readLines declared (number + 1) rest
    else
      match readLine declared number trimmed with
      | .error e => .error e
      | .ok statement =>
        match readLines (statement.name.toList ++ declared) (number + 1) rest with
        | .error e => .error e
        | .ok statements => .ok (statement :: statements)

/-- The template that a text stands for. -/
def ofText (text : String) : Except SyntaxError Template :=
  (readLines [] 1 (Text.lines text.toList)).map fun statements => ⟨statements⟩

end Runbook.Template
