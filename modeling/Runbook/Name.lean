/-!
# Names

The words that name things in a template. Letters and digits are those of ASCII.
-/

namespace Runbook.Name

/-- Whether a text is nonempty, starts with a `first` character and goes on with `next` ones. -/
def isMadeOf (first next : Char → Bool) : List Char → Bool
  | [] => false
  | c :: cs => first c && cs.all next

/-- Names of declarations: a letter or underscore, then letters, digits, `_` and `-`. -/
def isIdentifier : List Char → Bool :=
  isMadeOf (fun c => c.isAlpha || c == '_') fun c => c.isAlphanum || c == '_' || c == '-'

/-- Names of parameters and holes: as identifiers, and points may follow the first character. -/
def isKey : List Char → Bool :=
  isMadeOf (fun c => c.isAlpha || c == '_') fun c =>
    c.isAlphanum || c == '_' || c == '-' || c == '.'

/-- Actions and entities: a small letter, then small letters, digits, `_` and `-`. -/
def isActionWord : List Char → Bool :=
  isMadeOf Char.isLower fun c => c.isLower || c.isDigit || c == '_' || c == '-'

end Runbook.Name
