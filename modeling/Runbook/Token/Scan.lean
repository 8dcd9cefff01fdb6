import Runbook.Literal.Text
import Runbook.Name
import Runbook.SyntaxError
import Runbook.Token

/-!
# Splitting a statement into tokens

Words end at blanks, `=`, `,`, `[` and `]`. A quoted text opens and closes with the same quote,
single or double; `$name` is a reference and `{name}` a hole. A quoted text and a hole must be
followed by the end of a word. A scan tells which characters it consumed whether it succeeds or
fails, so that an error can show them.
-/

namespace Runbook.Token

/-- What a scan consumed and what it made of it. -/
structure Scan (α : Type) where
  /-- The characters consumed. -/
  taken : List Char
  /-- What they are, or what is wrong with them. -/
  result : Except SyntaxFault α

namespace Scan

variable {α β : Type}

/-- A scan that fails. -/
def fail (taken : List Char) (fault : SyntaxFault) : Scan α :=
  ⟨taken, .error fault⟩

/-- The scan behind characters that were consumed before it. -/
def after (taken : List Char) (s : Scan α) : Scan α :=
  { s with taken := taken ++ s.taken }

/-- The scan with its result replaced by its image. -/
def map (f : α → β) (s : Scan α) : Scan β :=
  ⟨s.taken, s.result.map f⟩

/-- The scan fails if what it leaves of `cs` does not start with the end of a word. -/
def bounded (cs : List Char) (s : Scan α) : Scan α :=
  match s.result, cs.drop s.taken.length with
  -- A fault that was found before is kept, whatever follows.
  | .ok _, c :: _ => if isDelimiter c then s else fail s.taken .nothingEndsValue
  | _, _ => s

end Scan

/-- The character that an escape in a quoted text stands for. -/
def unescape? : Char → Option Char
  | 'n' => some '\n'
  | 't' => some '\t'
  | 'r' => some '\r'
  | '\\' => some '\\'
  | '"' => some '"'
  | '\'' => some '\''
  | _ => none

/-- The text behind an opening quote, through the closing one. -/
def scanText (quote : Char) : List Char → Scan (List Char)
  | [] => .fail [] .unterminatedText
  | '\\' :: [] => .fail ['\\'] .unterminatedText
  | '\\' :: e :: cs =>
    match unescape? e with
    | some c => ((scanText quote cs).map (c :: ·)).after ['\\', e]
    | none => .fail ['\\', e] (.unknownEscape e)
  | c :: cs =>
    if c = quote then ⟨[c], .ok []⟩ else ((scanText quote cs).map (c :: ·)).after [c]

/-- The rest of a word. -/
def restOfWord (cs : List Char) : List Char :=
  cs.takeWhile fun c => !isDelimiter c

/-- The name of a reference, behind its `$`. -/
def scanReference (cs : List Char) : Scan String :=
  let name := restOfWord cs
  if Name.isIdentifier name then ⟨name, .ok (String.ofList name)⟩
  else .fail name .malformedReference

/-- The name of a hole, behind its opening brace. -/
def scanHole (cs : List Char) : Scan String :=
  let name := cs.takeWhile fun c => c != '}' && !Text.isBlank c
  match cs.drop name.length with
  | '}' :: _ =>
    if Name.isKey name then ⟨name ++ ['}'], .ok (String.ofList name)⟩
    else .fail (name ++ ['}']) .malformedHole
  -- The name ends at a blank, so the brace is missing.
  | c :: _ => .fail (name ++ [c]) .unterminatedHole
  | [] => .fail name .unterminatedHole

/-- The rest of the token that starts with `c`. -/
def scanKind (c : Char) (cs : List Char) : Scan Kind :=
  if c = '=' then ⟨[], .ok .equals⟩
  else if c = ',' then ⟨[], .ok .comma⟩
  else if c = '[' then ⟨[], .ok .listOpen⟩
  else if c = ']' then ⟨[], .ok .listClose⟩
  else if c = '"' ∨ c = '\'' then
    ((scanText c cs).map fun text => Kind.quoted (String.ofList text)).bounded cs
  else if c = '$' then (scanReference cs).map .reference
  else if c = '{' then ((scanHole cs).map .hole).bounded cs
  else
    let rest := restOfWord cs
    ⟨rest, .ok (.word (String.ofList (c :: rest)))⟩

/-- The tokens of a text that `start` bytes stand before. -/
def tokensFrom (start : Nat) : List Char → Except SyntaxError (List Token)
  | [] => .ok []
  | c :: cs =>
    if Text.isBlank c then tokensFrom (start + c.utf8Size) cs
    else
      let scan := scanKind c cs
      let lexeme := String.ofList (c :: scan.taken)
      match scan.result with
      | .error fault => .error ⟨1, lexeme, fault⟩
      | .ok kind =>
        match tokensFrom (start + lexeme.utf8ByteSize) (cs.drop scan.taken.length) with
        | .error e => .error e
        | .ok tokens => .ok (⟨kind, start, lexeme⟩ :: tokens)
termination_by cs => cs.length

/-- The tokens of a text. -/
def tokenize (text : String) : Except SyntaxError (List Token) :=
  tokensFrom 0 text.toList

end Runbook.Token
