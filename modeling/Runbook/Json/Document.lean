import Runbook.Number.Numeral
import Runbook.Text.Encoding

/-!
# JSON documents as they are spelled

What some bytes spell as a JSON document, before it is known which of it is wanted. Members that a
reader ignores may hold what no value can: numbers out of range, names that repeat, and texts with
bytes or code units that belong to no character. So a document keeps numerals as they are spelled
and marks texts that cannot be read.
-/

namespace Runbook.Json

open Text (Symbol)

/-- A JSON document as it is spelled. -/
inductive Document where
  /-- No value. -/
  | null
  /-- A truth value. -/
  | bool (value : Bool)
  /-- A number, which may be out of range. -/
  | number (spelling : Numeral)
  /-- A text; nothing if it cannot be read. -/
  | string (text : Option String)
  /-- The items in order. -/
  | array (items : List Document)
  /-- The members in order; names may repeat or be unreadable. -/
  | object (members : List (Option String × Document))

/-- The parts of a quoted text. -/
inductive Piece where
  /-- A character, spelled as itself or by a short escape. -/
  | char (c : Char)
  /-- A code unit of 16 bits, spelled by its four digits. -/
  | unit (value : Nat)
  /-- A byte that belongs to no character. -/
  | unreadable
deriving DecidableEq

/-- The value of a hexadecimal digit. -/
def hexValue? (c : Char) : Option Nat :=
  if '0' ≤ c ∧ c ≤ '9' then some (c.toNat - '0'.toNat)
  else if 'a' ≤ c ∧ c ≤ 'f' then some (c.toNat - 'a'.toNat + 10)
  else if 'A' ≤ c ∧ c ≤ 'F' then some (c.toNat - 'A'.toNat + 10)
  else none

/-- The code unit that four hexadecimal digits spell. -/
def codeUnit? (a b c d : Symbol) : Option Nat := do
  let a ← hexValue? (← a)
  let b ← hexValue? (← b)
  let c ← hexValue? (← c)
  let d ← hexValue? (← d)
  return ((a * 16 + b) * 16 + c) * 16 + d

/-- The character that a short escape stands for. -/
def unescape? : Char → Option Char
  | '"' => some '"'
  | '\\' => some '\\'
  | '/' => some '/'
  | 'b' => some '\x08'
  | 'f' => some '\x0c'
  | 'n' => some '\n'
  | 'r' => some '\r'
  | 't' => some '\t'
  | _ => none

/-- The pieces of a quoted text behind its opening quote, and what follows the closing one. -/
def pieces? : List Symbol → Option (List Piece × List Symbol)
  | [] => none
  | none :: rest => (pieces? rest).map fun (ps, rest) => (.unreadable :: ps, rest)
  | some '"' :: rest => some ([], rest)
  -- With fewer than four symbols behind it `u` is no short escape either, and is refused below.
  | some '\\' :: some 'u' :: a :: b :: c :: d :: rest =>
    match codeUnit? a b c d with
    | none => none
    | some u => (pieces? rest).map fun (ps, rest) => (.unit u :: ps, rest)
  | some '\\' :: some e :: rest =>
    match unescape? e with
    | none => none
    | some c => (pieces? rest).map fun (ps, rest) => (.char c :: ps, rest)
  | some c :: rest =>
    if c = '\\' ∨ c.toNat < 0x20 then none
    else (pieces? rest).map fun (ps, rest) => (.char c :: ps, rest)

/-- Whether a code unit is the first of a pair that spells one character. -/
def isLeading (u : Nat) : Bool := 0xD800 ≤ u && u < 0xDC00

/-- Whether a code unit is the second of a pair that spells one character. -/
def isTrailing (u : Nat) : Bool := 0xDC00 ≤ u && u < 0xE000

/-- The characters that pieces spell: pairs of code units are joined, and a code unit that lacks
its partner makes the text unreadable. -/
def joinPieces? : List Piece → Option (List Char)
  | [] => some []
  | .char c :: ps => (joinPieces? ps).map (c :: ·)
  | .unreadable :: _ => none
  | .unit u :: .unit v :: ps =>
    if isLeading u then
      if isTrailing v then
        (joinPieces? ps).map (Char.ofNat (0x10000 + (u - 0xD800) * 0x400 + (v - 0xDC00)) :: ·)
      else none
    else if isTrailing u then none
    else (joinPieces? (.unit v :: ps)).map (Char.ofNat u :: ·)
  -- No code unit follows that could complete a pair.
  | .unit u :: ps =>
    if isLeading u || isTrailing u then none
    else (joinPieces? ps).map (Char.ofNat u :: ·)

/-- The text behind an opening quote, nothing for it if it is unreadable, and what follows the
closing quote. -/
def textBody? (cs : List Symbol) : Option (Option String × List Symbol) :=
  (pieces? cs).map fun (ps, rest) => ((joinPieces? ps).map String.ofList, rest)

/-- The characters between the parts of a document. -/
def isSpace (s : Symbol) : Bool :=
  s == some ' ' || s == some '\t' || s == some '\n' || s == some '\r'

/-- The symbols without the spaces they start with. -/
def skipSpaces (cs : List Symbol) : List Symbol :=
  cs.dropWhile isSpace

/-- The characters that numerals consist of. -/
def isNumeralSymbol : Symbol → Bool
  | some c => c.isDigit || c == '-' || c == '+' || c == '.' || c == 'e' || c == 'E'
  | none => false

/-- The numeral at the front of the symbols, and what follows it. -/
def numeral? (cs : List Symbol) : Option (Document × List Symbol) :=
  (Numeral.ofChars? ((cs.takeWhile isNumeralSymbol).filterMap id)).map fun n =>
    (.number n, cs.dropWhile isNumeralSymbol)

mutual

/-- The document at the front of the symbols, and what follows it. -/
def value? : Nat → List Symbol → Option (Document × List Symbol)
  | 0, _ => none
  | fuel + 1, cs =>
    match skipSpaces cs with
    | some 'n' :: some 'u' :: some 'l' :: some 'l' :: rest => some (.null, rest)
    | some 't' :: some 'r' :: some 'u' :: some 'e' :: rest => some (.bool true, rest)
    | some 'f' :: some 'a' :: some 'l' :: some 's' :: some 'e' :: rest => some (.bool false, rest)
    | some '"' :: rest => (textBody? rest).map fun (text, rest) => (.string text, rest)
    -- An array is empty or has an item in front; so no comma stands before the closing bracket.
    | some '[' :: rest =>
      match skipSpaces rest with
      | some ']' :: rest => some (.array [], rest)
      | _ => (items? fuel rest).map fun (items, rest) => (.array items, rest)
    | some '{' :: rest =>
      match skipSpaces rest with
      | some '}' :: rest => some (.object [], rest)
      | _ => (members? fuel rest).map fun (members, rest) => (.object members, rest)
    | cs => numeral? cs

/-- The items of an array up to its closing bracket, and what follows that. -/
def items? : Nat → List Symbol → Option (List Document × List Symbol)
  | 0, _ => none
  | fuel + 1, cs => do
    let (item, rest) ← value? fuel cs
    match skipSpaces rest with
    | some ']' :: rest => return ([item], rest)
    | some ',' :: rest =>
      let (items, rest) ← items? fuel rest
      return (item :: items, rest)
    | _ => none

/-- The members of an object up to its closing brace, and what follows that. -/
def members? : Nat → List Symbol → Option (List (Option String × Document) × List Symbol)
  | 0, _ => none
  | fuel + 1, cs =>
    match skipSpaces cs with
    | some '"' :: rest => do
      let (name, rest) ← textBody? rest
      match skipSpaces rest with
      | some ':' :: rest =>
        let (value, rest) ← value? fuel rest
        match skipSpaces rest with
        | some '}' :: rest => return ([(name, value)], rest)
        | some ',' :: rest =>
          let (members, rest) ← members? fuel rest
          return ((name, value) :: members, rest)
        | _ => none
      | _ => none
    | _ => none

end

namespace Document

/-- The document that some symbols spell. Each level of nesting takes a symbol and two steps. -/
def ofSymbols? (cs : List Symbol) : Option Document :=
  match value? (2 * cs.length + 2) cs with
  | some (document, rest) => if (skipSpaces rest).isEmpty then some document else none
  | none => none

/-- The document that some bytes spell. -/
def ofBytes? (bytes : ByteArray) : Option Document :=
  ofSymbols? (Text.symbols bytes)

end Document

end Runbook.Json
