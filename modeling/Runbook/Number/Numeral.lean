import Runbook.Number

/-!
# Numerals

The spellings of numbers and the numbers they stand for. A numeral is an optional minus sign, a
whole part without leading zeros, an optional fraction and an optional exponent. Without fraction
and exponent it is an integer if 64 bits hold it. Every other numeral is read as a
double-precision number: its digits are absorbed into a significand of 64 bits for as long as
they fit, and the significand is scaled by the power of ten that remains.
-/

namespace Runbook

/-- A spelling of a number. -/
structure Numeral where
  /-- Whether it starts with a minus sign. -/
  negative : Bool
  /-- The digits before the point. -/
  whole : List Char
  /-- The digits after the point, none when there is no point. -/
  fraction : List Char
  /-- The exponent: whether it is negative, and its digits. -/
  exponent : Option (Bool × List Char)
deriving DecidableEq, Repr

namespace Numeral

/-- The part of a text up to the first character that is no digit, and the rest. -/
def digits (cs : List Char) : List Char × List Char :=
  (cs.takeWhile Char.isDigit, cs.dropWhile Char.isDigit)

/-- The fraction at the front of a text, a point and at least one digit or nothing, and the rest. -/
def fraction? : List Char → Option (List Char × List Char)
  | '.' :: cs =>
    match digits cs with
    | ([], _) => none
    | (ds, rest) => some (ds, rest)
  | cs => some ([], cs)

/-- The digits of an exponent that make up all of a text. -/
def exponentDigits? (negative : Bool) (cs : List Char) : Option (Bool × List Char) :=
  match digits cs with
  | ([], _) => none
  | (ds, []) => some (negative, ds)
  | _ => none

/-- The exponent that makes up all of a text, if it is not empty. -/
def exponent? : List Char → Option (Option (Bool × List Char))
  | [] => some none
  | c :: cs =>
    if c = 'e' ∨ c = 'E' then
      match cs with
      | '+' :: cs => (exponentDigits? false cs).map some
      | '-' :: cs => (exponentDigits? true cs).map some
      | cs => (exponentDigits? false cs).map some
    else none

/-- The unsigned numeral that makes up all of a text, with the given sign. -/
def unsigned? (negative : Bool) (cs : List Char) : Option Numeral :=
  match digits cs with
  | ([], _) => none
  | (whole@(first :: others), rest) =>
    if first = '0' ∧ others ≠ [] then none
    else do
      let (fraction, rest) ← fraction? rest
      let exponent ← exponent? rest
      return ⟨negative, whole, fraction, exponent⟩

/-- The numeral that makes up all of a text. -/
def ofChars? : List Char → Option Numeral
  | '-' :: cs => unsigned? true cs
  | cs => unsigned? false cs

/-- The value of a digit. -/
def digitValue (c : Char) : Nat :=
  c.toNat - '0'.toNat

/-- Appends digits to a significand while it stays below `2 ^ 64`; gives the significand and the
digits left over. -/
def absorb : Nat → List Char → Nat × List Char
  | significand, [] => (significand, [])
  | significand, c :: cs =>
    if significand * 10 + digitValue c < 0x10000000000000000 then
      absorb (significand * 10 + digitValue c) cs
    else (significand, c :: cs)

/-- The value of an exponent. -/
def exponentValue : Option (Bool × List Char) → Int
  | none => 0
  | some (negative, ds) =>
    if negative then -(Nat.ofDigitChars 10 ds 0 : Int) else Nat.ofDigitChars 10 ds 0

/-- The double-precision number that a numeral stands for. Digits of the whole part that the
significand cannot absorb count as a power of ten each; those of the fraction are dropped. -/
def float? (n : Numeral) : Option Binary64 :=
  let (significand, unread) := absorb 0 n.whole
  let (significand, dropped) := absorb significand n.fraction
  let power := (unread.length : Int) - (n.fraction.length - dropped.length : Int)
  do
    let start ← Magnitude.ofFraction significand 1
    let magnitude ← start.scaled (power + exponentValue n.exponent)
    return ⟨n.negative, magnitude⟩

/-- Whether the numeral has neither a fraction nor an exponent. -/
def isIntegral (n : Numeral) : Bool :=
  n.fraction.isEmpty && n.exponent.isNone

/-- The number that a numeral stands for, if it is in range. Minus zero is a double-precision
number. -/
def number? (n : Numeral) : Option Number :=
  let value := Nat.ofDigitChars 10 n.whole 0
  if n.isIntegral then
    -- The digits alone are compared, as the bounds for the two signs differ.
    if n.negative then
      if h : 0 < value ∧ value ≤ 0x8000000000000000 then
        some (.integer (-value) (by omega) (by omega))
      else n.float?.map .float
    else
      if h : value < 0x10000000000000000 then some (.ofNat value h) else n.float?.map .float
  else n.float?.map .float

end Numeral

namespace Number

/-- The number that a text spells, if all of it is a numeral in range. -/
def ofChars? (cs : List Char) : Option Number :=
  (Numeral.ofChars? cs).bind Numeral.number?

end Number

end Runbook
