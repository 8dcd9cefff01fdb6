import Runbook.Number.Shortest

/-!
# Numbers

The numbers of templates and records: integers of 64 bits, kept exactly, and double-precision
numbers.
-/

namespace Runbook

/-- A number: an integer from `-2 ^ 63` up to `2 ^ 64`, or a double-precision number. -/
inductive Number where
  /-- An integer that 64 bits hold, with or without a sign. -/
  | integer (value : Int) (lower : -0x8000000000000000 ≤ value)
    (upper : value < 0x10000000000000000)
  /-- A double-precision number. -/
  | float (value : Binary64)
deriving DecidableEq

namespace Number

/-- The number of a natural number below `2 ^ 64`. -/
def ofNat (n : Nat) (h : n < 0x10000000000000000) : Number :=
  .integer n (by omega) (by omega)

/-- The digits of an integer behind its sign. -/
def integerChars (value : Int) : List Char :=
  if value < 0 then '-' :: Nat.toDigits 10 value.natAbs else Nat.toDigits 10 value.natAbs

/-- The canonical text of a number. -/
def chars : Number → List Char
  | .integer value _ _ => integerChars value
  | .float value => value.chars

/-- The canonical text of a number. -/
def text (n : Number) : String :=
  String.ofList n.chars

end Number

end Runbook
