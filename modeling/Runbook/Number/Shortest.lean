import Runbook.Number.Binary64

/-!
# Shortest decimals

The decimal with the fewest digits that rounds to a given double-precision number, and its text.
For one digit, two digits and so on, the two neighbours of the number on that decimal grid are
tried; the first grid with a neighbour inside the interval of reals that round to the number wins,
and of two such neighbours the nearer one.
-/

namespace Runbook

/-- A positive decimal `d.ddd · 10 ^ exponent`. -/
structure Scientific where
  /-- The digits, the first of them not zero. -/
  digits : List Char
  /-- The power of ten of the first digit. -/
  exponent : Int
deriving DecidableEq, Repr

namespace Magnitude

/-- The number of decimal digits of a natural number; zero has none. -/
def decimalLength (n : Nat) : Nat :=
  if n = 0 then 0 else (Nat.toDigits 10 n).length

/-- The greatest power of ten not above a positive number. -/
def leadingPower (m : Magnitude) : Int :=
  if m.denominator ≤ m.numerator then
    (decimalLength (m.numerator / m.denominator) : Int) - 1
  else
    -(decimalLength ((m.denominator - 1) / m.numerator) : Int)

/-- The multiple of `10 ^ k` that rounds to the number, the nearer one if two neighbours do. -/
def onGrid? (m : Magnitude) (k : Int) : Option Nat :=
  -- All numbers below are naturals in one scale, in which a quarter of the last place is a whole.
  let quarters := (m.exponent - 2).toNat
  let divisor := (2 - m.exponent).toNat
  let scale (n : Nat) : Nat := n <<< quarters * Nat.pow 10 (-k).toNat
  let unit := Nat.pow 10 k.toNat <<< divisor
  -- Right above a power of two the next number below is only half as far away.
  let below := if m.significand = 1 <<< 52 ∧ m.exponent ≠ leastExponent then 1 else 2
  let value := scale (4 * m.significand)
  let low := scale (4 * m.significand - below)
  let high := scale (4 * m.significand + 2)
  -- A tie goes to the even significand, so the ends of the interval count for that one only.
  let rounds (n : Nat) : Bool :=
    if m.significand % 2 = 0 then low ≤ n * unit && n * unit ≤ high
    else low < n * unit && n * unit < high
  let down := value / unit
  match rounds down, rounds (down + 1) with
  | true, true =>
    let rest := 2 * (value - down * unit)
    if rest < unit ∨ (rest = unit ∧ down % 2 = 0) then some down else some (down + 1)
  | true, false => some down
  | false, true => some (down + 1)
  | false, false => none

/-- The most decimal digits that a double-precision number needs. -/
def mostDigits : Nat := 17

/-- The decimal of fewest digits that rounds to a positive number. -/
def shortest (m : Magnitude) : Scientific :=
  let top := m.leadingPower
  let found := (List.range mostDigits).findSome? fun (i : Nat) =>
    (m.onGrid? (top - i)).map fun n => (Nat.toDigits 10 n, top - i)
  match found with
  | some (digits, power) =>
    ⟨(digits.reverse.dropWhile (· == '0')).reverse, power + digits.length - 1⟩
  | none => ⟨['0'], 0⟩

end Magnitude

namespace Scientific

/-- The exponents of a decimal that are written without a power of ten. -/
structure Layout where
  /-- The least such exponent. -/
  least : Int
  /-- The greatest such exponent. -/
  greatest : Int

/-- Numbers from a hundred-thousandth up to `10 ^ 16` are written without a power of ten. -/
def layout : Layout := ⟨-5, 15⟩

/-- The decimal without a power of ten, with at least one digit after the point. -/
def positional (s : Scientific) : List Char :=
  if s.exponent < 0 then
    '0' :: '.' :: List.replicate ((-s.exponent).toNat - 1) '0' ++ s.digits
  else
    let whole := s.exponent.toNat + 1
    if s.digits.length ≤ whole then
      s.digits ++ List.replicate (whole - s.digits.length) '0' ++ ['.', '0']
    else
      s.digits.take whole ++ '.' :: s.digits.drop whole

/-- The decimal with a power of ten, whose sign is always written. -/
def withPower (s : Scientific) : List Char :=
  let mantissa :=
    match s.digits with
    | [] => []
    | [digit] => [digit]
    | digit :: rest => digit :: '.' :: rest
  mantissa ++ 'e' :: (if s.exponent < 0 then '-' else '+') :: Nat.toDigits 10 s.exponent.natAbs

/-- The text of a decimal. -/
def chars (s : Scientific) : List Char :=
  if layout.least ≤ s.exponent ∧ s.exponent ≤ layout.greatest then s.positional else s.withPower

end Scientific

namespace Binary64

/-- The shortest text that stands for the number; zero is `0.0`. -/
def chars (x : Binary64) : List Char :=
  let magnitude := if x.magnitude.isZero then ['0', '.', '0'] else x.magnitude.shortest.chars
  if x.negative then '-' :: magnitude else magnitude

end Binary64

end Runbook
