/-!
# Double-precision numbers

Finite double-precision numbers as a sign, a natural significand and a power of two, with exact
arithmetic on naturals and one rounding to nearest per operation. `Magnitude.ofFraction` is the
rounding; multiplication, division and the scaling by powers of ten are defined through it.
-/

namespace Runbook

/-- A finite nonnegative number `significand · 2 ^ exponent`. Operations give a significand below
`2 ^ 53`, and one of at least `2 ^ 52` unless the exponent is the least one, `-1074`. -/
structure Magnitude where
  /-- The digits of the number in base two. -/
  significand : Nat
  /-- The power of two of the last digit. -/
  exponent : Int
deriving DecidableEq, Repr

/-- A finite double-precision number; zero has two signs. -/
structure Binary64 where
  /-- Whether the sign is minus. -/
  negative : Bool
  /-- The number without its sign. -/
  magnitude : Magnitude
deriving DecidableEq, Repr

namespace Magnitude

/-- The least power of two that a last digit can have. -/
def leastExponent : Int := -1074

/-- The greatest power of two that a last digit can have. -/
def greatestExponent : Int := 971

/-- Zero, with the least exponent. -/
def zero : Magnitude := ⟨0, leastExponent⟩

/-- Whether the number is zero. -/
def isZero (m : Magnitude) : Bool :=
  m.significand == 0

/-- The numerator of the number as a fraction over `denominator`. -/
def numerator (m : Magnitude) : Nat :=
  m.significand <<< m.exponent.toNat

/-- The denominator of the number as a fraction, a power of two. -/
def denominator (m : Magnitude) : Nat :=
  1 <<< (-m.exponent).toNat

/-- The quotient rounded to the nearest natural number, a half going to the even one. -/
def roundDiv (num den : Nat) : Nat :=
  let quotient := num / den
  let rest := num % den
  if 2 * rest < den ∨ (2 * rest = den ∧ quotient % 2 = 0) then quotient else quotient + 1

/-- The exponent of the last digit when `num / den` is written with 53 digits in base two, or
with fewer where that exponent would be too small. -/
def lastPlace (num den : Nat) : Int :=
  let e := max ((num.log2 : Int) - den.log2 - 53) leastExponent
  -- The logarithms leave the exponent open by one.
  if den <<< e.toNat <<< 53 ≤ num <<< (-e).toNat then e + 1 else e

/-- The number nearest to `num / den`, a tie going to the even significand; nothing when that is
beyond the greatest finite number. -/
def ofFraction (num den : Nat) : Option Magnitude :=
  let e := lastPlace num den
  let significand := roundDiv (num <<< (-e).toNat) (den <<< e.toNat)
  if significand = 0 then some zero
  else
    -- Rounding up can give `2 ^ 53`, which has one digit too many.
    let rounded : Magnitude :=
      if significand = 1 <<< 53 then ⟨1 <<< 52, e + 1⟩ else ⟨significand, e⟩
    if rounded.exponent ≤ greatestExponent then some rounded else none

/-- The product, rounded. -/
def mul (m n : Magnitude) : Option Magnitude :=
  ofFraction (m.numerator * n.numerator) (m.denominator * n.denominator)

/-- The quotient, rounded. -/
def div (m n : Magnitude) : Option Magnitude :=
  ofFraction (m.numerator * n.denominator) (m.denominator * n.numerator)

/-- The power of ten, rounded. -/
def powerOfTen (k : Nat) : Option Magnitude :=
  ofFraction (Nat.pow 10 k) 1

/-- The greatest power of ten that a finite number reaches. -/
def greatestPower : Nat := 308

/-- The number divided by the greatest power of ten again and again, until it is zero or the
count is used up. -/
def lowered : Nat → Magnitude → Option Magnitude
  | 0, m => some m
  | count + 1, m =>
    if m.isZero then some m
    else do lowered count (← m.div (← powerOfTen greatestPower))

/-- The number times `10 ^ k`. A power beyond the greatest one is out of range, and one below its
inverse is applied in several divisions. -/
def scaled (m : Magnitude) (k : Int) : Option Magnitude :=
  if 0 ≤ k then
    if k ≤ greatestPower then do m.mul (← powerOfTen k.toNat)
    -- Zero is not scaled, so no exponent is too great for it.
    else if m.isZero then some m else none
  else
    let places := (-k).toNat
    -- As many divisions by the greatest power as leave at least one place for the last one.
    let count := (places - 1) / greatestPower
    do (← m.lowered count).div (← powerOfTen (places - greatestPower * count))

end Magnitude

end Runbook
