import Runbook.Instant

/-!
# Identities

The identity of an execution is a number of 128 bits: the milliseconds of its creation in the
upper 48 bits and random ones below. It is written with 26 characters of five bits each, so that
texts of identities sort in order of creation. Reading accepts letters of either case, and of
the 130 bits it reads it drops the upper two.
-/

namespace Runbook

/-- The number of identities, `2 ^ 128`. -/
def Identity.bound : Nat := 0x100000000000000000000000000000000

theorem Identity.bound_pos : 0 < Identity.bound :=
  Nat.succ_pos _

/-- An identity. -/
structure Identity where
  /-- The bits as a number. -/
  value : Fin Identity.bound
deriving DecidableEq, Repr

/-- Why a text is no identity. -/
inductive IdentityError where
  /-- It has not the right number of bytes. -/
  | length
  /-- A character has no value. -/
  | character
deriving DecidableEq, Repr

namespace IdentityError

/-- The error in words. -/
def reason : IdentityError → String
  | .length => "invalid length"
  | .character => "invalid character"

end IdentityError

namespace Identity

/-- The identity whose bits are the lower ones of a number. -/
def ofBits (bits : Nat) : Identity :=
  ⟨bits % bound, Nat.mod_lt bits bound_pos⟩

/-- The number of values of the bits for the creation, `2 ^ 48`. -/
def millisBound : Nat := 0x1000000000000

/-- The number of values of the random bits, `2 ^ 80`. -/
def randomBound : Nat := 0x100000000000000000000

/-- The characters of identities, in order of their value. -/
def alphabet : List Char :=
  ['0', '1', '2', '3', '4', '5', '6', '7', '8', '9', 'A', 'B', 'C', 'D', 'E', 'F', 'G', 'H', 'J',
    'K', 'M', 'N', 'P', 'Q', 'R', 'S', 'T', 'V', 'W', 'X', 'Y', 'Z']

/-- The number of characters of the text of an identity. -/
def length : Nat := 26

/-- The value of a character. -/
def digit? (c : Char) : Option Nat :=
  alphabet.findIdx? (· == c.toUpper)

/-- The number that characters stand for behind those that stand for `value`. -/
def read? (value : Nat) : List Char → Option Nat
  | [] => some value
  | c :: cs =>
    match digit? c with
    | some d => read? (value * 32 + d) cs
    | none => none

/-- The identity that a text stands for. -/
def parse (text : String) : Except IdentityError Identity :=
  if text.utf8ByteSize ≠ length then .error .length
  else
    match read? 0 text.toList with
    | some value => .ok (ofBits value)
    | none => .error .character

/-- The last `count` characters of the text of a number. -/
def write : Nat → Nat → List Char
  | 0, _ => []
  | count + 1, value => write count (value / 32) ++ [alphabet[value % 32]?.getD '0']

/-- The text of an identity. -/
def text (i : Identity) : String :=
  String.ofList (write length i.value)

/-- The milliseconds of the creation. -/
def millis (i : Identity) : Nat :=
  i.value / randomBound

/-- The instant of the creation. -/
def instant (i : Identity) : Instant :=
  ⟨i.millis⟩

/-- The identity of an execution created at an instant, with given random bits. Instants before
1970 count as its start, and only the lower 48 bits of the milliseconds are kept. -/
def ofInstant (instant : Instant) (random : Nat) : Identity :=
  ofBits (instant.millis.toNat % millisBound * randomBound + random % randomBound)

/-- An identity greater than the last one that was made, if there is any: the one of the instant
and the random bits if that is of a later millisecond, else the next one of the last millisecond. -/
def next? (last : Identity) (instant : Instant) (random : Nat) : Option Identity :=
  let fresh := ofInstant instant random
  if last.millis < fresh.millis then some fresh
  else if (last.value + 1 : Nat) % randomBound = 0 then none
  else some (ofBits (last.value + 1))

end Identity

end Runbook
