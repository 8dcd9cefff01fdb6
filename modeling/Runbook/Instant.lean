/-!
# Instants

Points in time, in milliseconds since the start of 1970 in Universal Time, and how listings show
them: as a stamp, and as an age.
-/

namespace Runbook

/-- A point in time. -/
structure Instant where
  /-- The milliseconds since the start of 1970. -/
  millis : Int
deriving DecidableEq, Repr

namespace Instant

/-- The names of the months. -/
def monthNames : List String :=
  ["Jan", "Feb", "Mar", "Apr", "May", "Jun", "Jul", "Aug", "Sep", "Oct", "Nov", "Dec"]

/-- The month from zero and the day from one of a day counted from the start of 1970. Years are
taken to start in March, so that the leap day comes last; 400 of them have 146097 days. -/
def monthAndDay (day : Int) : Nat × Nat :=
  let dayOfEra := ((day + 719468) % 146097).toNat
  let year := (dayOfEra - dayOfEra / 1460 + dayOfEra / 36524 - dayOfEra / 146096) / 365
  let dayOfYear := dayOfEra - (365 * year + year / 4 - year / 100)
  let month := (5 * dayOfYear + 2) / 153
  ((month + 2) % 12, dayOfYear - (153 * month + 2) / 5 + 1)

/-- A number of at most two digits in two places. -/
def twoPlaces (fill : Char) (n : Nat) : String :=
  let digits := Nat.toDigits 10 n
  String.ofList (List.replicate (2 - digits.length) fill ++ digits)

/-- The instant as month, day and time of day in Universal Time. -/
def stamp (i : Instant) : String :=
  let seconds := i.millis / 1000
  let (month, day) := monthAndDay (seconds / 86400)
  let time := (seconds % 86400).toNat
  (monthNames[month]?).getD "" ++ " " ++ twoPlaces ' ' day ++ " " ++
    twoPlaces '0' (time / 3600) ++ ":" ++ twoPlaces '0' (time / 60 % 60) ++ ":" ++
    twoPlaces '0' (time % 60)

/-- The whole seconds from an instant to a later one; none if it is earlier. -/
def secondsUntil (i now : Instant) : Nat :=
  ((now.millis - i.millis).tdiv 1000).toNat

/-- An amount of a unit. -/
def amount (n : Nat) (unit : String) : String :=
  toString n ++ " " ++ unit ++ if n = 1 then "" else "s"

/-- The time from an instant to another one in the largest unit of which it has a whole one. -/
def age (i now : Instant) : String :=
  let seconds := i.secondsUntil now
  if 86400 ≤ seconds then amount (seconds / 86400) "day"
  else if 3600 ≤ seconds then amount (seconds / 3600) "hour"
  else if 60 ≤ seconds then amount (seconds / 60) "minute"
  else amount seconds "second"

end Instant

end Runbook
