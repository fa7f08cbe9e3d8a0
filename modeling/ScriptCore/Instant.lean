/-!
# Instants

A point in time as whole seconds from the beginning of 1970 in universal time, together with a
number of nanoseconds.  A leap second is written as the second before it with a thousand million
nanoseconds or more.

`Instant.text` writes an instant as a date and a time of day, separated by `T` and ending in `Z`,
with the fewest of 0, 3, 6 or 9 decimal places that lose nothing.
-/

namespace ScriptCore

/-- A point in time. -/
structure Instant where
  seconds : Int
  nanoseconds : Nat
  deriving DecidableEq, Repr

/-- A day of the calendar. -/
structure CivilDate where
  year : Int
  month : Nat
  day : Nat
  deriving DecidableEq, Repr

namespace CivilDate

/-- The day that lies the given number of days after the first of January 1970.  Years are
counted from March in cycles of 400, which all have the same number of days, so that the leap day
is the last day of its year and the months before it follow a straight line. -/
def ofDays (days : Int) : CivilDate :=
  let shifted := days + 719468
  let cycle := shifted / 146097
  let dayOfCycle := (shifted % 146097).toNat
  let yearOfCycle :=
    (dayOfCycle - dayOfCycle / 1460 + dayOfCycle / 36524 - dayOfCycle / 146096) / 365
  let dayOfYear := dayOfCycle - (365 * yearOfCycle + yearOfCycle / 4 - yearOfCycle / 100)
  let marchMonth := (5 * dayOfYear + 2) / 153
  let day := dayOfYear - (153 * marchMonth + 2) / 5 + 1
  let month := if marchMonth < 10 then marchMonth + 3 else marchMonth - 9
  let year := (yearOfCycle : Int) + cycle * 400 + (if month ≤ 2 then 1 else 0)
  { year, month, day }

end CivilDate

namespace Instant

/-- A number with zeros in front up to a given width. -/
def padded (width value : Nat) : String :=
  let digits := Nat.repr value
  String.ofList (List.replicate (width - digits.length) '0') ++ digits

/-- A year of four digits; years before 0 and after 9999 carry a sign. -/
def yearText (year : Int) : String :=
  if year < 0 then "-" ++ padded 4 year.natAbs
  else if 9999 < year then "+" ++ padded 4 year.natAbs
  else padded 4 year.natAbs

/-- The decimal places of a second. -/
def fractionText (nanoseconds : Nat) : String :=
  if nanoseconds = 0 then ""
  else if nanoseconds % 1000000 = 0 then "." ++ padded 3 (nanoseconds / 1000000)
  else if nanoseconds % 1000 = 0 then "." ++ padded 6 (nanoseconds / 1000)
  else "." ++ padded 9 nanoseconds

/-- The instant as date and time of day. -/
def text (t : Instant) : String :=
  let date := CivilDate.ofDays (t.seconds / 86400)
  let secondOfDay := (t.seconds % 86400).toNat
  let second := secondOfDay % 60 + t.nanoseconds / 1000000000
  yearText date.year ++ "-" ++ padded 2 date.month ++ "-" ++ padded 2 date.day ++ "T" ++
    padded 2 (secondOfDay / 3600) ++ ":" ++ padded 2 (secondOfDay / 60 % 60) ++ ":" ++
    padded 2 second ++ fractionText (t.nanoseconds % 1000000000) ++ "Z"

/-- Instants are ordered by their seconds, then by their nanoseconds. -/
def order (s t : Instant) : Ordering :=
  (compare s.seconds t.seconds).then (compare s.nanoseconds t.nanoseconds)

end Instant

end ScriptCore
