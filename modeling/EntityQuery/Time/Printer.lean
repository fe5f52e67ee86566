import EntityQuery.Text.Basic
import EntityQuery.Time.Calendar

/-!
# Writing dates and times

Years from 0 to 9999 have four digits, all others a sign and at least four.  A fraction is written
with three, six or nine digits, and left out when it is zero.
-/

namespace EntityQuery

open Text (padded)

/-- A year. -/
def Date.yearText (year : Int) : String :=
  if 0 ≤ year ∧ year ≤ 9999 then padded 4 year.toNat
  else (if year < 0 then "-" else "+") ++ padded 4 year.natAbs

/-- Year, month and day. -/
def Date.text (d : Date) : String :=
  Date.yearText d.year ++ "-" ++ padded 2 d.month ++ "-" ++ padded 2 d.day

/-- A fraction of a second. -/
def Clock.fractionText (nano : Nat) : String :=
  if nano = 0 then ""
  else if nano % 1000000 = 0 then "." ++ padded 3 (nano / 1000000)
  else if nano % 1000 = 0 then "." ++ padded 6 (nano / 1000)
  else "." ++ padded 9 nano

/-- Hour, minute, second and fraction. -/
def Clock.text (t : Clock) : String :=
  padded 2 t.hour ++ ":" ++ padded 2 t.minute ++ ":" ++ padded 2 t.shownSecond ++
    Clock.fractionText t.shownNano

/-- Date and time with a separator. -/
def DateTime.text (separator : String) (t : DateTime) : String :=
  t.date.text ++ separator ++ t.clock.text

/-- The distance from universal time in hours and minutes. -/
def Moment.offsetText (offset : Int) : String :=
  (if offset < 0 then "-" else "+") ++ padded 2 (offset.natAbs / 60) ++ ":" ++
    padded 2 (offset.natAbs % 60)

/-- Local date and time with the offset. -/
def Moment.text (t : Moment) : String := t.here.text "T" ++ Moment.offsetText t.offset

end EntityQuery
