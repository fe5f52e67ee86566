/-!
# Dates and times

Dates of the Gregorian calendar carried back before its introduction (with a year zero), times of
day that may fall into a leap second, and moments given by local date and time and the distance of
the local clock from universal time.

Moments are ordered by their universal time, all else lexicographically.
-/

namespace EntityQuery

/-! ## Dates -/

/-- A day of the calendar. -/
structure Date where
  year : Int
  month : Nat
  day : Nat
  deriving DecidableEq, Repr

namespace Date

/-- Every fourth year but three of four centuries. -/
def isLeap (year : Int) : Bool :=
  year % 4 = 0 && (year % 100 ≠ 0 || year % 400 = 0)

/-- The number of days of a month, zero for a number that names no month. -/
def daysIn (year : Int) (month : Nat) : Nat :=
  if month = 2 then if isLeap year then 29 else 28
  else if month = 4 ∨ month = 6 ∨ month = 9 ∨ month = 11 then 30
  else if 1 ≤ month ∧ month ≤ 12 then 31
  else 0

/-- The first and the last year that can be written. -/
def minYear : Int := -262143

@[inherit_doc minYear]
def maxYear : Int := 262142

/-- The date exists. -/
def isValid (d : Date) : Bool :=
  minYear ≤ d.year && d.year ≤ maxYear && 1 ≤ d.day && d.day ≤ daysIn d.year d.month

/-- The date of the given year, month and day, when it exists. -/
def of? (year : Int) (month day : Nat) : Option Date :=
  let d : Date := ⟨year, month, day⟩
  if d.isValid then some d else none

/-- The day after. -/
def next (d : Date) : Date :=
  if d.day < daysIn d.year d.month then { d with day := d.day + 1 }
  else if d.month < 12 then ⟨d.year, d.month + 1, 1⟩
  else ⟨d.year + 1, 1, 1⟩

/-- The day before. -/
def previous (d : Date) : Date :=
  if 1 < d.day then { d with day := d.day - 1 }
  else if 1 < d.month then ⟨d.year, d.month - 1, daysIn d.year (d.month - 1)⟩
  else ⟨d.year - 1, 12, 31⟩

/-- Earlier days come first. -/
protected def compare (a b : Date) : Ordering :=
  (compare a.year b.year).then ((compare a.month b.month).then (compare a.day b.day))

end Date

/-! ## Times of day -/

/-- A time of day.  Within a leap second, which follows second 59, `nano` is a billion or more. -/
structure Clock where
  hour : Nat
  minute : Nat
  second : Nat
  nano : Nat
  deriving DecidableEq, Repr

namespace Clock

/-- The beginning of a day. -/
def midnight : Clock := ⟨0, 0, 0, 0⟩

/-- The nanoseconds of a second. -/
def billion : Nat := 1000000000

/-- The time that a clock shows as `hour:minute:second` and a fraction, when there is such a time;
second 60 is a leap second. -/
def of? (hour minute second fraction : Nat) : Option Clock :=
  if hour < 24 ∧ minute < 60 ∧ second ≤ 60 then
    some (if second = 60 then ⟨hour, minute, 59, billion + fraction⟩
      else ⟨hour, minute, second, fraction⟩)
  else
    none

/-- The second that the clock shows. -/
def shownSecond (t : Clock) : Nat := t.second + t.nano / billion

/-- The fraction that the clock shows. -/
def shownNano (t : Clock) : Nat := t.nano % billion

/-- Earlier times come first. -/
protected def compare (a b : Clock) : Ordering :=
  (compare a.hour b.hour).then ((compare a.minute b.minute).then
    ((compare a.second b.second).then (compare a.nano b.nano)))

end Clock

/-! ## Date and time -/

/-- A day and a time on it. -/
structure DateTime where
  date : Date
  clock : Clock
  deriving DecidableEq, Repr

namespace DateTime

/-- Earlier moments come first. -/
protected def compare (a b : DateTime) : Ordering :=
  (a.date.compare b.date).then (a.clock.compare b.clock)

/-- The reading of the clock so many minutes (less than a day) later or earlier. -/
def shift (t : DateTime) (minutes : Int) : DateTime :=
  let total : Int := (60 * t.clock.hour + t.clock.minute : Nat) + minutes
  let date := if total < 0 then t.date.previous else if 1440 ≤ total then t.date.next else t.date
  let inDay := (total % 1440).toNat
  ⟨date, { t.clock with hour := inDay / 60, minute := inDay % 60 }⟩

end DateTime

/-! ## Moments -/

/-- A local date and time together with the distance of the local clock from universal time in
minutes, positive to the east. -/
structure Moment where
  here : DateTime
  offset : Int
  deriving DecidableEq, Repr

namespace Moment

/-- The date and time in universal time. -/
def universal (t : Moment) : DateTime := t.here.shift (-t.offset)

/-- Earlier moments come first, wherever their clocks stand. -/
protected def compare (a b : Moment) : Ordering := a.universal.compare b.universal

end Moment

end EntityQuery
