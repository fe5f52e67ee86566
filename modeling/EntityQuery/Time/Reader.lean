import EntityQuery.Text.Basic
import EntityQuery.Time.Calendar

/-!
# Reading dates and times

Two notations are read.  The lenient one takes one or two digits for each part of a date or time and
blanks before them, and years with a sign may have any number of digits.  The strict one, with an
offset from universal time, takes exactly four digits for the year and two for every other part.

A type of value takes the notations of the types next to it: a date is also read from a date and
time, a date and time also from a date alone (at midnight) or from a moment (in universal time), a
moment also from a date and time without offset (in universal time).

## Main definitions

* `Date.read?`, `DateTime.read?`, `Moment.read?` : the values of a text
-/

namespace EntityQuery

namespace TimeReader

/-! ## Parts -/

/-- The leading digits, at most `most` of them. -/
def leadingDigits (most : Nat) (cs : List Char) : List Char := (cs.take most).takeWhile Char.isDigit

/-- A number of `least` to `most` digits. -/
def digits (least most : Nat) (cs : List Char) : Option (Nat × List Char) :=
  let ds := leadingDigits most cs
  if ds.length < least then none else some (Text.number ds, cs.drop ds.length)

/-- A given character. -/
def char (c : Char) : List Char → Option (Unit × List Char)
  | [] => none
  | d :: rest => if c = d then some ((), rest) else none

/-- A number of one or two digits, blanks before it. -/
def shortNumber (cs : List Char) : Option (Nat × List Char) :=
  digits 1 2 (cs.dropWhile Text.isBlank)

/-- A year: up to four digits, any number of digits after a sign, blanks before it. -/
def year (cs : List Char) : Option (Int × List Char) :=
  match cs.dropWhile Text.isBlank with
  | '-' :: rest => (digits 1 rest.length rest).map fun (n, rest) => (-(n : Int), rest)
  | '+' :: rest => (digits 1 rest.length rest).map fun (n, rest) => ((n : Int), rest)
  | rest => (digits 1 4 rest).map fun (n, rest) => ((n : Int), rest)

/-- Nanoseconds from the digits after a point; digits beyond the ninth are dropped. -/
def fraction : List Char → Option (Nat × List Char)
  | '.' :: cs =>
    let ds := leadingDigits 9 cs
    if ds.isEmpty then none
    else some (Text.number (ds ++ List.replicate (9 - ds.length) '0'), cs.dropWhile Char.isDigit)
  | cs => some (0, cs)

/-! ## Lenient notation -/

/-- A date in lenient notation. -/
def lenientDate (cs : List Char) : Option ((Int × Nat × Nat) × List Char) := do
  let (year, cs) ← year cs
  let (_, cs) ← char '-' cs
  let (month, cs) ← shortNumber cs
  let (_, cs) ← char '-' cs
  let (day, cs) ← shortNumber cs
  return ((year, month, day), cs)

/-- A time in lenient notation. -/
def lenientClock (cs : List Char) : Option (Clock × List Char) := do
  let (hour, cs) ← shortNumber cs
  let (_, cs) ← char ':' cs
  let (minute, cs) ← shortNumber cs
  let (_, cs) ← char ':' cs
  let (second, cs) ← shortNumber cs
  let (nano, cs) ← fraction cs
  return (← Clock.of? hour minute second nano, cs)

/-- The value of a reader that has used up all characters. -/
def complete {α : Type} : Option (α × List Char) → Option α
  | some (value, []) => some value
  | _ => none

/-- A text that is a date in lenient notation. -/
def dateOnly? (cs : List Char) : Option Date := do
  let (year, month, day) ← complete (lenientDate cs)
  Date.of? year month day

/-- A text that is a date, a separator and a time in lenient notation.  The separator `T` is
written, a blank may also be left out. -/
def dateTimeWith? (separator : List Char → Option (List Char)) (cs : List Char) :
    Option DateTime := do
  let ((year, month, day), cs) ← lenientDate cs
  let clock ← complete (lenientClock (← separator cs))
  return ⟨← Date.of? year month day, clock⟩

/-- The separator `T`. -/
def afterMark (cs : List Char) : Option (List Char) := (char 'T' cs).map (·.2)

/-- Any number of blanks. -/
def afterBlanks (cs : List Char) : Option (List Char) := some (cs.dropWhile Text.isBlank)

/-! ## Strict notation -/

/-- A sign as a factor; the minus sign may also be the mathematical one. -/
def sign : List Char → Option (Int × List Char)
  | '+' :: rest => some (1, rest)
  | '-' :: rest => some (-1, rest)
  | '−' :: rest => some (-1, rest)
  | _ => none

/-- An offset in minutes: `Z`, or hours and minutes below a day. -/
def offset : List Char → Option (Int × List Char)
  | 'Z' :: rest => some (0, rest)
  | 'z' :: rest => some (0, rest)
  | cs => do
    let (factor, cs) ← sign cs
    let (hours, cs) ← digits 2 2 cs
    let (_, cs) ← char ':' cs
    let (minutes, cs) ← digits 2 2 cs
    if hours < 24 ∧ minutes < 60 then some (factor * (60 * hours + minutes : Nat), cs) else none

/-- A text that is a date, a time and an offset in strict notation. -/
def moment? (cs : List Char) : Option Moment := do
  let (year, cs) ← digits 4 4 cs
  let (_, cs) ← char '-' cs
  let (month, cs) ← digits 2 2 cs
  let (_, cs) ← char '-' cs
  let (day, cs) ← digits 2 2 cs
  let cs ← match cs with
    | 'T' :: rest | 't' :: rest | ' ' :: rest => some rest
    | _ => none
  let (hour, cs) ← digits 2 2 cs
  let (_, cs) ← char ':' cs
  let (minute, cs) ← digits 2 2 cs
  let (_, cs) ← char ':' cs
  let (second, cs) ← digits 2 2 cs
  let (nano, cs) ← fraction cs
  let offset ← complete (offset cs)
  return ⟨⟨← Date.of? year month day, ← Clock.of? hour minute second nano⟩, offset⟩

end TimeReader

open TimeReader

/-- The date and time of a text. -/
def DateTime.read? (text : String) : Option DateTime :=
  let cs := text.toList
  dateTimeWith? afterMark cs
    <|> dateTimeWith? afterBlanks cs
    <|> (moment? cs).map Moment.universal
    <|> (dateOnly? cs).map fun date => ⟨date, .midnight⟩

/-- The date of a text. -/
def Date.read? (text : String) : Option Date :=
  dateOnly? text.toList <|> (DateTime.read? text).map DateTime.date

/-- The moment of a text. -/
def Moment.read? (text : String) : Option Moment :=
  moment? text.toList <|> (DateTime.read? text).map fun t => ⟨t, 0⟩

end EntityQuery
