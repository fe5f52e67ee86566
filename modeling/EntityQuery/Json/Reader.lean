import EntityQuery.Json.Written
import EntityQuery.Number.Decimal
import EntityQuery.Text.Basic

/-!
# Reading JSON text

A text holds one value, with blanks before and after it.  A number without point and exponent that
fits a machine word is a whole number, except for `-0`; every other number is a binary64 number.

A well-written part of a text has no meaning if it is a number beyond the greatest finite one, a
string with half of a surrogate pair, or an array or object that is nested too deep.

## Main definitions

* `Json.written?` : the tree of a text
* `Json.read?` : its meaning, members as written
-/

namespace EntityQuery.Json

/-- The depth to which arrays and objects may be nested. -/
def maxDepth : Nat := 127

/-- The characters that may stand between the parts of a value. -/
def isSpace (c : Char) : Bool := c = ' ' || c = '\n' || c = '\t' || c = '\r'

/-- What follows the blanks. -/
def skipSpace (cs : List Char) : List Char := cs.dropWhile isSpace

/-! ## Strings -/

/-- A code unit of four hexadecimal digits. -/
def codeUnit? : List Char → Option (Nat × List Char)
  | a :: b :: c :: d :: rest => (Text.hexNumber? [a, b, c, d]).map fun unit => (unit, rest)
  | _ => none

/-- The character of a simple escape. -/
def unescape? : Char → Option Char
  | '"' => some '"'
  | '\\' => some '\\'
  | '/' => some '/'
  | 'b' => some '\x08'
  | 'f' => some '\x0c'
  | 'n' => some '\n'
  | 'r' => some '\r'
  | 't' => some '\t'
  | _ => none

/-- The first of two code units that stand for one character. -/
def isLead (unit : Nat) : Bool := 0xD800 ≤ unit && unit < 0xDC00

/-- The second of two code units that stand for one character. -/
def isTrail (unit : Nat) : Bool := 0xDC00 ≤ unit && unit < 0xE000

/-- The character of two code units, the first a lead and the second a trail. -/
def pairChar? (lead trail : Nat) : Option Char :=
  if isLead lead && isTrail trail then
    some (Char.ofNat (0x10000 + (lead - 0xD800) * 0x400 + (trail - 0xDC00)))
  else none

/-- The character of an escaped code unit, or of a lead and the escaped unit behind it, if there is
such a character. -/
def escapedChar? (cs : List Char) : Option (Option Char × List Char) := do
  let (unit, cs) ← codeUnit? cs
  if isLead unit then
    match cs with
    | '\\' :: 'u' :: cs =>
      let (second, cs) ← codeUnit? cs
      return (pairChar? unit second, cs)
    | _ => return (none, cs)
  else return (if isTrail unit then none else some (Char.ofNat unit), cs)

/-- The characters of a string up to its closing quote, those read before in reverse.  A string
without a meaning is none. -/
def readString (fuel : Nat) (done : List (Option Char)) (cs : List Char) :
    Option (Option String × List Char) :=
  match fuel, cs with
  | 0, _ => none
  | _, [] => none
  | _, '"' :: rest => some ((done.reverse.mapM id).map String.ofList, rest)
  | fuel + 1, '\\' :: 'u' :: rest => do
    let (c, rest) ← escapedChar? rest
    readString fuel (c :: done) rest
  | fuel + 1, '\\' :: c :: rest => do
    let c ← unescape? c
    readString fuel (some c :: done) rest
  | fuel + 1, c :: rest =>
      if c.toNat < 0x20 ∨ c = '\\' then none else readString fuel (some c :: done) rest

/-! ## Numbers -/

/-- The parts of a number: sign, digits before and after the point, exponent. -/
structure NumberText where
  negative : Bool
  whole : List Char
  fraction : Option (List Char)
  exponent : Option (Bool × List Char)

/-- The digits before the point: a zero alone, or digits that do not begin with zero. -/
def wholeDigits (cs : List Char) : Option (List Char × List Char) :=
  match cs with
  | '0' :: rest => if rest.head?.any Char.isDigit then none else some (['0'], rest)
  | _ => nonEmpty (cs.takeWhile Char.isDigit) (cs.dropWhile Char.isDigit)
where
  /-- Digits that must not be missing. -/
  nonEmpty (digits rest : List Char) : Option (List Char × List Char) :=
    if digits.isEmpty then none else some (digits, rest)

/-- The digits after a point. -/
def fractionDigits : List Char → Option (Option (List Char) × List Char)
  | '.' :: cs =>
    let digits := cs.takeWhile Char.isDigit
    if digits.isEmpty then none else some (some digits, cs.dropWhile Char.isDigit)
  | cs => some (none, cs)

/-- The digits of an exponent and whether it is negative. -/
def exponentDigits (cs : List Char) : Option (Option (Bool × List Char) × List Char) :=
  match cs with
  | c :: rest =>
    if c = 'e' ∨ c = 'E' then
      let (negative, rest) := match rest with
        | '+' :: rest => (false, rest)
        | '-' :: rest => (true, rest)
        | _ => (false, rest)
      let digits := rest.takeWhile Char.isDigit
      if digits.isEmpty then none else some (some (negative, digits), rest.dropWhile Char.isDigit)
    else
      some (none, cs)
  | [] => some (none, [])

/-- A number cut into its parts. -/
def numberText? (cs : List Char) : Option (NumberText × List Char) := do
  let (negative, cs) := match cs with
    | '-' :: rest => (true, rest)
    | _ => (false, cs)
  let (whole, cs) ← wholeDigits cs
  let (fraction, cs) ← fractionDigits cs
  let (exponent, cs) ← exponentDigits cs
  return (⟨negative, whole, fraction, exponent⟩, cs)

namespace NumberText

/-- The decimal that the parts stand for, its digits cut off where they overflow a machine word. -/
def decimal (t : NumberText) : Decimal :=
  let (word, dropped) := Decimal.collect 0 t.whole
  let fraction := t.fraction.getD []
  let (word, ignored) := Decimal.collect word fraction
  let written : Int := match t.exponent with
    | none => 0
    | some (negative, digits) =>
        if negative then -(Text.number digits : Int) else Text.number digits
  ⟨word, dropped.length - (fraction.length - ignored.length : Nat) + written⟩

/-- The parts read as a binary64 number, if it is finite. -/
def real (t : NumberText) : Written :=
  match t.decimal.toFloat? with
  | some x => .real (if t.negative then -x else x)
  | none => .meaningless

/-- The parts read as a number. -/
def written (t : NumberText) : Written :=
  match t.fraction, t.exponent with
  | none, none =>
    let n : Int := if t.negative then -(Text.number t.whole : Int) else Text.number t.whole
    if inIntRange n && !(t.negative && n = 0) then .int n else t.real
  | _, _ => t.real

end NumberText

/-! ## Values -/

mutual

/-- A value that stands at the beginning of the characters, which may be nested `depth` deep. -/
def readValue (fuel depth : Nat) (cs : List Char) : Option (Written × List Char) :=
  match fuel, cs with
  | 0, _ => none
  | _, 'n' :: 'u' :: 'l' :: 'l' :: rest => some (.null, rest)
  | _, 't' :: 'r' :: 'u' :: 'e' :: rest => some (.bool true, rest)
  | _, 'f' :: 'a' :: 'l' :: 's' :: 'e' :: rest => some (.bool false, rest)
  | fuel + 1, '"' :: rest =>
    (readString (fuel + 1) [] rest).map fun (s, rest) => (s.elim .meaningless .str, rest)
  | fuel + 1, '[' :: rest =>
    match skipSpace rest with
    | ']' :: rest => some (.within depth (.arr []), rest)
    | rest => (readItems fuel (depth - 1) [] rest).map fun (items, rest) =>
        (.within depth (.arr items), rest)
  | fuel + 1, '\x7b' :: rest =>
    match skipSpace rest with
    | '\x7d' :: rest => some (.within depth (.obj []), rest)
    | rest => (readMembers fuel (depth - 1) [] rest).map fun (members, rest) =>
        (.within depth (.object members), rest)
  | _, cs => (numberText? cs).map fun (number, rest) => (number.written, rest)

/-- Items up to the closing bracket, those read before in reverse. -/
def readItems (fuel depth : Nat) (done : List Written) (cs : List Char) :
    Option (List Written × List Char) :=
  match fuel with
  | 0 => none
  | fuel + 1 => do
    let (item, rest) ← readValue fuel depth (skipSpace cs)
    match skipSpace rest with
    | ',' :: rest => readItems fuel depth (item :: done) rest
    | ']' :: rest => return ((item :: done).reverse, rest)
    | _ => none

/-- Members up to the closing brace, those read before in reverse. -/
def readMembers (fuel depth : Nat) (done : List (Option String × Written)) (cs : List Char) :
    Option (List (Option String × Written) × List Char) :=
  match fuel with
  | 0 => none
  | fuel + 1 =>
    match skipSpace cs with
    | '"' :: rest => do
      let (key, rest) ← readString (rest.length + 1) [] rest
      match skipSpace rest with
      | ':' :: rest =>
        let (value, rest) ← readValue fuel depth (skipSpace rest)
        match skipSpace rest with
        | ',' :: rest => readMembers fuel depth ((key, value) :: done) rest
        | '\x7d' :: rest => return (((key, value) :: done).reverse, rest)
        | _ => none
      | _ => none
    | _ => none

end

/-- The tree of a text. -/
def written? (text : String) : Option Written :=
  let cs := text.toList
  match readValue (2 * cs.length + 2) maxDepth (skipSpace cs) with
  | some (value, rest) => if (skipSpace rest).isEmpty then some value else none
  | none => none

/-- The meaning of a text. -/
def read? (text : String) : Option Json := (written? text).bind Written.value?

end EntityQuery.Json
