/-!
# Text as a list of characters

Paths, aliases and wire notations are cut at separators and glued together again.  These operations
go through the list of characters of a text, so that statements about them are statements about
lists.
-/

namespace EntityQuery.Text

/-- The pieces of a text between the occurrences of a separator; always at least one piece. -/
def pieces (separator : Char) (text : String) : List String :=
  (text.toList.splitOn separator).map String.ofList

/-- The pieces with a separator between neighbours. -/
def glue (separator : Char) (parts : List String) : String :=
  String.ofList ([separator].intercalate (parts.map String.toList))

/-- `text` begins with `start`. -/
def startsWith (text start : String) : Bool := start.toList.isPrefixOf text.toList

/-- `text` ends with `tail`. -/
def endsWith (text tail : String) : Bool := tail.toList.isSuffixOf text.toList

/-- `part` stands somewhere in a list of characters. -/
def hasPart (part : List Char) : List Char → Bool
  | [] => part.isEmpty
  | c :: rest => part.isPrefixOf (c :: rest) || hasPart part rest

/-- `part` stands somewhere in `text`. -/
def contains (text part : String) : Bool := hasPart part.toList text.toList

/-- What follows `start` in a text that begins with it. -/
def dropStart? (start text : String) : Option String :=
  (start.toList.isPrefixOf? text.toList).map String.ofList

/-- The text up to the last separator, when there is one. -/
def beforeLast? (separator : Char) (text : String) : Option String :=
  match pieces separator text with
  | [] | [_] => none
  | parts => some (glue separator parts.dropLast)

/-- The characters that count as blank between the parts of a date or time. -/
def isBlank (c : Char) : Bool :=
  let code := c.toNat
  (0x09 ≤ code && code ≤ 0x0D) || code == 0x20 || code == 0x85 || code == 0xA0 || code == 0x1680 ||
    (0x2000 ≤ code && code ≤ 0x200A) || code == 0x2028 || code == 0x2029 || code == 0x202F ||
    code == 0x205F || code == 0x3000

/-- The code of a decimal digit character as a number. -/
def digitValue (c : Char) : Nat := c.toNat - '0'.toNat

/-- The number written by decimal digits. -/
def number (digits : List Char) : Nat :=
  digits.foldl (fun n c => 10 * n + digitValue c) 0

/-- The value of a hexadecimal digit. -/
def hexValue? (c : Char) : Option Nat :=
  if c.isDigit then some (digitValue c)
  else if 'a' ≤ c ∧ c ≤ 'f' then some (c.toNat - 'a'.toNat + 10)
  else if 'A' ≤ c ∧ c ≤ 'F' then some (c.toNat - 'A'.toNat + 10)
  else none

/-- The number written by hexadecimal digits. -/
def hexNumber? (cs : List Char) : Option Nat :=
  cs.foldlM (fun n c => (hexValue? c).map (16 * n + ·)) 0

/-- A number in decimal digits, filled with zeros on the left up to `width`. -/
def padded (width n : Nat) : String :=
  let digits := Nat.toDigits 10 n
  String.ofList (List.replicate (width - digits.length) '0' ++ digits)

end EntityQuery.Text
