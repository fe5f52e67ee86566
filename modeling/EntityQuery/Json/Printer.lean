import EntityQuery.Json.Basic
import EntityQuery.Number.Decimal

/-!
# JSON text

Values are written without blanks, or with one item to a line and two blanks of indentation to a
level.  Characters beyond ASCII stand for themselves.
-/

namespace EntityQuery.Json

/-- Numbers are positional from 0.00001 up to sixteen digits before the point, and show that they
are not whole numbers of the integer kind; all others have a signed exponent.  A tie goes to the
even digit. -/
def numberLayout : DecimalLayout := ⟨.toEven, some (-4), some 16, true⟩

/-- A hexadecimal digit. -/
def hexDigit (n : Nat) : Char := (Nat.toDigits 16 n).headD '0'

/-- A character inside a string. -/
def escape (c : Char) : List Char :=
  if c = '"' then ['\\', '"']
  else if c = '\\' then ['\\', '\\']
  else if c = '\x08' then ['\\', 'b']
  else if c = '\x0c' then ['\\', 'f']
  else if c = '\n' then ['\\', 'n']
  else if c = '\r' then ['\\', 'r']
  else if c = '\t' then ['\\', 't']
  else if c.toNat < 0x20 then
    ['\\', 'u', '0', '0', hexDigit (c.toNat / 16), hexDigit (c.toNat % 16)]
  else [c]

/-- A string in quotes. -/
def quoted (s : String) : String := String.ofList ('"' :: s.toList.flatMap escape ++ ['"'])

/-- The text of a value that is neither array nor object. -/
def scalarText : Json → String
  | .bool b => if b then "true" else "false"
  | .int n => toString n
  | .real x => if Binary64.isFinite x then numberLayout.write x else "null"
  | .str s => quoted s
  | _ => "null"

mutual

/-- The text without blanks. -/
def text : Json → String
  | .arr items => "[" ++ itemTexts items ++ "]"
  | .obj members => "\x7b" ++ memberTexts members ++ "\x7d"
  | json => scalarText json

/-- Items with commas between them. -/
def itemTexts : List Json → String
  | [] => ""
  | [item] => text item
  | item :: rest => text item ++ "," ++ itemTexts rest

/-- Members with commas between them. -/
def memberTexts : List (String × Json) → String
  | [] => ""
  | [(key, value)] => quoted key ++ ":" ++ text value
  | (key, value) :: rest => quoted key ++ ":" ++ text value ++ "," ++ memberTexts rest

end

/-- The beginning of a line at a level. -/
def newLine (level : Nat) : String := "\n" ++ String.ofList (List.replicate (2 * level) ' ')

mutual

/-- The text with one item to a line, for a value at a level. -/
def indented (level : Nat) : Json → String
  | .arr [] => "[]"
  | .obj [] => "\x7b\x7d"
  | .arr items => "[" ++ indentedItems (level + 1) items ++ newLine level ++ "]"
  | .obj members => "\x7b" ++ indentedMembers (level + 1) members ++ newLine level ++ "\x7d"
  | json => scalarText json

/-- Items on lines of their own. -/
def indentedItems (level : Nat) : List Json → String
  | [] => ""
  | [item] => newLine level ++ indented level item
  | item :: rest => newLine level ++ indented level item ++ "," ++ indentedItems level rest

/-- Members on lines of their own. -/
def indentedMembers (level : Nat) : List (String × Json) → String
  | [] => ""
  | [(key, value)] => newLine level ++ quoted key ++ ": " ++ indented level value
  | (key, value) :: rest =>
    newLine level ++ quoted key ++ ": " ++ indented level value ++ "," ++ indentedMembers level rest

end

end EntityQuery.Json
