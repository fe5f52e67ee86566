import EntityQuery.Json.Basic
import EntityQuery.Number.Decimal
import EntityQuery.Time.Printer
import EntityQuery.Time.Reader
import EntityQuery.Value.Basic

/-!
# Values as JSON and as text

A JSON literal is read as a value of a given type, or refused; null is a value of every type.
Written as JSON, a value that has been read is a literal that is read as the same value again,
unless it is a moment whose local year is written with a sign: readers take an offset behind years
from 0 to 9999 only, so that literal is refused.  A number that is not finite is written as null.
-/

namespace EntityQuery.Value

/-- The value of a JSON literal in a type. -/
def ofJson? : ScalarType → Json → Option Value
  | _, .null => some .null
  | .boolean, .bool b => some (.boolean b)
  | .int32, .int n => if Width.fitsInt32 n then some (.int32 (Int32.ofInt n)) else none
  | .int64, .int n => if Width.fitsInt64 n then some (.int64 (Int64.ofInt n)) else none
  | .float64, .int n => some (.float64 (Float.ofInt n))
  | .float64, .real x => some (.float64 x)
  | .text, .str s => some (.text s)
  | .uuid, .str s => (Uuid.read? s).map .uuid
  | .date, .str s => (Date.read? s).map .date
  | .dateTime, .str s => (DateTime.read? s).map .dateTime
  | .moment, .str s => (Moment.read? s).map .moment
  | _, _ => none

mutual

/-- A value as JSON; a number that is not finite becomes null. -/
def toJson : Value → Json
  | .null => .null
  | .boolean b => .bool b
  | .int32 n => .int n.toInt
  | .int64 n => .int n.toInt
  | .float64 x => if Binary64.isFinite x then .real x else .null
  | .text s => .str s
  | .uuid u => .str u.text
  | .date d => .str d.text
  | .dateTime t => .str (t.text "T")
  | .moment t => .str t.text
  | .list items => .arr (toJsonItems items)

/-- Values as JSON. -/
def toJsonItems : List Value → List Json
  | [] => []
  | v :: rest => toJson v :: toJsonItems rest

end

/-- Numbers are positional at any size, and whole numbers have no point.  A tie goes up. -/
def numberLayout : DecimalLayout := ⟨.up, none, none, false⟩

mutual

/-- A value as it is shown in predicates and messages. -/
def display : Value → String
  | .null => "NULL"
  | .boolean b => if b then "true" else "false"
  | .int32 n => toString n.toInt
  | .int64 n => toString n.toInt
  | .float64 x => numberLayout.write x
  | .text s => "'" ++ s ++ "'"
  | .uuid u => u.text
  | .date d => d.text
  | .dateTime t => t.text " "
  | .moment t => t.text
  | .list items => "(" ++ displayItems items ++ ")"

/-- Values with commas between them. -/
def displayItems : List Value → String
  | [] => ""
  | [v] => display v
  | v :: rest => display v ++ ", " ++ displayItems rest

end

end EntityQuery.Value
