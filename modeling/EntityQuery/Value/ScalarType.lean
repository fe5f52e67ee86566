/-!
# Scalar types

The types that attributes are declared with, and the families of types that filter operators apply
to.
-/

namespace EntityQuery

/-- A scalar type. -/
inductive ScalarType where
  | boolean
  | int32
  | int64
  | float64
  | text
  | uuid
  | date
  | dateTime
  | moment
  deriving DecidableEq, Repr

/-- A family of scalar types. -/
inductive TypeFamily where
  | boolean
  | numeric
  | textual
  | identifier
  | temporal
  deriving DecidableEq, Repr

/-- The name of a family. -/
def TypeFamily.name : TypeFamily → String
  | .boolean => "boolean"
  | .numeric => "numeric"
  | .textual => "textual"
  | .identifier => "identifier"
  | .temporal => "temporal"

namespace ScalarType

/-- All scalar types, in the order in which they are listed. -/
def all : List ScalarType :=
  [.boolean, .int32, .int64, .float64, .text, .uuid, .date, .dateTime, .moment]

theorem mem_all (t : ScalarType) : t ∈ all := by cases t <;> decide

/-- The name by which catalogs and messages refer to a type. -/
def name : ScalarType → String
  | .boolean => "boolean"
  | .int32 => "int32"
  | .int64 => "int64"
  | .float64 => "float64"
  | .text => "varchar"
  | .uuid => "uuid"
  | .date => "date"
  | .dateTime => "date_time"
  | .moment => "date_time_offset"

/-- The spelling of a type in messages about operands. -/
def label : ScalarType → String
  | .boolean => "Boolean"
  | .int32 => "Int32"
  | .int64 => "Int64"
  | .float64 => "Float64"
  | .text => "Varchar"
  | .uuid => "Uuid"
  | .date => "Date"
  | .dateTime => "DateTime"
  | .moment => "DateTimeOffset"

/-- The type of a name; three types have further names. -/
def ofName? (s : String) : Option ScalarType :=
  if s = "string" ∨ s = "text" then some .text
  else if s = "offset_date_time" then some .moment
  else all.find? (·.name = s)

/-- The family of a type. -/
def family : ScalarType → TypeFamily
  | .boolean => .boolean
  | .int32 | .int64 | .float64 => .numeric
  | .text => .textual
  | .uuid => .identifier
  | .date | .dateTime | .moment => .temporal

/-- Whole numbers of a fixed width. -/
def isInteger : ScalarType → Bool
  | .int32 | .int64 => true
  | _ => false

/-- Numbers. -/
def isNumeric (t : ScalarType) : Bool := t.family = .numeric

/-- Values of the two types can be compared: they are of one type, or both numbers. -/
def comparable (a b : ScalarType) : Bool := a = b || (a.isNumeric && b.isNumeric)

end ScalarType

end EntityQuery
