import EntityQuery.Number.Binary64
import EntityQuery.Time.Calendar
import EntityQuery.Uuid
import EntityQuery.Value.ScalarType

/-!
# Values

The values that filters compare, tables hold and results show.  There are three relations between
values:

* `Value.compare?` orders values of one type, and numbers of all widths; null is never ordered;
* `Value.equal` holds of values of one kind with equal content;
* `Value.sameKey` decides which values grouping, distinct rows and joins identify.  It differs from
  `equal` in that floating-point numbers are told apart by their bits.
-/

namespace EntityQuery

/-- A value. -/
inductive Value where
  | null
  | boolean (b : Bool)
  | int32 (n : Int32)
  | int64 (n : Int64)
  | float64 (x : Float)
  | text (s : String)
  | uuid (u : Uuid)
  | date (d : Date)
  | dateTime (t : DateTime)
  | moment (t : Moment)
  /-- Several values, as literals of operators that take more than one. -/
  | list (items : List Value)
  deriving Inhabited

namespace Value

/-! ## Types -/

/-- The type of a value; null and lists have none. -/
def type? : Value → Option ScalarType
  | .null | .list _ => none
  | .boolean _ => some .boolean
  | .int32 _ => some .int32
  | .int64 _ => some .int64
  | .float64 _ => some .float64
  | .text _ => some .text
  | .uuid _ => some .uuid
  | .date _ => some .date
  | .dateTime _ => some .dateTime
  | .moment _ => some .moment

/-- The value is null. -/
def isNull : Value → Bool
  | .null => true
  | _ => false

/-- The value is a list. -/
def isList : Value → Bool
  | .list _ => true
  | _ => false

/-- The value fits where one of the type is expected: null fits everywhere, whole numbers also where
a wider number is expected. -/
def fits : Value → ScalarType → Bool
  | .null, _ => true
  | .list _, _ => false
  | .int32 _, .int64 | .int32 _, .float64 | .int64 _, .float64 => true
  | v, t => v.type? = some t

/-- The text of a textual value. -/
def text? : Value → Option String
  | .text s => some s
  | _ => none

/-- A number as a binary64 number. -/
def float? : Value → Option Float
  | .int32 n => some (Float.ofInt n.toInt)
  | .int64 n => some (Float.ofInt n.toInt)
  | .float64 x => some x
  | _ => none

/-! ## Order -/

/-- The order of two values: within a type, and between numbers; numbers of which one is a
floating-point number are compared as such. -/
def compare? : Value → Value → Option Ordering
  | .boolean a, .boolean b => some (compare a b)
  | .text a, .text b => some (compare a b)
  | .uuid a, .uuid b => some (a.compare b)
  | .date a, .date b => some (a.compare b)
  | .dateTime a, .dateTime b => some (a.compare b)
  | .moment a, .moment b => some (a.compare b)
  | .int32 a, .int32 b => some (compare a.toInt b.toInt)
  | .int64 a, .int64 b => some (compare a.toInt b.toInt)
  | .int32 a, .int64 b => some (compare a.toInt b.toInt)
  | .int64 a, .int32 b => some (compare a.toInt b.toInt)
  | a, b =>
    match a.float?, b.float? with
    | some x, some y => Binary64.compare? x y
    | _, _ => none

/-! ## Equality -/

mutual

/-- Values of one kind with equal content; moments are equal when they are the same instant. -/
def equal : Value → Value → Bool
  | .null, .null => true
  | .boolean a, .boolean b => a = b
  | .int32 a, .int32 b => a = b
  | .int64 a, .int64 b => a = b
  | .float64 a, .float64 b => Binary64.compare? a b = some .eq
  | .text a, .text b => a = b
  | .uuid a, .uuid b => a = b
  | .date a, .date b => a = b
  | .dateTime a, .dateTime b => a = b
  | .moment a, .moment b => a.universal = b.universal
  | .list as, .list bs => equalItems as bs
  | _, _ => false

/-- Lists of the same length with equal items. -/
def equalItems : List Value → List Value → Bool
  | [], [] => true
  | a :: as, b :: bs => equal a b && equalItems as bs
  | _, _ => false

end

mutual

/-- Values that form one key: equal values of one kind, floating-point numbers by their bits. -/
def sameKey : Value → Value → Bool
  | .float64 a, .float64 b => a.toBits = b.toBits
  | .list as, .list bs => sameKeyItems as bs
  | a, b => equal a b

/-- Items of one key that are also equal as values. -/
def sameKeyItems : List Value → List Value → Bool
  | [], [] => true
  | a :: as, b :: bs => sameKey a b && equal a b && sameKeyItems as bs
  | _, _ => false

end

end Value

/-! ## Keys of several values -/

/-- The values of some columns of a row, by which rows are grouped, joined or told apart. -/
abbrev Key := List Value

namespace Key

/-- Keys of the same length with the same values. -/
def same : Key → Key → Bool
  | [], [] => true
  | a :: as, b :: bs => a.sameKey b && same as bs
  | _, _ => false

/-- One of the values is null. -/
def hasNull (key : Key) : Bool := key.any Value.isNull

end Key

end EntityQuery
