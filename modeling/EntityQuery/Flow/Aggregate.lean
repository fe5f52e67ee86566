import EntityQuery.Number.Width
import EntityQuery.Value.Literal

/-!
# Aggregates of a group of rows

Values are added to a tally one by one, null being passed over.  A sum of whole numbers is exact and
must stay within the range of the result at every step; the least and the greatest value are kept as
the first of their equals.

## Main definitions

* `Tally.add` : the tally after one more value
* `Tally.result` : the aggregate of the values that were added
-/

namespace EntityQuery

/-! ## Functions -/

/-- An aggregate function. -/
inductive AggregateFn where
  | count
  | sum
  | avg
  | min
  | max
  deriving DecidableEq, Repr

namespace AggregateFn

/-- All aggregate functions. -/
def all : List AggregateFn := [.count, .sum, .avg, .min, .max]

/-- The name of a function. -/
def name : AggregateFn → String
  | .count => "count"
  | .sum => "sum"
  | .avg => "avg"
  | .min => "min"
  | .max => "max"

/-- The function of a name. -/
def ofName? (s : String) : Option AggregateFn := all.find? (·.name = s)

/-- The function adds numbers. -/
def needsNumbers : AggregateFn → Bool
  | .sum | .avg => true
  | _ => false

/-- The type of the result for values of a type, or for whole rows. -/
def resultType : AggregateFn → Option ScalarType → ScalarType
  | .count, _ => .int64
  | .sum, some .float64 => .float64
  | .sum, _ => .int64
  | .avg, _ => .float64
  | .min, type | .max, type => type.getD .int64

/-- The order in which a value stands to the one kept so far when it takes its place. -/
def replaces : AggregateFn → Ordering
  | .min => .lt
  | _ => .gt

end AggregateFn

/-! ## Tallies -/

/-- What goes wrong when a value is added. -/
inductive TallyFault where
  | overflow
  | notNumeric (fn : AggregateFn) (value : Value)

/-- What is kept of the values of a group. -/
structure Tally where
  count : Nat
  intSum : Int
  floatSum : Float
  extreme : Option Value

namespace Tally

/-- The tally of no values. -/
def empty : Tally := ⟨0, 0, 0, none⟩

/-- One more value counted. -/
def counted (t : Tally) : Tally := { t with count := t.count + 1 }

/-- A whole number added to the sum. -/
def addInt (t : Tally) (n : Int) : Except TallyFault Tally :=
  if Width.fitsInt64 (t.intSum + n) then pure { t with intSum := t.intSum + n } else throw .overflow

/-- A number added to the sum. -/
def addNumber (fn : AggregateFn) (t : Tally) : Value → Except TallyFault Tally
  | .int32 n => t.addInt n.toInt
  | .int64 n => t.addInt n.toInt
  | .float64 x => pure { t with floatSum := t.floatSum + x }
  | v => throw (.notNumeric fn v)

/-- A value in place of the one kept so far, if it is the first or comes before it. -/
def keep (fn : AggregateFn) (t : Tally) (value : Value) : Tally :=
  match t.extreme with
  | none => { t with extreme := some value }
  | some kept =>
    if value.compare? kept = some fn.replaces then { t with extreme := some value } else t

/-- The tally after one more value. -/
def add (fn : AggregateFn) (t : Tally) (value : Value) : Except TallyFault Tally :=
  if value.isNull then pure t
  else match fn with
    | .count => pure t.counted
    | .sum | .avg => do return (← t.addNumber fn value).counted
    | .min | .max => pure (t.keep fn value).counted

/-- The sum as a floating-point number. -/
def total (t : Tally) : Float := Float.ofInt t.intSum + t.floatSum

/-- The aggregate of the values that were added, in the type of the result. -/
def result (fn : AggregateFn) (type : ScalarType) (t : Tally) : Value :=
  match fn with
  | .count => .int64 (Int64.ofNat t.count)
  | _ =>
    if t.count = 0 then .null
    else match fn with
      | .sum => if type = .float64 then .float64 t.total else .int64 (Int64.ofInt t.intSum)
      | .avg => .float64 (t.total / Float.ofNat t.count)
      | _ => t.extreme.getD .null

end Tally

end EntityQuery
