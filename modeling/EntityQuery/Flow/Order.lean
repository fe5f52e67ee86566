import EntityQuery.Expr.Eval

/-!
# Sorting rows

Rows are sorted by some columns, each ascending or descending, nulls first or last whichever way the
others go.  Rows that no column tells apart keep their order.
-/

namespace EntityQuery

/-- The direction of an order. -/
inductive Direction where
  | asc
  | desc
  deriving DecidableEq, Repr

/-- The word for a direction. -/
def Direction.label : Direction → String
  | .asc => "Asc"
  | .desc => "Desc"

/-- An order by one column. -/
structure SortKey where
  column : Nat
  direction : Direction
  nullsFirst : Bool
  deriving DecidableEq, Repr

namespace SortKey

/-- The order by a column where null counts as less than all values. -/
def of (column : Nat) (direction : Direction) : SortKey := ⟨column, direction, direction = .asc⟩

/-- The order of two values of the column; values that cannot be compared count as equal. -/
def compareValues (key : SortKey) (a b : Value) : Ordering :=
  match a.isNull, b.isNull with
  | true, true => .eq
  | true, false => if key.nullsFirst then .lt else .gt
  | false, true => if key.nullsFirst then .gt else .lt
  | false, false =>
    let o := (a.compare? b).getD .eq
    match key.direction with
    | .asc => o
    | .desc => o.swap

/-- The order of two rows by the column. -/
def compareRows (key : SortKey) (a b : Row) : Ordering :=
  key.compareValues (a.getD key.column .null) (b.getD key.column .null)

/-- The order of two rows by several columns, the first that tells them apart. -/
def compareBy (keys : List SortKey) (a b : Row) : Ordering :=
  keys.foldr (fun key o => (key.compareRows a b).then o) .eq

end SortKey

namespace Row

/-- A row put before the rows at the end that come after it; the rows are given from the last to the
first. -/
def insertBack (less : Row → Row → Bool) (row : Row) : List Row → List Row
  | [] => [row]
  | last :: rest => if less row last then last :: insertBack less row rest else row :: last :: rest

/-- The rows in order; those that are equal in order stay as they are. -/
def sorted (keys : List SortKey) (rows : List Row) : List Row :=
  (rows.foldl
    (fun done row => insertBack (fun a b => SortKey.compareBy keys a b = .lt) row done) []).reverse

end Row

end EntityQuery
