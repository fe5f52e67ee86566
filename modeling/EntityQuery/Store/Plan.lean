import EntityQuery.Expr.Basic
import EntityQuery.Flow.Aggregate
import EntityQuery.Flow.Order

/-!
# Query plans

A plan says how the rows of an answer are got from the tables of a store: which tables are joined to
that of the root entity, which rows are kept, how they are grouped, which columns are shown under
which labels, in what order, and which part of them.

## Main definitions

* `Plan` : a query plan
* `Plan.limited` : the first rows of a plan
* `Plan.display` : the text of a plan
-/

namespace EntityQuery

/-- A table joined to the rows read so far, each row of which is kept. -/
structure Join where
  /-- The path that leads to the entity; the columns of the table are named below it. -/
  path : String
  entity : String
  table : String
  leftKey : String
  rightKey : String
  /-- There may be several matches to a row. -/
  toMany : Bool
  deriving DecidableEq, Repr

/-- A column shown under a label. -/
structure Projected where
  column : String
  label : String
  deriving DecidableEq, Repr

/-- An aggregate of a column under a label. -/
structure AggregateItem where
  fn : AggregateFn
  column : String
  label : String
  deriving DecidableEq, Repr

/-- An order by what is shown under a label. -/
structure OrderItem where
  label : String
  direction : Direction
  deriving DecidableEq, Repr

/-- At most `limit` rows after the first `offset`. -/
structure Window where
  offset : Nat
  limit : Nat
  deriving DecidableEq, Repr

/-- A query plan. -/
structure Plan where
  entity : String
  table : String
  idColumn : String
  joins : List Join
  predicate : Expr
  /-- Equal rows are shown once. -/
  distinct : Bool
  /-- What is shown; everything if it is empty. -/
  projection : List Projected
  groupBy : List String
  aggregates : List AggregateItem
  orderBy : List OrderItem
  window : Option Window

namespace Plan

/-- The plan that shows the whole table of an entity. -/
def whole (entity table idColumn : String) : Plan :=
  ⟨entity, table, idColumn, [], .always, false, [], [], [], [], none⟩

/-- The rows are grouped. -/
def isAggregate (p : Plan) : Bool := !p.aggregates.isEmpty || !p.groupBy.isEmpty

/-- A row of the root entity may be repeated by a join. -/
def hasToManyJoin (p : Plan) : Bool := p.joins.any Join.toMany

/-- The first rows of a plan. -/
def limited (p : Plan) (limit : Nat) : Plan := { p with window := some ⟨0, limit⟩ }

/-- All rows of a plan. -/
def unpaged (p : Plan) : Plan := { p with window := none }

/-! ## Text -/

/-- The text of a join. -/
def joinText (j : Join) : String :=
  " LEFT JOIN " ++ j.table ++ " AS " ++ j.path ++ " ON " ++ j.leftKey ++ " = " ++ j.path ++
    "." ++ j.rightKey

/-- Items behind a word, if there are any. -/
def clause (word : String) (items : List String) : String :=
  if items.isEmpty then "" else word ++ String.intercalate ", " items

/-- The text of a window. -/
def windowText : Option Window → String
  | some w => s!" LIMIT {w.limit} OFFSET {w.offset}"
  | none => ""

/-- The text of a plan. -/
def display (p : Plan) : String :=
  "FROM " ++ p.table ++ String.join (p.joins.map joinText) ++ " WHERE " ++ p.predicate.display ++
    clause " GROUP BY " p.groupBy ++
    clause " ORDER BY " (p.orderBy.map fun o => o.label ++ " " ++ o.direction.label) ++
      windowText p.window

end Plan

end EntityQuery
