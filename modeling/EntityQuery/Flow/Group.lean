import EntityQuery.Expr.Eval
import EntityQuery.Flow.Aggregate

/-!
# Groups of rows and matches of a join

Rows of one key come together in a group, groups stand in the order in which their keys were first
seen.  The rows on the right side of a join are kept by their key, so that the matches of a row on
the left are found at once.
-/

namespace EntityQuery

/-! ## Grouping -/

/-- An aggregate that is computed for every group: a function and the column of its values, or whole
rows. -/
structure AggregateCall where
  fn : AggregateFn
  column : Option Nat
  deriving DecidableEq, Repr

/-- The value of a row that a call takes; a whole row counts as a value that is not null. -/
def AggregateCall.value (call : AggregateCall) (row : Row) : Value :=
  match call.column with
  | some index => row.getD index .null
  | none => .boolean true

/-- The values of some columns of a row. -/
def Row.keyOf (columns : List Nat) (row : Row) : Key :=
  columns.map fun index => row.getD index .null

/-- The rows of one key, by their tallies. -/
structure Group where
  key : Key
  tallies : List Tally

namespace Group

/-- The group without rows. -/
def empty (calls : List AggregateCall) (key : Key) : Group := ⟨key, calls.map fun _ => .empty⟩

/-- Tallies after one more row, up to the first that cannot take it. -/
def addTo (row : Row) : List AggregateCall → List Tally → List Tally × Option TallyFault
  | call :: calls, tally :: tallies =>
    match tally.add call.fn (call.value row) with
    | .error fault => (tally :: tallies, some fault)
    | .ok tally =>
      let (tallies, fault) := addTo row calls tallies
      (tally :: tallies, fault)
  | _, tallies => (tallies, none)

/-- A row added to the group of its key, or to a new one behind the others. -/
def addRow (calls : List AggregateCall) (key : Key) (row : Row) :
    List Group → List Group × Option TallyFault
  | [] =>
    let (tallies, fault) := addTo row calls (empty calls key).tallies
    ([⟨key, tallies⟩], fault)
  | group :: rest =>
    if group.key.same key then
      let (tallies, fault) := addTo row calls group.tallies
      (⟨group.key, tallies⟩ :: rest, fault)
    else
      let (rest, fault) := addRow calls key row rest
      (group :: rest, fault)

/-- The row that stands for a group: its key, then its aggregates in the types of the results. -/
def row (calls : List AggregateCall) (types : List ScalarType) (group : Group) : Row :=
  group.key ++ (group.tallies.zip (calls.zip types)).map fun (tally, call, type) =>
    tally.result call.fn type

end Group

/-! ## Matches -/

/-- Rows by the value of their key column, the rows of one key in order. -/
structure MatchTable where
  buckets : List (Value × List Row)

namespace MatchTable

/-- The table without rows. -/
def empty : MatchTable := ⟨[]⟩

/-- A row added to the bucket of its key, or to a new one. -/
def addBucket (key : Value) (row : Row) : List (Value × List Row) → List (Value × List Row)
  | [] => [(key, [row])]
  | (k, rows) :: rest =>
    if k.sameKey key then (k, rows ++ [row]) :: rest else (k, rows) :: addBucket key row rest

/-- The rows by the value of a column; null is no key. -/
def ofRows (column : Nat) (rows : List Row) : MatchTable :=
  ⟨rows.foldl (fun buckets row =>
    let key := row.getD column .null
    if key.isNull then buckets else addBucket key row buckets) []⟩

/-- The rows of a key; null matches nothing. -/
def rowsOf (table : MatchTable) (key : Value) : List Row :=
  if key.isNull then []
  else match table.buckets.find? (·.1.sameKey key) with
    | some (_, rows) => rows
    | none => []

/-- The number of rows in a table. -/
def size (table : MatchTable) : Nat :=
  table.buckets.foldr (fun (_, rows) total => rows.length + total) 0

end MatchTable

end EntityQuery
