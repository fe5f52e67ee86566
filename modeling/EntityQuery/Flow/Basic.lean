import EntityQuery.Expr.Typing
import EntityQuery.Flow.Fault
import EntityQuery.Flow.Group
import EntityQuery.Flow.Order
import EntityQuery.Flow.Schema

/-!
# Flows of rows

A flow is a stack of stages over scans of tables.  Rows are pulled from it one at a time, so every
stage carries what it has to remember between two rows.  This module holds the stages, the schema of
the rows that come out of them, and the functions that put a stage on a flow after checking that the
columns it names are there.
-/

namespace EntityQuery

/-- A flow of rows in the middle of its work.  `started` tells that the stage may be asked for
rows. -/
inductive Flow where
  /-- The rows of a table, and those of them that are still to come. -/
  | scan (schema : Schema) (rows unread : List Row) (started : Bool)
  /-- The rows of which a bound predicate holds. -/
  | filter (input : Flow) (predicate : Expr) (started : Bool)
  /-- Some columns under new names. -/
  | project (input : Flow) (columns : List (Nat × String)) (started : Bool)
  /-- The first row of every key; without columns the whole row is the key. -/
  | distinct (input : Flow) (columns : List Nat) (seen : List Key) (started : Bool)
  /-- All rows in order, those that are still to come once the stage has been started. -/
  | sort (input : Flow) (keys : List SortKey) (unread : List Row) (started : Bool)
  /-- At most so many rows after an offset, and how many were skipped and returned. -/
  | limit (input : Flow) (most : Option Nat) (offset skipped returned : Nat) (started : Bool)
  /-- A row for every group.  While the input is read, `groups` collects them; after that they are
  handed out. -/
  | aggregate (input : Flow) (columns : List Nat) (calls : List (AggregateCall × String))
      (groups : List Group)
      (complete : Bool) (started : Bool)
  /-- Every row on the left with its matches on the right, or with nulls when there is none.
  `ready` holds the joined rows that are still to come for the row on the left that was read
  last. -/
  | join (left right : Flow) (leftKey rightKey : Nat) (table : MatchTable) (ready : List Row)
      (started : Bool)

namespace Flow

/-! ## Schemas -/

/-- The columns of a schema at some positions. -/
def pick (schema : Schema) (columns : List Nat) : Schema := columns.filterMap (schema[·]?)

/-- The column of an aggregate. -/
def aggregateColumn (schema : Schema) : AggregateCall × String → Column
  | (call, name) => ⟨name, call.fn.resultType ((call.column.bind (schema[·]?)).map Column.type)⟩

/-- The columns of the rows that come out of a flow. -/
def schema : Flow → Schema
  | .scan schema _ _ _ => schema
  | .filter input _ _ => input.schema
  | .project input columns _ =>
    columns.filterMap fun (index, name) => input.schema[index]?.map fun column =>
      ⟨name, column.type⟩
  | .distinct input _ _ _ => input.schema
  | .sort input _ _ _ => input.schema
  | .limit input _ _ _ _ _ => input.schema
  | .aggregate input columns calls _ _ _ =>
    pick input.schema columns ++ calls.map (aggregateColumn input.schema)
  | .join left right _ _ _ _ _ => left.schema ++ right.schema

/-! ## Stages -/

/-- A scan that has not been started. -/
def ofRows (schema : Schema) (rows : List Row) : Flow := .scan schema rows rows false

/-- The rows of which a predicate over named columns holds. -/
def whereHolds (input : Flow) (predicate : Expr) : Except FlowFault Flow := do
  let bound ← (predicate.bind input.schema.names).mapError .expr
  (bound.checkPredicate input.schema.types).mapError .expr
  return .filter input bound false

/-- Some columns under new names. -/
def select (input : Flow) (columns : List (Nat × String)) : Except FlowFault Flow :=
  let width := input.schema.length
  match columns.find? fun (index, _) => width ≤ index with
  | some (index, _) => throw (.projectIndex index width)
  | none => pure (.project input columns false)

/-- Some columns under the names that they have. -/
def selectIndices (input : Flow) (columns : List Nat) : Except FlowFault Flow :=
  input.select (columns.map fun index => (index, (input.schema[index]?.map Column.name).getD ""))

/-- The first row of every key. -/
def distinctOn (input : Flow) (columns : List Nat) : Except FlowFault Flow :=
  match columns.find? (input.schema.length ≤ ·) with
  | some index => throw (.distinctIndex index)
  | none => pure (.distinct input columns [] false)

/-- All rows in order. -/
def sortBy (input : Flow) (keys : List SortKey) : Except FlowFault Flow :=
  let width := input.schema.length
  match keys.find? (width ≤ ·.column) with
  | some key => throw (.sortIndex key.column width)
  | none => pure (.sort input keys [] false)

/-- At most so many rows after an offset. -/
def window (input : Flow) (offset : Nat) (most : Option Nat) : Flow :=
  .limit input most offset 0 0 false

/-- The function takes the values of a column, or whole rows. -/
def checkCall (schema : Schema) (call : AggregateCall) : Except FlowFault Unit :=
  match call.column with
  | some index =>
    match schema[index]? with
    | none => throw (.aggregateIndex index)
    | some column =>
      if call.fn.needsNumbers && !column.type.isNumeric then
        throw (.notNumeric call.fn column.name column.type)
      else pure ()
  | none => if call.fn.needsNumbers then throw (.wholeRows call.fn) else pure ()

/-- The name of an aggregate that has none of its own. -/
def callName (schema : Schema) (call : AggregateCall) : String :=
  match call.column with
  | some index => call.fn.name ++ "(" ++ (schema[index]?.map Column.name).getD "" ++ ")"
  | none => call.fn.name ++ "(*)"

/-- A row for every group. -/
def groupBy (input : Flow) (columns : List Nat) (calls : List (AggregateCall × Option String)) :
    Except FlowFault Flow := do
  let schema := input.schema
  if columns.isEmpty && calls.isEmpty then throw .nothingToAggregate
  match columns.find? (schema.length ≤ ·) with
  | some index => throw (.groupIndex index)
  | none => pure ()
  calls.forM fun (call, _) => checkCall schema call
  return .aggregate input columns (calls.map fun (call, name) =>
    (call, name.getD (callName schema call)))
    [] false false

/-- Every row on the left with its matches on the right by two named columns of one type. -/
def leftJoin (left right : Flow) (leftKey rightKey : String) : Except FlowFault Flow :=
  match left.schema.position? leftKey, right.schema.position? rightKey with
  | none, _ => throw (.columnNotFound leftKey)
  | _, none => throw (.columnNotFound rightKey)
  | some leftIndex, some rightIndex =>
    match left.schema[leftIndex]?, right.schema[rightIndex]? with
    | some leftColumn, some rightColumn =>
      if leftColumn.type = rightColumn.type then
        pure (.join left right leftIndex rightIndex .empty [] false)
      else
        throw (.keyTypes leftKey leftColumn.type rightKey rightColumn.type)
    | _, _ => throw (.columnNotFound leftKey)

end Flow

end EntityQuery
