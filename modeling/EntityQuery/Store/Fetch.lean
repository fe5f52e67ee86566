import EntityQuery.Flow.Pull
import EntityQuery.Store.Basic
import EntityQuery.Store.Plan
import EntityQuery.Value.Record

/-!
# Running a plan

A plan is turned into a flow: the table of the root, the joins, and the rows of which the predicate
holds.  To fetch records, grouping, projection, distinct rows, order and window are put on top; to
count, the rows of the root are counted, each once when a join may repeat it.

## Main definitions

* `Store.source` : the joined rows of which the predicate holds
* `Store.fetch` : the records of a plan
* `Store.count` : the number of rows of the root entity
-/

namespace EntityQuery

namespace Plan

/-- The position of a column. -/
def position (schema : Schema) (name : String) : Except FlowFault Nat :=
  match schema.position? name with
  | some index => pure index
  | none => throw (.columnNotFound name)

/-- The rows of a flow grouped as a plan says. -/
def group (p : Plan) (flow : Flow) : Except FlowFault Flow :=
  if p.isAggregate then do
    let columns ← p.groupBy.mapM (position flow.schema)
    let calls ← p.aggregates.mapM fun item => do
      return (⟨item.fn, some (← position flow.schema item.column)⟩, some item.label)
    flow.groupBy columns calls
  else
    pure flow

/-- The columns that a plan shows. -/
def project (p : Plan) (flow : Flow) : Except FlowFault Flow := do
  let columns ←
    if p.projection.isEmpty then pure (flow.schema.names.mapIdx fun index name => (index, name))
    else p.projection.mapM fun item => return (← position flow.schema item.column, item.label)
  flow.select columns

/-- The rows of a flow without repetitions, if a plan asks for that. -/
def dedupe (p : Plan) (flow : Flow) : Flow :=
  if p.distinct then .distinct flow [] [] false else flow

/-- The rows of a flow in the order of a plan. -/
def order (p : Plan) (flow : Flow) : Except FlowFault Flow :=
  if p.orderBy.isEmpty then pure flow
  else do
    let keys ← p.orderBy.mapM fun item =>
      return SortKey.of (← position flow.schema item.label) item.direction
    flow.sortBy keys

/-- The part of the rows that a plan asks for. -/
def paged (p : Plan) (flow : Flow) : Flow :=
  match p.window with
  | some w => flow.window w.offset (some w.limit)
  | none => flow

/-- The rows that a plan shows, of those of its source. -/
def shape (p : Plan) (flow : Flow) : Except FlowFault Flow := do
  let flow ← p.group flow
  let flow ← p.project flow
  let flow ← p.order (p.dedupe flow)
  return p.paged flow

/-- One row with the number of rows of the root, of those of the source of a plan. -/
def counter (p : Plan) (flow : Flow) : Except FlowFault Flow := do
  let flow ←
    if p.distinct || p.hasToManyJoin then do flow.distinctOn [← position flow.schema p.idColumn]
    else pure flow
  flow.groupBy [] [(⟨.count, none⟩, none)]

end Plan

namespace Store

variable (s : Store)

/-- The rows of a table. -/
def scan (name : String) : Except StoreFault Flow := do
  let table ← s.table name
  return .ofRows table.schema table.rows

/-- The rows of the table of a join, their columns named below its path. -/
def scanJoin (j : Join) : Except StoreFault Flow := do
  let table ← s.table j.table
  return .ofRows (table.schema.under j.path) table.rows

/-- The rows of a flow with one more table joined. -/
def addJoin (flow : Flow) (j : Join) : Except StoreFault Flow := do
  let right ← s.scanJoin j
  (flow.leftJoin right j.leftKey (j.path ++ "." ++ j.rightKey)).mapError .flow

/-- The joined rows of which the predicate of a plan holds. -/
def source (p : Plan) : Except StoreFault Flow := do
  let flow ← p.joins.foldlM s.addJoin (← s.scan p.table)
  (flow.whereHolds p.predicate).mapError .flow

/-- All rows of a flow, unless there is a fault; the signal afterwards. -/
def runAll (flow : Flow) (signal : Signal) : Except StoreFault (List Row) × Signal :=
  match flow.run signal with
  | (_, some fault, _, signal) => (.error (.flow fault), signal)
  | (rows, none, _, signal) => (.ok rows, signal)

/-- What a run gives that looks at the signal first. -/
def unlessCancelled {α : Type} (signal : Signal) (run : Signal → Except StoreFault α × Signal) :
    Except StoreFault α × Signal :=
  if signal.isSet then (.error (.flow .cancelled), signal.look) else run signal.look

/-- The records of a plan, and the signal afterwards. -/
def fetch (p : Plan) (signal : Signal) : Except StoreFault (List Record) × Signal :=
  unlessCancelled signal fun signal =>
    match (do (p.shape (← s.source p)).mapError StoreFault.flow) with
    | .error fault => (.error fault, signal)
    | .ok flow =>
      let (rows, signal) := runAll flow signal
      (rows.map (·.map (Record.zip flow.schema.names)), signal)

/-- The number in the only row of a count. -/
def countOf : List Row → Nat
  | [.int64 n] :: _ => n.toInt.toNat
  | _ => 0

/-- The number of rows of the root entity of which the predicate of a plan holds, and the signal
afterwards. -/
def count (p : Plan) (signal : Signal) : Except StoreFault Nat × Signal :=
  unlessCancelled signal fun signal =>
    match (do (p.counter (← s.source p)).mapError StoreFault.flow) with
    | .error fault => (.error fault, signal)
    | .ok flow =>
      let (rows, signal) := runAll flow signal
      (rows.map countOf, signal)

end Store

end EntityQuery
