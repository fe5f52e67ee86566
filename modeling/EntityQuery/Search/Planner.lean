import EntityQuery.Filter.Predicate
import EntityQuery.Search.Request
import EntityQuery.Store.Plan

/-!
# Planning a request

A request is turned into a query plan.  Its filters and parameters give the predicate.  Without
selections and aggregates whole entities are shown, with all scalar fields and those of associations
with one target; otherwise the selected fields, or groups and aggregates.  The joins are those that
the predicate and the shown columns need, each path once and behind the path that it continues.

## Main definitions

* `Planner.resolve` : the field of a path as sent
* `Planner.plan` : the plan of a request and the shape of its results
-/

namespace EntityQuery

/-- What the results of a plan are. -/
inductive ResultShape where
  | entities
  | rows
  deriving DecidableEq, Repr

/-- A plan with the shape of its results. -/
structure Planned where
  plan : Plan
  shape : ResultShape

namespace Planner

variable (c : Catalog) (root marker : String)

/-! ## Fields -/

/-- A path without a root path of the root entity in front. -/
def withoutRoot (rootPaths : List String) (path : Path) : Path :=
  match path.names.head? with
  | none => path
  | some first =>
    if (c.attribute? root first).isNone && rootPaths.contains first then
      (path.skip? 1).getD path
    else path

/-- The field of a path as sent. -/
def resolve (text : String) : Except SearchFault Field :=
  match Path.read? (Spelling.plain marker text) with
  | none => throw (.unresolvable root text)
  | some path => do c.field root (withoutRoot c root (← c.entity root).rootPaths path)

/-- The scalar field of a path as sent. -/
def resolveScalar (fault : TypeFault) (text : String) : Except SearchFault Field := do
  let f ← resolve c root marker text
  if f.isComplex then throw (.typeMismatch text fault) else return f

/-! ## Shown columns -/

/-- A selected column. -/
structure Selected where
  path : String
  column : String
  label : String
  order : Option (Int × Direction)
  joins : List JoinStep

/-- The columns of a selection: one for a scalar field, the scalar fields of the target for an
association. -/
def columnsOf (s : Selection) : Except SearchFault (List Selected) := do
  let path := Spelling.plain marker s.path
  let f ← resolve c root marker path
  let label := s.label.getD path
  if f.isComplex then
    let fields ← c.scalarFields root (some f.path)
    return fields.map fun g =>
      ⟨path ++ "." ++ g.name, g.columnPath, label ++ "." ++ g.name, none, g.joins⟩
  else
    return [⟨path, f.columnPath, label, s.priority.map fun priority =>
      (priority, s.direction), f.joins⟩]

/-- The columns of some selections. -/
def select (selections : List Selection) : Except SearchFault (List Selected) := do
  return (← selections.mapM (columnsOf c root marker)).flatten

/-- The order by those columns that have a priority and are shown. -/
def ordering (columns : List Selected) (shown : List String) : List OrderItem :=
  let ordered := columns.filterMap fun s =>
    match s.order with
    | some (priority, direction) =>
      if shown.contains s.label then some (priority, OrderItem.mk s.label direction) else none
    | none => none
  (ordered.mergeSort fun a b => a.1 ≤ b.1).map (·.2)

/-- Columns with distinct labels. -/
def checkLabels (labels : List String) : Except SearchFault Unit :=
  match Keyed.repeated? labels with
  | some label => throw (.duplicateAlias label)
  | none => pure ()

/-- What a plan shows, besides its predicate and its window. -/
structure Shown where
  projection : List Projected
  groupBy : List String
  aggregates : List AggregateItem
  orderBy : List OrderItem
  joins : List JoinStep

/-- Whole entities: the scalar fields of the root and of its associations with one target, by
identifier. -/
def showEntity : Except SearchFault Shown := do
  let rootPath := (← c.entity root).rootPath
  let own ← c.scalarFields root none
  let toOne := (c.visible root).filter fun a =>
    match a.type with
    | .association _ (.toOne _) => (c.override? root a.name).isNone
    | _ => false
  let nested := (← toOne.mapM fun a => c.scalarFields root (some (Path.single a.name))).flatten
  let id ← c.idAttribute root
  return {
    projection :=
      own.map (fun f => ⟨f.columnPath, rootPath ++ "." ++ f.name⟩) ++
        nested.map fun f => ⟨f.columnPath, rootPath ++ "." ++ f.path.text⟩
    groupBy := []
    aggregates := []
    orderBy := [⟨rootPath ++ "." ++ id.name, .asc⟩]
    joins := nested.flatMap Field.joins }

/-- Selected columns. -/
def showRows (columns : List Selected) : Except SearchFault Shown := do
  checkLabels (columns.map Selected.label)
  return ⟨columns.map fun s => ⟨s.column, s.label⟩, [], [],
    ordering columns (columns.map Selected.label),
    columns.flatMap Selected.joins⟩

/-- A column that a plan groups by, under the label of the selection with the same path. -/
def groupColumn (columns : List Selected) (path : String) :
    Except SearchFault (Projected × List JoinStep) := do
  let f ← resolveScalar c root marker .groupByAssociation path
  let label := ((columns.find? (·.path = path)).map Selected.label).getD path
  return (⟨f.columnPath, label⟩, f.joins)

/-- An aggregate of a field. -/
def aggregateItem (fn : AggregateFn) (path : String) :
    Except SearchFault (AggregateItem × List JoinStep) := do
  let f ← resolveScalar c root marker .aggregateOfAssociation path
  if fn.needsNumbers && !f.type?.any ScalarType.isNumeric then
    throw (.typeMismatch path (.aggregateNotNumeric fn))
  return (⟨fn, f.columnPath, fn.name ++ "(" ++ path ++ ")"⟩, f.joins)

/-- The results of a check of items one after the other, each of which must have a label of its
own. -/
def labelled {α β : Type} (make : α → Except SearchFault β) (label : β → String) :
    List α → List String → Except SearchFault (List β)
  | [], _ => pure []
  | a :: rest, seen => do
    let b ← make a
    if seen.contains (label b) then throw (.duplicateAlias (label b))
    return b :: (← labelled make label rest (label b :: seen))

/-- Groups and aggregates. -/
def showAggregates (columns : List Selected) (a : Aggregates) : Except SearchFault Shown := do
  let groups ← labelled (groupColumn c root marker columns) (·.1.label) (a.groupBy.getD []) []
  let items ← labelled (fun (fn, path) => aggregateItem c root marker fn path) (·.1.label) a.calls
    (groups.map (·.1.label))
  let shown := groups.map (·.1) ++ items.map fun (item, _) => ⟨item.label, item.label⟩
  return {
    projection := shown
    groupBy := groups.map (·.1.column)
    aggregates := items.map (·.1)
    orderBy := ordering columns (shown.map Projected.label)
    joins := columns.flatMap Selected.joins ++ groups.flatMap (·.2) ++ items.flatMap (·.2) }

/-! ## Joins -/

/-- The join of a step: rows of an association with one target are found by its identifier, rows of
an association with many targets by the column in which they refer back. -/
def join (step : JoinStep) : Except SearchFault Join := do
  let before := Text.beforeLast? '.' step.path
  match step.cardinality with
  | .toOne joinColumn =>
    let id ← c.idAttribute step.target
    let target ← c.entity step.target
    return ⟨step.path, step.target, target.tableName, qualified before joinColumn,
      c.columnName step.target id.name, false⟩
  | .toMany mappedBy =>
    let id ← c.idAttribute step.source
    let back ← c.field step.target (Path.single mappedBy)
    let rightKey := match back.overridden,
        (c.attribute? step.target mappedBy).map Attribute.type with
      | false, some (.association _ (.toOne joinColumn)) => joinColumn
      | _, _ => back.column
    let target ← c.entity step.target
    return ⟨step.path, step.target, target.tableName,
      qualified before (c.columnName step.source id.name),
      rightKey, true⟩

/-! ## Plans -/

/-- The predicate of the filters and parameters of a request. -/
def predicate (hooks : FieldHooks) (r : Request) : Except SearchFault Compiled := do
  let groups ← FilterTree.compileGroups hooks r.groups
  match r.parameters with
  | none => return groups
  | some parameters => return .combine .and groups (← parameters.compile hooks)

/-- What a request shows, and in which shape. -/
def shown (r : Request) : Except SearchFault (Shown × ResultShape) := do
  if r.selections.isEmpty && r.aggregates.isNone then return (← showEntity c root, .entities)
  let columns ← select c root marker r.selections
  match r.aggregates with
  | some a => return (← showAggregates c root marker columns a, .rows)
  | none => return (← showRows columns, .rows)

/-- The plan of a request. -/
def plan (hooks : FieldHooks) (r : Request) (window : Option Window) :
    Except SearchFault Planned := do
  let e ← c.entity root
  let id ← c.idAttribute root
  let predicate ← predicate hooks r
  let (shown, shape) ← shown c root marker r
  let joins ← (JoinStep.merge predicate.joins shown.joins).mapM (join c)
  return {
    shape
    plan := {
      entity := root
      table := e.tableName
      idColumn := c.columnName root id.name
      joins
      predicate := predicate.predicate
      distinct := predicate.distinct || (shape = .entities && joins.any Join.toMany)
      projection := shown.projection
      groupBy := shown.groupBy
      aggregates := shown.aggregates
      orderBy := shown.orderBy
      window } }

end Planner

end EntityQuery
