import EntityQuery.Store.Table

/-!
# Stores

A store holds a table for every entity of a catalog.  Rows are given as JSON; a row that does not
fit is refused and leaves the store as it was, while the rows stored before it stay.

## Main definitions

* `Store.ofCatalog` : the store without rows
* `Store.insert`, `Store.load` : rows added at the end of their tables
-/

namespace EntityQuery

/-- The tables by name, and the table of every entity. -/
structure Store where
  tables : List (String × Table)
  entityTables : List (String × String)

namespace Store

/-! ## Tables -/

/-- The table of a name. -/
def table (s : Store) (name : String) : Except StoreFault Table :=
  match s.tables.lookup name with
  | some table => pure table
  | none => throw (.unknownTable name)

/-- The name of the table of an entity. -/
def tableName (s : Store) (entity : String) : Except StoreFault String :=
  match s.entityTables.lookup entity with
  | some name => pure name
  | none => throw (.unknownTable entity)

/-- The table of an entity. -/
def tableOf (s : Store) (entity : String) : Except StoreFault Table := do
  s.table (← s.tableName entity)

/-- The store with another table under a name. -/
def putTable (s : Store) (name : String) (table : Table) : Store :=
  { s with tables := Keyed.put Prod.fst (name, table) s.tables }

/-! ## Building -/

/-- The store with an empty table for one more entity. -/
def addEntity (c : Catalog) (s : Store) (e : Entity) : Except SearchFault Store := do
  let columns ← c.tableColumns e.name
  return { s.putTable e.tableName (.empty columns) with
    entityTables := Keyed.put Prod.fst (e.name, e.tableName) s.entityTables }

/-- The store without rows. -/
def ofCatalog (c : Catalog) : Except SearchFault Store := c.entities.foldlM (addEntity c) ⟨[], []⟩

/-! ## Rows -/

/-- A row added to the table of an entity. -/
def insert (s : Store) (entity : String) (json : Json) : Except StoreFault Store := do
  let name ← s.tableName entity
  let table ← s.table name
  let row ← (Row.ofJson table.columns json).mapError (.invalidRow entity)
  return s.putTable name { table with rows := table.rows ++ [row] }

/-- Rows added up to the first that is refused: the store after that, the number of rows added, and
the fault. -/
def insertAll (s : Store) (entity : String) : List Json → Store × Nat × Option StoreFault
  | [] => (s, 0, none)
  | json :: rest =>
    match s.insert entity json with
    | .error fault => (s, 0, some fault)
    | .ok s =>
      let (s, count, fault) := insertAll s entity rest
      (s, count + 1, fault)

/-- The rows of several entities added up to the first that is refused. -/
def loadMembers (s : Store) : List (String × Json) → Store × Nat × Option StoreFault
  | [] => (s, 0, none)
  | (entity, .arr rows) :: rest =>
    match s.insertAll entity rows with
    | (s, count, some fault) => (s, count, some fault)
    | (s, count, none) =>
      let (s, more, fault) := loadMembers s rest
      (s, count + more, fault)
  | (entity, _) :: _ => (s, 0, some (.invalidRow entity .rowsNotArray))

/-- The rows of a data set added, and their number. -/
def load (s : Store) : Json → Store × Except StoreFault Nat
  | .obj members =>
    match s.loadMembers members with
    | (s, _, some fault) => (s, .error fault)
    | (s, count, none) => (s, .ok count)
  | _ => (s, .error (.invalidRow "<data>" .dataNotObject))

/-- The number of rows of an entity. -/
def rowCount (s : Store) (entity : String) : Except StoreFault Nat := do
  return (← s.tableOf entity).rows.length

/-- The type of a column of the table of an entity. -/
def columnType (s : Store) (entity column : String) : Except StoreFault (Option ScalarType) := do
  return ((← s.tableOf entity).schema.find? (·.name = column)).map Column.type

end Store

end EntityQuery
