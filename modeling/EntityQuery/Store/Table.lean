import EntityQuery.Catalog.Field
import EntityQuery.Expr.Eval
import EntityQuery.Flow.Schema

/-!
# Tables of entities

The rows of an entity are stored in a table with a column for every scalar attribute and for every
association with one target, whose identifier is stored.  Where two attributes have one column the
first of them keeps it.

## Main definitions

* `Catalog.tableColumns` : the columns of the table of an entity
* `StoredColumn.read` : the value of a column in a row given as JSON
-/

namespace EntityQuery

/-- A column of a table with the attribute that is stored in it. -/
structure StoredColumn where
  column : Column
  attributeName : String
  /-- For an association, the attribute that identifies its target. -/
  targetId : Option String
  deriving DecidableEq, Repr

/-- A table. -/
structure Table where
  columns : List StoredColumn
  rows : List Row

namespace Table

/-- The table without rows. -/
def empty (columns : List StoredColumn) : Table := ⟨columns, []⟩

/-- The columns of the rows. -/
def schema (t : Table) : Schema := t.columns.map StoredColumn.column

end Table

namespace Catalog

variable (c : Catalog)

/-- The column in which an attribute of an entity is stored; none for an association with many
targets. -/
def storedColumn? (entity : String) (a : Attribute) : Except SearchFault (Option StoredColumn) := do
  let f ← c.field entity (Path.single a.name)
  match f.type?, a.type with
  | some type, .association target _ =>
    return some ⟨⟨f.column, type⟩, a.name, some (← c.idAttribute target).name⟩
  | some type, _ => return some ⟨⟨f.column, type⟩, a.name, none⟩
  | none, .association target (.toOne joinColumn) =>
    let type ← c.idType target
    return some ⟨⟨joinColumn, type⟩, a.name, some (← c.idAttribute target).name⟩
  | none, _ => return none

/-- Columns of distinct names, the first of each name. -/
def distinctColumns (columns : List StoredColumn) : List StoredColumn :=
  Keyed.addAll (·.column.name) [] columns

/-- The columns of the table of an entity. -/
def tableColumns (entity : String) : Except SearchFault (List StoredColumn) := do
  let columns ← (c.visible entity).mapM (c.storedColumn? entity)
  return distinctColumns (columns.filterMap id)

end Catalog

/-! ## Rows as JSON -/

namespace StoredColumn

/-- What a row given as JSON holds for a column, by the name of its attribute or by its own.  An
association may be given by an object with the identifier of its target. -/
def given? (s : StoredColumn) (row : List (String × Json)) : Option Json :=
  match Json.member? s.attributeName row <|> Json.member? s.column.name row, s.targetId with
  | some (.obj nested), some id => Json.member? id nested
  | given, _ => given

/-- The value of a column in a row given as JSON; null if it is not given. -/
def read (s : StoredColumn) (row : List (String × Json)) : Except RowFault Value :=
  match s.given? row with
  | none => pure .null
  | some json =>
    match Value.ofJson? s.column.type json with
    | some value => pure value
    | none => throw (.value json s.column.type s.attributeName)

/-- The column goes by a name: its own or that of its attribute. -/
def goesBy (s : StoredColumn) (name : String) : Bool :=
  s.attributeName = name || s.column.name = name

end StoredColumn

/-- The row that a JSON value gives for some columns. -/
def Row.ofJson (columns : List StoredColumn) : Json → Except RowFault Row
  | .obj members =>
    match members.find? fun (name, _) => !columns.any (·.goesBy name) with
    | some (name, _) => throw (.unknownAttribute name)
    | none => columns.mapM (·.read members)
  | _ => throw .notAnObject

end EntityQuery
