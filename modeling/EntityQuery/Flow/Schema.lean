import EntityQuery.Value.ScalarType

/-!
# Schemas of rows

A schema names the columns of a row and gives their types, by position.
-/

namespace EntityQuery

/-- A column. -/
structure Column where
  name : String
  type : ScalarType
  deriving DecidableEq, Repr

/-- The columns of a row, by position. -/
abbrev Schema := List Column

namespace Schema

/-- The names of the columns. -/
def names (schema : Schema) : List String := schema.map Column.name

/-- The types of the columns. -/
def types (schema : Schema) : List ScalarType := schema.map Column.type

/-- The first position of a name. -/
def position? (schema : Schema) (name : String) : Option Nat := schema.names.idxOf? name

/-- The columns under names that begin with the path of a join. -/
def under (path : String) (schema : Schema) : Schema :=
  schema.map fun column => { column with name := path ++ "." ++ column.name }

end Schema

end EntityQuery
