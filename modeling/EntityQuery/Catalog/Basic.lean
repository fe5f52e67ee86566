import EntityQuery.Text.Casing
import EntityQuery.Value.ScalarType

/-!
# Entities and their attributes

A catalog describes entities: the table that holds their rows, their attributes, and how they are
derived from each other.  An attribute is a scalar of a fixed type, a scalar whose type is a
parameter that derived entities bind, or an association with another entity.  A derived entity may
override the column in which an attribute is stored; an overridden association is stored, and seen,
as the identifier of its target.

## Main definitions

* `Attribute`, `Entity`, `Catalog`
* `Catalog.lineage` : an entity and those that it is derived from, the most derived one first
-/

namespace EntityQuery

/-! ## Attributes -/

/-- How many targets an association has, and how it is stored. -/
inductive Cardinality where
  /-- One target, whose identifier is stored in a column. -/
  | toOne (joinColumn : String)
  /-- Many targets, each of which refers back by an attribute. -/
  | toMany (mappedBy : String)
  deriving DecidableEq, Repr

/-- What an attribute holds. -/
inductive AttributeType where
  | scalar (type : ScalarType)
  | parameter (name : String)
  | association (target : String) (cardinality : Cardinality)
  deriving DecidableEq, Repr

/-- An attribute. -/
structure Attribute where
  name : String
  type : AttributeType
  deriving DecidableEq, Repr

/-! ## Entities -/

/-- An entity. -/
structure Entity where
  name : String
  table : Option String
  rootPaths : List String
  parent : Option String
  idAttribute : String
  attributes : List Attribute
  /-- Columns in place of those that attributes have by default. -/
  overrides : List (String × String)
  /-- Types for the parameters of attributes. -/
  typeArguments : List (String × ScalarType)
  deriving DecidableEq, Repr

namespace Entity

/-- The table of an entity; by default it has the name of the entity. -/
def tableName (e : Entity) : String := e.table.getD e.name

/-- The name under which results are nested: the first root path, by default the name of the entity
in lower case from its first letter. -/
def rootPath (e : Entity) : String := e.rootPaths.head?.getD (Text.lowerFirst e.name)

/-- The first declaration of an attribute. -/
def declared? (e : Entity) (name : String) : Option Attribute := e.attributes.find? (·.name = name)

/-- The entity declares an attribute of the type parameter. -/
def declaresParameter (e : Entity) (parameter : String) : Bool :=
  e.attributes.any (·.type = .parameter parameter)

end Entity

/-! ## Catalogs -/

/-- Entities, and the type of parameters that no entity binds. -/
structure Catalog where
  entities : List Entity
  fallback : Option ScalarType
  deriving DecidableEq, Repr

namespace Catalog

/-- The entity of a name. -/
def entity? (c : Catalog) (name : String) : Option Entity := c.entities.find? (·.name = name)

/-- An entity that may be addressed by a root path. -/
def entityForRootPath? (c : Catalog) (path : String) : Option Entity :=
  c.entities.find? (·.rootPaths.contains path)

/-- An entity and at most so many of those that it is derived from. -/
def ancestry (c : Catalog) : Nat → String → List Entity
  | 0, _ => []
  | steps + 1, name =>
    match c.entity? name with
    | none => []
    | some e =>
      match e.parent with
      | none => [e]
      | some parent => e :: c.ancestry steps parent

/-- An entity and those that it is derived from, the most derived one first.  No chain without
repetition is longer than the catalog. -/
def lineage (c : Catalog) (name : String) : List Entity := c.ancestry c.entities.length name

end Catalog

end EntityQuery
