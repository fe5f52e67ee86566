import EntityQuery.Catalog.Basic
import EntityQuery.Fault
import EntityQuery.Keyed

/-!
# Attributes of an entity

What an entity declares itself comes before what it inherits: attributes, columns and types of
parameters are looked up along the lineage.

## Main definitions

* `Catalog.attribute?` : the attribute of a name
* `Catalog.visible` : all attributes, inherited ones in front
* `Catalog.columnName`, `Catalog.parameterType`, `Catalog.idType`
-/

namespace EntityQuery.Catalog

variable (c : Catalog)

/-! ## Look-up by name -/

/-- The attribute of a name, most derived declaration first. -/
def attribute? (entity name : String) : Option Attribute :=
  (c.lineage entity).findSome? (·.declared? name)

/-- The column that overrides the one of an attribute. -/
def override? (entity name : String) : Option String :=
  (c.lineage entity).findSome? (·.overrides.lookup name)

/-- The column of an attribute: an overriding one, or one of the same name. -/
def columnName (entity name : String) : String := (c.override? entity name).getD name

/-- The type of a parameter: bound along the lineage, or the fallback of the catalog. -/
def parameterType (entity parameter : String) : Except SearchFault ScalarType :=
  match (c.lineage entity).findSome? (·.typeArguments.lookup parameter) <|> c.fallback with
  | some type => pure type
  | none => throw (.catalog (.unboundParameter parameter entity))

/-! ## Identifiers -/

/-- The entity of a name that must be there. -/
def entity (name : String) : Except SearchFault Entity :=
  match c.entity? name with
  | some e => pure e
  | none => throw (.catalog (.unknownEntity name))

/-- The attribute that identifies an entity. -/
def idAttribute (name : String) : Except SearchFault Attribute := do
  let e ← c.entity name
  match c.attribute? name e.idAttribute with
  | some a => pure a
  | none => throw (.catalog (.idNotDeclared e.idAttribute name))

/-- The type of the identifier of an entity. -/
def idType (name : String) : Except SearchFault ScalarType := do
  match (← c.idAttribute name).type with
  | .scalar type => pure type
  | .parameter parameter => c.parameterType name parameter
  | .association _ _ => throw (.catalog (.associationAsId name))

/-! ## All attributes -/

/-- All attributes of an entity: from the root of its lineage downward, a redeclared one at its
first place. -/
def visible (entity : String) : List Attribute :=
  Keyed.ofList Attribute.name ((c.lineage entity).reverse.flatMap Entity.attributes)

end EntityQuery.Catalog
