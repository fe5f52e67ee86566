import EntityQuery.Catalog.Validate
import EntityQuery.Json.Reader
import EntityQuery.Json.Shape

/-!
# Catalogs as JSON

The written form of a catalog: its entities, and the type of parameters that are bound nowhere.

## Main definitions

* `CatalogDefinition.read?` : the definition that a JSON value holds
* `CatalogDefinition.build` : the catalog, if it is accepted
-/

namespace EntityQuery

open Json.Shape

/-- A catalog as written, before it is checked. -/
structure CatalogDefinition where
  fallback : Option ScalarType
  entities : List Entity

namespace CatalogDefinition

/-! ## Reading -/

/-- What an association holds, by the members of its attribute. -/
def association? (members : List (String × Json.Written)) : Option AttributeType := do
  let target ← required text? (← single? "target" members)
  match ← required (tag? ["to_one", "to_many"]) (← single? "cardinality" members) with
  | "to_one" =>
    return .association target (.toOne (← required text? (← single? "join_column" members)))
  | "to_many" =>
    return .association target (.toMany (← required text? (← single? "mapped_by" members)))
  | _ => none

/-- The type of a scalar attribute; its name may also be the key of an empty object. -/
def scalarType? : Json.Written → Option ScalarType
  | .obj [(name, .obj [])] => ScalarType.ofName? name
  | value => type? value

/-- What an attribute holds, by its members. -/
def attributeType? (members : List (String × Json.Written)) : Option AttributeType := do
  match ← required (tag? ["scalar", "type_parameter", "association"])
    (← single? "kind" members) with
  | "scalar" => return .scalar (← required scalarType? (← single? "type" members))
  | "type_parameter" => return .parameter (← required text? (← single? "parameter" members))
  | "association" => association? members
  | _ => none

/-- An attribute; it is always written as an object, and all its members have to have a meaning. -/
def attribute? (value : Json.Written) : Option Attribute := do
  let _ ← value.value?
  match value with
  | .obj members => return ⟨← required text? (← single? "name" members), ← attributeType? members⟩
  | _ => none

/-- An entity. -/
def entity? (value : Json.Written) : Option Entity := do
  match ← fields? ["name", "table", "root_paths", "parent", "id_attribute", "attributes",
      "overrides", "type_arguments"] value with
  | [name, table, rootPaths, parent, idAttribute, attributes, overrides, typeArguments] =>
    return {
      name := ← required text? name
      table := ← nullable text? table
      rootPaths := ← withDefault [] (list? text?) rootPaths
      parent := ← nullable text? parent
      idAttribute := ← withDefault "id" text? idAttribute
      attributes := ← withDefault [] (list? attribute?) attributes
      overrides := ← withDefault [] (map? text?) overrides
      typeArguments := ← withDefault [] (map? type?) typeArguments }
  | _ => none

/-- The definition that a JSON value holds. -/
def ofWritten? (value : Json.Written) : Option CatalogDefinition := do
  match ← fields? ["fallback_key_type", "entities"] value with
  | [fallback, entities] =>
    return ⟨← nullable type? fallback, ← required (list? entity?) entities⟩
  | _ => none

/-- The definition of a text. -/
def read? (text : String) : Option CatalogDefinition := do ofWritten? (← Json.written? text)

/-! ## Building -/

/-- The definition with a type of parameters that are bound nowhere, if it names none itself. -/
def withFallback (d : CatalogDefinition) (fallback : Option ScalarType) : CatalogDefinition :=
  { d with fallback := d.fallback <|> fallback }

/-- The catalog, if it is accepted. -/
def build (d : CatalogDefinition) : Except SearchFault Catalog := Catalog.of d.entities d.fallback

end CatalogDefinition

end EntityQuery
