import EntityQuery.Catalog.Lookup

/-!
# Accepted catalogs

A catalog is accepted when its names are distinct, every lineage ends at an entity without parent,
every entity has an identifier with a type, and every attribute that can be seen is sound: its type
parameter is bound, its association has a target, and the attribute that a to-many association is
mapped by leads back to one entity, this one.

## Main definitions

* `Catalog.of` : the catalog of some entities
-/

namespace EntityQuery.Catalog

variable (c : Catalog)

/-! ## Lineages -/

/-- Following parents from an entity leads to one without a parent, through entities of the catalog
and never to one of those seen before. -/
def checkParents (c : Catalog) : Nat → List String → Entity → Except SearchFault Unit
  | steps, seen, e =>
    match e.parent with
    | none => pure ()
    | some parent =>
      if seen.contains parent then throw (.catalog (.inheritanceCycle parent))
      else match c.entity? parent with
        | none => throw (.catalog (.unknownParent e.name parent))
        | some next =>
          match steps with
          | 0 => throw (.catalog (.inheritanceCycle parent))
          | steps + 1 => checkParents c steps (parent :: seen) next

/-- The lineage of an entity ends. -/
def checkLineage (e : Entity) : Except SearchFault Unit :=
  c.checkParents c.entities.length [e.name] e

/-! ## Attributes -/

/-- The attribute that a to-many association is mapped by is a to-one association back to the
owner. -/
def leadsBack (owner target mappedBy : String) : Bool :=
  match (c.attribute? target mappedBy).map Attribute.type with
  | some (.association back (.toOne _)) => back = owner
  | _ => false

/-- An attribute of an entity is sound. -/
def checkAttribute (owner : String) (a : Attribute) : Except SearchFault Unit :=
  match a.type with
  | .scalar _ => pure ()
  | .parameter parameter => do let _ ← c.parameterType owner parameter
  | .association target cardinality =>
    if (c.entity? target).isNone then throw (.catalog (.unknownTarget owner a.name target))
    else match cardinality with
      | .toOne _ => pure ()
      | .toMany mappedBy =>
        if c.leadsBack owner target mappedBy then pure ()
        else throw (.catalog (.notMappedBack owner a.name target mappedBy))

/-- The identifier and the attributes of an entity are sound. -/
def checkEntity (e : Entity) : Except SearchFault Unit := do
  let _ ← c.idType e.name
  (c.visible e.name).forM (c.checkAttribute e.name)

/-! ## Catalogs -/

/-- The catalog is sound: all lineages are checked before all attributes. -/
def check : Except SearchFault Unit := do
  c.entities.forM c.checkLineage
  c.entities.forM c.checkEntity

/-- The catalog of some entities, if it is accepted. -/
def of (entities : List Entity) (fallback : Option ScalarType) : Except SearchFault Catalog :=
  match Keyed.repeated? (entities.map Entity.name) with
  | some name => throw (.catalog (.declaredTwice name))
  | none => do
    let c : Catalog := ⟨entities, fallback⟩
    c.check
    return c

end EntityQuery.Catalog
