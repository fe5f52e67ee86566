import EntityQuery.Catalog.Lookup
import EntityQuery.Path

/-!
# Fields that paths lead to

A path is followed from an entity: every name but the last must be an association whose column is
not overridden, and adds a join; the last one is the field.

## Main definitions

* `Catalog.field` : the field that a path leads to, with the joins on the way
* `Catalog.scalarFields` : the scalar fields of an entity, or of the target of a path
-/

namespace EntityQuery

/-! ## Fields -/

/-- A step from an entity to the target of one of its associations. -/
structure JoinStep where
  /-- The names from the root to the association. -/
  path : String
  source : String
  association : String
  target : String
  cardinality : Cardinality
  deriving DecidableEq, Repr

/-- What a field holds. -/
inductive FieldKind where
  | scalar (type : ScalarType)
  | association (target : String) (cardinality : Cardinality)
  deriving DecidableEq, Repr

/-- The field that a path leads to. -/
structure Field where
  path : Path
  /-- The entity at the end of the joins, of which the field is an attribute. -/
  owner : String
  column : String
  kind : FieldKind
  /-- The column is an overriding one. -/
  overridden : Bool
  joins : List JoinStep
  deriving DecidableEq, Repr

namespace Field

/-- The name of the attribute. -/
def name (f : Field) : String := f.path.field

/-- The type of a scalar field. -/
def type? (f : Field) : Option ScalarType :=
  match f.kind with
  | .scalar type => some type
  | .association _ _ => none

/-- The field is an association. -/
def isComplex (f : Field) : Bool := f.type?.isNone

/-- The path of the last join. -/
def sourcePath? (f : Field) : Option String := f.joins.getLast?.map JoinStep.path

end Field

/-- A column of a table that is reached by joins, by the path of the last of them. -/
def qualified (source : Option String) (column : String) : String :=
  match source with
  | some path => path ++ "." ++ column
  | none => column

/-- The column of a field, qualified by the path of the last join. -/
def Field.columnPath (f : Field) : String := qualified f.sourcePath? f.column

namespace Catalog

variable (c : Catalog)

/-! ## Following a path -/

/-- The joins along some names, and the entity at their end; `before` holds the names that led to
the entity. -/
def follow (c : Catalog) (entity : String) (before : List String) :
    List String → Option (List JoinStep × String)
  | [] => some ([], entity)
  | name :: rest =>
    match (c.attribute? entity name).map Attribute.type, c.override? entity name with
    | some (.association target cardinality), none =>
      let here := before ++ [name]
      (follow c target here rest).map fun (steps, last) =>
        (⟨Path.dotted here, entity, name, target, cardinality⟩ :: steps, last)
    | _, _ => none

/-- What an attribute of an entity holds; an overridden association holds the identifier of its
target. -/
def kindOf (entity : String) (a : Attribute) (overridden : Bool) : Except SearchFault FieldKind :=
  match a.type with
  | .scalar type => pure (.scalar type)
  | .parameter parameter => do return .scalar (← c.parameterType entity parameter)
  | .association target cardinality =>
    if overridden then do return .scalar (← c.idType target)
    else pure (.association target cardinality)

/-- The field that a path leads to from an entity. -/
def field (root : String) (path : Path) : Except SearchFault Field :=
  match c.follow root [] path.steps with
  | none => throw (.unresolvable root path.text)
  | some (joins, owner) =>
    match c.attribute? owner path.field with
    | none => throw (.unresolvable root path.text)
    | some a => do
      let column := c.override? owner path.field
      let kind ← c.kindOf owner a column.isSome
      return ⟨path, owner, column.getD path.field, kind, column.isSome, joins⟩

/-- The field that a written path leads to. -/
def fieldOf (root text : String) : Except SearchFault Field :=
  match Path.read? text with
  | some path => c.field root path
  | none => throw (.unresolvable root text)

/-! ## Scalar fields -/

/-- The entity that a path leads to. -/
def targetOf (root : String) : Option Path → Except SearchFault String
  | none => pure root
  | some path => do
    match (← c.field root path).kind with
    | .association target _ => pure target
    | .scalar _ => throw (.unresolvable root path.text)

/-- The scalar fields of an entity, or of the target of a path. -/
def scalarFields (root : String) (path : Option Path) : Except SearchFault (List Field) := do
  let target ← c.targetOf root path
  let fields ← (c.visible target).mapM fun a => c.field root (Path.below path a.name)
  return fields.filter (!·.isComplex)

end Catalog

end EntityQuery
