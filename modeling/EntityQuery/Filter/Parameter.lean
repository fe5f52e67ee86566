import EntityQuery.Filter.Reader

/-!
# Parameter filters

A parameter is a flat condition: a path, an operator and some values.  It is turned into a filter,
so that it is read and checked like any other.

## Main definitions

* `Parameter.toFilter` : the filter of a parameter, as JSON
* `Parameter.readAll` : the filter that all parameters hold
-/

namespace EntityQuery

/-- A flat condition on a field. -/
structure Parameter where
  path : String
  op : ParameterOperator
  values : List Json

namespace Parameter

variable (c : Catalog) (root : String)

/-- A filter on the field at the end of some names. -/
def nest (names : List String) (leaf : Json) : Json :=
  names.foldr (fun name inner => .obj [(name, inner)]) leaf

/-- The one value of a parameter. -/
def single (p : Parameter) : Except SearchFault Json :=
  match p.values with
  | [value] => pure value
  | values => throw (.malformed p.path (.valueCount values.length))

/-- The test of a field of a type, as an object from operators to literals. -/
def leaf (p : Parameter) (type : ScalarType) : Except SearchFault Json :=
  match p.op with
  | .equals | .notEquals => do
    let op : FilterOperator := if type.family = .textual then .equals else .eq
    return .obj [(op.name, ← p.single)]
  | .isIn | .notIn => pure (.obj [(FilterOperator.isIn.name, .arr p.values)])

/-- The filter of a parameter, as JSON. -/
def toFilter (p : Parameter) : Except SearchFault Json :=
  match Path.read? p.path with
  | none => throw (.unresolvable root p.path)
  | some path => do
    match (← c.field root path).type? with
    | none => throw (.typeMismatch p.path .parameterOnAssociation)
    | some type =>
      let filter := nest path.names (← p.leaf type)
      return if p.op.isNegated then .obj [(FilterOperator.not.name, .arr [filter])] else filter

/-- The filter that all parameters hold; none if there are none. -/
def readAll (parameters : List Parameter) : Except SearchFault (Option FilterTree) :=
  if parameters.isEmpty then pure none
  else do
    let filters ← parameters.mapM (toFilter c root)
    FilterReader.read c root (.obj [(FilterOperator.and.name, .arr filters)])

end Parameter

end EntityQuery
