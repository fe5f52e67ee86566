import EntityQuery.Filter.Parameter
import EntityQuery.Flow.Order
import EntityQuery.Json.Shape
import EntityQuery.Search.Aggregates

/-!
# Search requests

A request as sent holds filters, fields, a page, aggregates and parameters, all of them optional and
none of them checked.  Read against a root entity it becomes a `Request`: filters are trees, paths
are in plain spelling, and the names of page data are told apart from fields.

## Main definitions

* `WireRequest.ofWritten?` : the request that a JSON value holds
* `WireRequest.read` : the request as it is understood for a root entity
-/

namespace EntityQuery

open Json.Shape

/-! ## Requests as sent -/

/-- A field as requested. -/
structure Selection where
  path : String
  /-- The label of the field; by default its path. -/
  label : Option String
  /-- The place of the field in the order of the rows; without it the field does not order them. -/
  priority : Option Int
  direction : Direction
  deriving DecidableEq, Repr

/-- The number of a page, from zero, and its size. -/
structure PageRequest where
  number : Nat
  size : Option Nat
  deriving DecidableEq, Repr

/-- A parameter as sent. -/
structure WireParameter where
  op : String
  values : List Json

/-- A request as sent. -/
structure WireRequest where
  filters : List Json
  fields : List Selection
  page : Option PageRequest
  aggregates : Option Aggregates
  parameters : List (String × WireParameter)

namespace Selection

/-- The direction of a name, whose letters are all small or all capital. -/
def directionOf? (name : String) : Option Direction :=
  if name = "asc" ∨ name = "ASC" then some .asc
  else if name = "desc" ∨ name = "DESC" then some .desc
  else none

/-- A direction by its name. -/
def direction? (value : Json.Written) : Option Direction := (choice? value).bind directionOf?

/-- A field: a path, or an object with a path. -/
def ofWritten? : Json.Written → Option Selection
  | .str path => some ⟨path, none, none, .asc⟩
  | .obj members => do
    match ← memberFields? ["path", "alias", "priority", "direction"] members with
    | [path, label, priority, direction] =>
      return ⟨← required text? path, ← nullable text? label, ← nullable int32? priority,
        (← nullable direction? direction).getD .asc⟩
    | _ => none
  | _ => none

end Selection

/-- A page. -/
def PageRequest.ofWritten? (value : Json.Written) : Option PageRequest := do
  match ← fields? ["number", "size"] value with
  | [number, size] => return ⟨← withDefault 0 size? number, ← nullable size? size⟩
  | _ => none

/-- Aggregates. -/
def Aggregates.ofWritten? (value : Json.Written) : Option Aggregates := do
  let paths := withDefault [] (list? text?)
  match ← fields? ["count", "sum", "avg", "min", "max", "groupBy"] value with
  | [count, sum, avg, min, max, groupBy] =>
    return ⟨← paths count, ← paths sum, ← paths avg, ← paths min, ← paths max,
      ← nullable (list? text?) groupBy⟩
  | _ => none

/-- A parameter. -/
def WireParameter.ofWritten? (value : Json.Written) : Option WireParameter := do
  match ← fields? ["operator", "values"] value with
  | [op, values] => return ⟨← required text? op, ← withDefault [] (list? any?) values⟩
  | _ => none

namespace WireRequest

/-- The request that asks for nothing in particular. -/
def empty : WireRequest := ⟨[], [], none, none, []⟩

/-- Filter groups: an array of them, or one alone. -/
def groups : Json → List Json
  | .arr items => items
  | .null => []
  | json => [json]

/-- The request that a JSON value holds. -/
def ofWritten? (value : Json.Written) : Option WireRequest := do
  match ← fields? ["filters", "fields", "page", "aggregates", "parameters"] value with
  | [filters, fields, page, aggregates, parameters] =>
    return {
      filters := ← withDefault [] (fun value => (any? value).map groups) filters
      fields := ← withDefault [] (list? Selection.ofWritten?) fields
      page := ← nullable PageRequest.ofWritten? page
      aggregates := ← nullable Aggregates.ofWritten? aggregates
      parameters := ← withDefault [] (map? WireParameter.ofWritten?) parameters }
  | _ => none

end WireRequest

/-! ## Requests as understood -/

/-- A request as it is understood for a root entity. -/
structure Request where
  /-- One of the filters has to hold; without filters every row is meant. -/
  groups : List FilterTree
  /-- The parameters, which have to hold besides. -/
  parameters : Option FilterTree
  selections : List Selection
  page : Option PageRequest
  aggregates : Option Aggregates
  /-- Data about the page is asked for. -/
  pageData : Bool

namespace Request

/-- The request for all entities. -/
def all : Request := ⟨[], none, [], none, none, false⟩

end Request

namespace WireRequest

variable (c : Catalog) (root marker : String)

/-- The filter groups; if one of them is empty, every row is meant. -/
def readGroups (filters : List Json) : Except SearchFault (List FilterTree) := do
  let groups ← filters.mapM (FilterReader.read c root)
  return if groups.any Option.isNone then [] else groups.filterMap id

/-- The parameters in the order of their paths as sent. -/
def sortedParameters (parameters : List (String × WireParameter)) : List (String × WireParameter) :=
  parameters.mergeSort fun a b => a.1 ≤ b.1

/-- A parameter in plain spelling. -/
def readParameter (path : String) (p : WireParameter) : Except SearchFault Parameter :=
  match ParameterOperator.ofName? p.op with
  | some op => pure ⟨Spelling.plain marker path, op, p.values⟩
  | none => throw (.unknownOperator p.op)

/-- The filter that all parameters hold. -/
def readParameters (parameters : List (String × WireParameter)) :
    Except SearchFault (Option FilterTree) := do
  let parameters ← (sortedParameters parameters).mapM fun (path, p) => readParameter marker path p
  Parameter.readAll c root parameters

/-- The request as it is understood. -/
def read (wire : WireRequest) : Except SearchFault Request := do
  let groups ← readGroups c root wire.filters
  let parameters ← readParameters c root marker wire.parameters
  let named := wire.fields.map fun s => { s with path := Spelling.plain marker s.path }
  let selections := named.filter fun s => !Spelling.isPageField s.path
  let aggregates ← match wire.aggregates with
    | some a => a.normalize marker (selections.map Selection.path)
    | none => pure none
  return ⟨groups, parameters, selections, wire.page, aggregates,
    named.any fun s => Spelling.isPageField s.path⟩

end WireRequest

end EntityQuery
