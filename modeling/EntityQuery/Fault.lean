import EntityQuery.Filter.Operator
import EntityQuery.Flow.Fault
import EntityQuery.Json.Printer

/-!
# Faults of a search

Everything that can go wrong from the reading of a catalog to the answer of a search, by cause.  The
wording of each cause is in one place, its `message`.
-/

namespace EntityQuery

/-! ## Catalogs -/

/-- Why a catalog is refused. -/
inductive CatalogFault where
  | unknownEntity (name : String)
  | declaredTwice (name : String)
  | inheritanceCycle (through : String)
  | unknownParent (entity parent : String)
  | unboundParameter (parameter entity : String)
  | associationAsId (entity : String)
  | idNotDeclared (field entity : String)
  | unknownTarget (entity field target : String)
  | notMappedBack (owner field target mappedBy : String)
  deriving DecidableEq, Repr

/-- The wording of a fault. -/
def CatalogFault.message : CatalogFault → String
  | .unknownEntity name => s!"unknown entity '{name}'"
  | .declaredTwice name => s!"entity '{name}' declared twice"
  | .inheritanceCycle through => s!"inheritance cycle through '{through}'"
  | .unknownParent entity parent => s!"entity '{entity}' extends unknown entity '{parent}'"
  | .unboundParameter parameter entity =>
    s!"type parameter '{parameter}' is unbound for entity '{entity}'"
  | .associationAsId entity => s!"identifier of '{entity}' cannot be an association"
  | .idNotDeclared field entity => s!"identifier attribute '{field}' not declared for '{entity}'"
  | .unknownTarget entity field target =>
    s!"association '{entity}.{field}' targets unknown entity '{target}'"
  | .notMappedBack owner field target mappedBy =>
    s!"'{owner}.{field}' is mapped by '{target}.{mappedBy}', which is not a to-one association back to '{owner}'"

/-! ## Filters -/

/-- Why a filter or a parameter does not have the right shape. -/
inductive ShapeFault where
  | notAnObject
  | emptyFilter
  | operatorWithoutField (op : FilterOperator)
  | groupsNotArray (op : FilterOperator)
  | groupNotObject (op : FilterOperator)
  | noGroups (op : FilterOperator)
  | rootNotObject
  | associationNotObject
  | emptyOperators
  | unknownOperator (name : String)
  | bareArray
  | valuesNotArray (op : FilterOperator)
  | tooFewBounds
  | notSingle (op : FilterOperator)
  | valueCount (count : Nat)
  | notIdentifying

/-- The wording of a fault. -/
def ShapeFault.message : ShapeFault → String
  | .notAnObject => "filter must be a JSON object"
  | .emptyFilter => "empty filter object"
  | .operatorWithoutField op => s!"operator '{op.name}' must be applied to a field"
  | .groupsNotArray op => s!"'{op.name}' expects an array of filter objects"
  | .groupNotObject op => s!"'{op.name}' items must be objects"
  | .noGroups op => s!"'{op.name}' has no operands"
  | .rootNotObject => "root path expects a nested filter object"
  | .associationNotObject => "association expects a nested filter object"
  | .emptyOperators => "empty operator object"
  | .unknownOperator name => s!"unrecognised operator '{name}'"
  | .bareArray => "a bare array needs an operator such as 'in'"
  | .valuesNotArray op => s!"'{op.name}' expects an array"
  | .tooFewBounds => "'between' expects at least two values"
  | .notSingle op => s!"'{op.name}' expects a single value"
  | .valueCount count => s!"expected exactly one value, got {count}"
  | .notIdentifying => "a unique search needs one group of equality constraints"

/-- Why a field does not have the type that is asked for. -/
inductive TypeFault where
  | literal (json : Json) (type : ScalarType)
  | logicalOnField (op : FilterOperator)
  | notApplicable (op : FilterOperator) (type : ScalarType)
  | parameterOnAssociation
  | groupByAssociation
  | aggregateOfAssociation
  | aggregateNotNumeric (fn : AggregateFn)

/-- The wording of a fault. -/
def TypeFault.message : TypeFault → String
  | .literal json type => s!"literal {json.text} is not a valid {type.name}"
  | .logicalOnField op => s!"logical operator '{op.name}' cannot be applied to a field"
  | .notApplicable op type => s!"operator '{op.name}' does not apply to {type.name}"
  | .parameterOnAssociation => "parameter filters need a scalar field"
  | .groupByAssociation => "cannot group by an association"
  | .aggregateOfAssociation => "cannot aggregate an association"
  | .aggregateNotNumeric fn => s!"{fn.name} needs a numeric field"

/-- Why a filter tree cannot be compiled. -/
inductive NodeFault where
  | wrongArity (op : FilterOperator) (position : String)
  | listNeeded (path : String) (value : Value)
  | boundsNeeded (path : String) (value : Value)
  | fieldAlone (path : String)
  | literalAlone (value : Value)

/-- The wording of a fault. -/
def NodeFault.message : NodeFault → String
  | .wrongArity op position =>
      s!"operator '{op.name}' ({op.arity.label}) cannot appear in a {position} node"
  | .listNeeded path value => s!"'in' on '{path}' needs a list literal, got {value.display}"
  | .boundsNeeded path value => s!"'between' on '{path}' needs two bounds, got {value.display}"
  | .fieldAlone path => s!"field '{path}' in predicate position"
  | .literalAlone value => s!"literal {value.display} in predicate position"

/-! ## Pages -/

/-- Why a page cannot be given. -/
inductive PageFault where
  | size (asked max : Nat)
  | number (asked : Nat)
  deriving DecidableEq, Repr

/-- The wording of a fault. -/
def PageFault.message : PageFault → String
  | .size asked max => s!"page size {asked} is outside 1..={max}"
  | .number asked => s!"page {asked} is out of range"

/-! ## Stores -/

/-- Why a row is not stored. -/
inductive RowFault where
  | notAnObject
  | unknownAttribute (name : String)
  | value (json : Json) (type : ScalarType) (field : String)
  | dataNotObject
  | rowsNotArray

/-- The wording of a fault. -/
def RowFault.message : RowFault → String
  | .notAnObject => "row must be a JSON object"
  | .unknownAttribute name => s!"unknown attribute '{name}'"
  | .value json type field => s!"value {json.text} is not a valid {type.name} for '{field}'"
  | .dataNotObject => "data set must be an object keyed by entity name"
  | .rowsNotArray => "rows must be an array"

/-- A fault of a store. -/
inductive StoreFault where
  | unknownTable (name : String)
  | invalidRow (table : String) (fault : RowFault)
  | flow (fault : FlowFault)

/-- The wording of a fault. -/
def StoreFault.message : StoreFault → String
  | .unknownTable name => s!"Unknown table: {name}"
  | .invalidRow table fault => s!"Invalid row for '{table}': {fault.message}"
  | .flow fault => fault.message

/-! ## Searches -/

/-- A fault of a search. -/
inductive SearchFault where
  | unresolvable (entity path : String)
  | typeMismatch (path : String) (fault : TypeFault)
  | malformed (path : String) (fault : ShapeFault)
  | aggregateConflict (path : String)
  | unknownOperator (name : String)
  | duplicateAlias (name : String)
  | notUnique (found : Nat)
  | invalidPage (fault : PageFault)
  | invalidNode (fault : NodeFault)
  | catalog (fault : CatalogFault)
  | store (fault : StoreFault)

/-- The wording of a fault. -/
def SearchFault.message : SearchFault → String
  | .unresolvable entity path => s!"Cannot resolve field path '{path}' from entity '{entity}'"
  | .typeMismatch path fault => s!"Type mismatch on '{path}': {fault.message}"
  | .malformed path fault => s!"Malformed filter at '{path}': {fault.message}"
  | .aggregateConflict path => s!"Field '{path}' appears both in groupBy and in an aggregate list"
  | .unknownOperator name => s!"Unknown operator: {name}"
  | .duplicateAlias name => s!"Duplicate selection alias: {name}"
  | .notUnique found => s!"Expected at most one result, found {found}"
  | .invalidPage fault => s!"Invalid page: {fault.message}"
  | .invalidNode fault => s!"Invalid filter node: {fault.message}"
  | .catalog fault => s!"Invalid catalog: {fault.message}"
  | .store fault => fault.message

end EntityQuery
