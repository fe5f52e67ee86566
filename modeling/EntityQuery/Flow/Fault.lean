import EntityQuery.Expr.Fault
import EntityQuery.Flow.Aggregate

/-!
# Faults of flows

What can go wrong when a stage is put on a flow, and when rows are pulled from it.
-/

namespace EntityQuery

/-- A fault of a flow of rows. -/
inductive FlowFault where
  /-- A row was asked for before the flow was started. -/
  | notStarted
  | cancelled
  | expr (fault : ExprFault)
  | tally (fault : TallyFault)
  | columnNotFound (name : String)
  | keyTypes (left : String) (leftType : ScalarType) (right : String) (rightType : ScalarType)
  | nothingToAggregate
  | groupIndex (index : Nat)
  | aggregateIndex (index : Nat)
  | notNumeric (fn : AggregateFn) (column : String) (type : ScalarType)
  | wholeRows (fn : AggregateFn)
  | projectIndex (index width : Nat)
  | distinctIndex (index : Nat)
  | sortIndex (index width : Nat)

namespace FlowFault

/-- The wording of a fault. -/
def message : FlowFault → String
  | .notStarted => "Executor not initialized. Call init() first."
  | .cancelled => "Search cancelled"
  | .expr fault => "Expression error: " ++ fault.message
  | .tally .overflow => "Integer overflow while summing"
  | .tally (.notNumeric fn value) => s!"Cannot {fn.name} non-numeric value {value.display}"
  | .columnNotFound name => s!"Column '{name}' not found in input schema"
  | .keyTypes left leftType right rightType =>
    s!"Join key type mismatch: {left} is {leftType.name} but {right} is {rightType.name}"
  | .nothingToAggregate => "At least one aggregate function or grouping column must be specified"
  | .groupIndex index => s!"GROUP BY column index {index} is out of bounds"
  | .aggregateIndex index => s!"Aggregate column index {index} is out of bounds"
  | .notNumeric fn column type => s!"{fn.name} requires a numeric column, '{column}' is {type.name}"
  | .wholeRows fn => s!"{fn.name}(*) is not supported"
  | .projectIndex index width =>
    s!"Column index {index} is out of bounds for schema with {width} columns"
  | .distinctIndex index => s!"Distinct column index {index} is out of bounds"
  | .sortIndex index width =>
    s!"Sort column index {index} is out of range (schema has {width} columns)"

end FlowFault

end EntityQuery
