import EntityQuery.Value.Literal

/-!
# Faults of predicates

What can go wrong when a predicate is bound to a layout, checked or evaluated.
-/

namespace EntityQuery

/-- A fault of a predicate. -/
inductive ExprFault where
  | typeMismatch (context : String) (expected actual : ScalarType)
  /-- The right type is missing for unary operators and for operands without a type. -/
  | invalidOperands (sign : String) (left right : Option ScalarType)
  | unknownColumn (name : String)
  | unboundColumn (name : String)
  | outOfBounds (index width : Nat)
  | notBoolean (value : Value)

namespace ExprFault

/-- The spelling of a type that may be missing. -/
def typeLabel : Option ScalarType → String
  | some t => "Some(" ++ t.label ++ ")"
  | none => "None"

/-- The wording of a fault. -/
def message : ExprFault → String
  | .typeMismatch context expected actual =>
      s!"{context} expects {expected.name}, found {actual.name}"
  | .invalidOperands sign left right =>
    s!"operator {sign} cannot apply to {typeLabel left} and {typeLabel right}"
  | .unknownColumn name => s!"no column named {name} in the input"
  | .unboundColumn name => s!"column {name} was used before binding"
  | .outOfBounds index width => s!"column position {index} is outside a row of width {width}"
  | .notBoolean value => s!"predicate produced non-boolean value {value.display}"

end ExprFault

end EntityQuery
