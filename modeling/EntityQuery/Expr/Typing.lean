import EntityQuery.Expr.Basic

/-!
# Types of predicates

There are two ways to the type of a bound expression.  `Expr.type?` reads it off the operators alone
and says nothing where an operand has no type.  `Expr.check` also looks at every operand, and
refuses operands that an operator does not take; an operand whose type is unknown, such as a null
literal, is let through.

## Main definitions

* `Expr.type?` : the type of the result, as far as operators tell
* `Expr.check` : the type of the result, or the first fault
* `Expr.checkPredicate` : the expression may be used as a predicate
-/

namespace EntityQuery.Expr

/-! ## The type that operators tell -/

/-- The type of the result, as far as operators tell. -/
def type? (schema : List ScalarType) : Expr → Option ScalarType
  | .literal value => value.type?
  | .column _ index => index.bind (schema[·]?)
  | .binary op left right => do op.resultType? (← left.type? schema) (← right.type? schema)
  | .unary op arg => do op.resultType? (← arg.type? schema)
  | .isIn _ _ | .between _ _ _ => some .boolean

/-! ## The checked type -/

/-- The checked type of a binary operation. -/
def checkBinary (op : BinaryOp) :
    Option ScalarType → Option ScalarType → Except ExprFault (Option ScalarType)
  | some left, some right =>
    match op.resultType? left right with
    | some t => pure (some t)
    | none => throw (.invalidOperands op.sign (some left) (some right))
  | _, _ => pure (if op.isComparison then some .boolean else none)

/-- The checked type of a unary operation; an operand of unknown type is taken for a boolean. -/
def checkUnary (op : UnaryOp) : Option ScalarType → Except ExprFault (Option ScalarType)
  | some operand =>
    match op.resultType? operand with
    | some t => pure (some t)
    | none => throw (.invalidOperands op.sign (some operand) none)
  | none => pure (op.resultType? .boolean)

/-- Values of two types can be compared, as far as they are known. -/
def checkComparable (sign : String) : Option ScalarType → Option ScalarType → Except ExprFault Unit
  | some left, some right =>
    if left.comparable right then pure ()
    else throw (.invalidOperands sign (some left) (some right))
  | _, _ => pure ()

mutual

/-- The type of the result if it is known, or the first fault. -/
def check (schema : List ScalarType) : Expr → Except ExprFault (Option ScalarType)
  | .literal value => pure value.type?
  | .column name none => throw (.unboundColumn name)
  | .column _ (some index) =>
    match schema[index]? with
    | some t => pure (some t)
    | none => throw (.outOfBounds index schema.length)
  | .binary op left right => do checkBinary op (← left.check schema) (← right.check schema)
  | .unary op arg => do checkUnary op (← arg.check schema)
  | .isIn arg items => do
    checkItems schema (← arg.check schema) items
    return some .boolean
  | .between arg low high => do
    let type ← arg.check schema
    checkComparable "BETWEEN" type (← low.check schema)
    checkComparable "BETWEEN" type (← high.check schema)
    return some .boolean

/-- Every item can be compared with a value of the type. -/
def checkItems (schema : List ScalarType) (type : Option ScalarType) :
    List Expr → Except ExprFault Unit
  | [] => pure ()
  | item :: rest => do
    checkComparable "IN" type (← item.check schema)
    checkItems schema type rest

end

/-- The expression may be used as a predicate: its type is boolean or unknown. -/
def checkPredicate (schema : List ScalarType) (e : Expr) : Except ExprFault Unit := do
  match ← e.check schema with
  | none | some .boolean => pure ()
  | some t => throw (.typeMismatch "filter predicate" .boolean t)

end EntityQuery.Expr
