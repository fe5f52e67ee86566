import EntityQuery.Expr.Basic
import EntityQuery.Text.Casing

/-!
# Evaluation of predicates

Truth has three values: a comparison with null is null, and the combination of truth values is null
where null would decide it.  A predicate holds of a row when its value is true; null counts as
false.

## Main definitions

* `Expr.eval` : the value of an expression on a row
* `Expr.holds` : the truth of a predicate on a row
-/

namespace EntityQuery

/-- The values of a row, by position. -/
abbrev Row := List Value

namespace Expr

/-- The fault of an operator on two values. -/
def invalidValues (sign : String) (left right : Value) : ExprFault :=
  .invalidOperands sign left.type? right.type?

/-- The order of two values, or the fault of the operator that asks for it. -/
def order (sign : String) (left right : Value) : Except ExprFault Ordering :=
  match left.compare? right with
  | some o => pure o
  | none => throw (invalidValues sign left right)

/-- The value of a binary operation of which an operand is null: the other operand may decide it. -/
def evalWithNull : BinaryOp → Value → Value → Value
  | .and, .boolean false, _ | .and, _, .boolean false => .boolean false
  | .or, .boolean true, _ | .or, _, .boolean true => .boolean true
  | _, _, _ => .null

/-- The value of a binary operation on operands that are not null. -/
def evalNonNull : BinaryOp → Value → Value → Except ExprFault Value
  | .compare c, left, right => do return .boolean (c.holds (← order c.sign left right))
  | .and, .boolean a, .boolean b => pure (.boolean (a && b))
  | .or, .boolean a, .boolean b => pure (.boolean (a || b))
  | .hasPart m, .text s, .text part => pure (.boolean (m.holds s part))
  | op, left, right => throw (invalidValues op.sign left right)

/-- The value of a binary operation. -/
def evalBinary (op : BinaryOp) (left right : Value) : Except ExprFault Value :=
  if left.isNull || right.isNull then pure (evalWithNull op left right)
  else evalNonNull op left right

/-- The value of a unary operation. -/
def evalUnary : UnaryOp → Value → Except ExprFault Value
  | .isNull, v => pure (.boolean v.isNull)
  | .isNotNull, v => pure (.boolean !v.isNull)
  | .isTrue, .null => pure (.boolean false)
  | .isTrue, .boolean b => pure (.boolean b)
  | .not, .null => pure .null
  | .not, .boolean b => pure (.boolean !b)
  | .lower, .null => pure .null
  | .lower, .text s => pure (.text (Text.lower s))
  | op, v => throw (.invalidOperands op.sign v.type? none)

/-- The value lies between two others; null when one of the three is null. -/
def evalBetween (value low high : Value) : Except ExprFault Value :=
  if value.isNull || low.isNull || high.isNull then pure .null
  else do
    let above := (← order "BETWEEN" value low) ≠ .lt
    let below := (← order "BETWEEN" value high) ≠ .gt
    return .boolean (above && below)

mutual

/-- The value of an expression on a row. -/
def eval (row : Row) : Expr → Except ExprFault Value
  | .literal value => pure value
  | .column name none => throw (.unboundColumn name)
  | .column _ (some index) =>
    match row[index]? with
    | some value => pure value
    | none => throw (.outOfBounds index row.length)
  | .binary op left right => do evalBinary op (← left.eval row) (← right.eval row)
  | .unary op arg => do evalUnary op (← arg.eval row)
  | .isIn arg items => do
    let value ← arg.eval row
    if value.isNull then return .null else evalIsIn row value items
  | .between arg low high => do evalBetween (← arg.eval row) (← low.eval row) (← high.eval row)

/-- A value is equal to one of some expressions, which are evaluated up to the first that is. -/
def evalIsIn (row : Row) (value : Value) : List Expr → Except ExprFault Value
  | [] => pure (.boolean false)
  | item :: rest => do
    if value.compare? (← item.eval row) = some .eq then return .boolean true
    else evalIsIn row value rest

end

/-- The truth that the value of a predicate stands for. -/
def truth : Value → Except ExprFault Bool
  | .boolean b => pure b
  | .null => pure false
  | v => throw (.notBoolean v)

/-- The truth of a predicate on a row. -/
def holds (e : Expr) (row : Row) : Except ExprFault Bool := do truth (← e.eval row)

end Expr

end EntityQuery
