import EntityQuery.Expr.Basic
import EntityQuery.Filter.Hooks
import EntityQuery.Filter.Tree

/-!
# Predicates of filters

A filter tree is compiled to a predicate over columns, together with the joins that lead to the
columns and the demand for distinct rows.  The parts of a tree are compiled one by one and put
together; no part can see another.

## Main definitions

* `Compiled` : a predicate with its joins
* `FilterTree.compile` : the predicate of a tree
* `FilterTree.compileGroups` : one of several filters holds
-/

namespace EntityQuery

/-- A predicate with the joins that it needs. -/
structure Compiled where
  predicate : Expr
  distinct : Bool
  joins : List JoinStep

namespace JoinStep

/-- Joins followed by those of another list whose paths are not there yet. -/
def merge (joins more : List JoinStep) : List JoinStep := Keyed.addAll JoinStep.path joins more

end JoinStep

namespace Compiled

/-- Two predicates as one. -/
def combine (op : BinaryOp) (left right : Compiled) : Compiled :=
  ⟨.binary op left.predicate right.predicate, left.distinct || right.distinct,
    JoinStep.merge left.joins right.joins⟩

/-- The predicate that is true where another is not true. -/
def negate (operand : Compiled) : Compiled :=
  { operand with predicate := .unary .not (.unary .isTrue operand.predicate) }

/-- The demand for distinct rows added. -/
def asDistinct (c : Compiled) : Compiled := { c with distinct := true }

end Compiled

namespace FilterTree

/-! ## Tests -/

/-- The column of a field after renaming; an overriding column is not renamed. -/
def renamed? (hooks : FieldHooks) (f : Field) : Option String :=
  if f.overridden then none else hooks.column? f.owner f.name

/-- The column that a test reads. -/
def testColumn (hooks : FieldHooks) (f : Field) : String :=
  qualified f.sourcePath? ((renamed? hooks f).getD f.column)

/-- The literal that a test compares with. -/
def testValue (hooks : FieldHooks) (f : Field) (value : Value) : Value :=
  if (renamed? hooks f).isSome then hooks.literal f.name value else value

/-- The lower-case form of an expression. -/
def lower (e : Expr) : Expr := .unary .lower e

/-- The expression of a test of a column against a literal. -/
def testExpr (path : String) (op : FilterOperator) (column : Expr) (value : Value) :
    Except NodeFault Expr :=
  let literal := Expr.literal value
  match op with
  | .equals | .eq =>
    pure (if value.isNull then .unary .isNull column else .compare .eq column literal)
  | .equalsIc => pure (.compare .eq (lower column) (lower literal))
  | .contains => pure (.binary (.hasPart .contains) column literal)
  | .containsIc => pure (.binary (.hasPart .contains) (lower column) (lower literal))
  | .starts => pure (.binary (.hasPart .starts) column literal)
  | .startsIc => pure (.binary (.hasPart .starts) (lower column) (lower literal))
  | .ends => pure (.binary (.hasPart .ends) column literal)
  | .endsIc => pure (.binary (.hasPart .ends) (lower column) (lower literal))
  | .gt => pure (.compare .gt column literal)
  | .gte => pure (.compare .ge column literal)
  | .lt => pure (.compare .lt column literal)
  | .lte => pure (.compare .le column literal)
  | .isIn =>
    match value with
    | .list items => pure (.isIn column (items.map .literal))
    | _ => throw (.listNeeded path value)
  | .between =>
    match value with
    | .list (low :: high :: _) => pure (.between column (.literal low) (.literal high))
    | _ => throw (.boundsNeeded path value)
  | .and | .or | .not | .distinct => throw (.wrongArity op "binary")

/-- The predicate of a test. -/
def compileTest (hooks : FieldHooks) (op : FilterOperator) (f : FieldRef) (value : Value) :
    Except SearchFault Compiled :=
  if op.arity ≠ .binary then throw (.invalidNode (.wrongArity op "binary"))
  else if !op.accepts f.type.family then throw (.typeMismatch f.pathText (.notApplicable op f.type))
  else do
    let column := Expr.named (testColumn hooks f.field)
    let predicate ← (testExpr f.pathText op column
      (testValue hooks f.field value)).mapError .invalidNode
    return ⟨predicate, false, JoinStep.merge [] f.field.joins⟩

/-! ## Trees -/

/-- The predicate of a tree. -/
def compile (hooks : FieldHooks) : FilterTree → Except SearchFault Compiled
  | .field f => throw (.invalidNode (.fieldAlone f.pathText))
  | .literal value => throw (.invalidNode (.literalAlone value))
  | .test op f value => compileTest hooks op f value
  | .unary .not operand => do return (← operand.compile hooks).negate
  | .unary op _ => throw (.invalidNode (.wrongArity op "unary"))
  | .compound .and left right => do
    return .combine .and (← left.compile hooks) (← right.compile hooks)
  | .compound .or left right => do
    return .combine .or (← left.compile hooks) (← right.compile hooks)
  | .compound .distinct left right => do
    return (Compiled.combine .and (← left.compile hooks) (← right.compile hooks)).asDistinct
  | .compound op _ _ => throw (.invalidNode (.wrongArity op "compound"))

/-- The predicate of a row for which one of several filters holds; without filters every row is
meant. -/
def compileGroups (hooks : FieldHooks) (groups : List FilterTree) :
    Except SearchFault Compiled := do
  match ← groups.mapM (compile hooks) with
  | [] => return ⟨.always, false, []⟩
  | first :: rest => return rest.foldl (.combine .or) first

end FilterTree

end EntityQuery
