import EntityQuery.Filter.Predicate

/-!
# Compiling in one walk

Instead of part by part, a tree can be compiled in one walk from left to right that carries along
what it has seen: the demand for distinct rows, the joins so far, and a stack of the fields that
have been renamed, from which the literal that comes next takes the field that is on top.

## Main definitions

* `Walk` : what is carried along
* `Walk.visit` : the predicate of a tree, in the middle of a walk
* `FilterTree.walked`, `FilterTree.walkedGroups` : walks over one tree and over several
-/

namespace EntityQuery

/-- What is carried along in a walk through filter trees. -/
structure Walk where
  /-- The names of the fields that have been renamed, the last one on top. -/
  renamed : List String
  distinct : Bool
  joins : List JoinStep

/-- A part of a walk. -/
abbrev Visit := StateT Walk (Except SearchFault)

namespace Walk

/-- Nothing has been seen. -/
def start : Walk := ⟨[], false, []⟩

/-- What has been compiled at the end of a walk. -/
def finish (predicate : Expr) (w : Walk) : Compiled := ⟨predicate, w.distinct, w.joins⟩

/-- The column of a field; a field that is renamed goes on the stack. -/
def column (hooks : FieldHooks) (f : Field) : Visit String :=
  if f.overridden then return qualified f.sourcePath? f.column
  else
    match hooks.column? f.owner f.name with
    | some other => do
      modify fun w => { w with renamed := f.name :: w.renamed }
      return qualified f.sourcePath? other
    | none => return qualified f.sourcePath? f.column

/-- The literal that comes next; the field on top of the stack, if there is one, replaces it. -/
def literal (hooks : FieldHooks) (value : Value) : Visit Value := do
  match (← get).renamed with
  | [] => return value
  | name :: rest =>
    modify fun w => { w with renamed := rest }
    return hooks.literal name value

/-- The joins of a field, where they have not been seen. -/
def record (joins : List JoinStep) : Visit Unit :=
  modify fun w => { w with joins := JoinStep.merge w.joins joins }

/-- The predicate of a test. -/
def test (hooks : FieldHooks) (op : FilterOperator) (f : FieldRef) (value : Value) : Visit Expr :=
  if op.arity ≠ .binary then throw (.invalidNode (.wrongArity op "binary"))
  else if !op.accepts f.type.family then throw (.typeMismatch f.pathText (.notApplicable op f.type))
  else do
    let column ← column hooks f.field
    let literal ← literal hooks value
    let predicate ← (FilterTree.testExpr f.pathText op (.named column) literal).mapError
      SearchFault.invalidNode
    record f.field.joins
    return predicate

/-- The predicate of a tree. -/
def visit (hooks : FieldHooks) : FilterTree → Visit Expr
  | .field f => throw (.invalidNode (.fieldAlone f.pathText))
  | .literal value => throw (.invalidNode (.literalAlone value))
  | .test op f value => test hooks op f value
  | .unary .not operand => do return .unary .not (.unary .isTrue (← visit hooks operand))
  | .unary op _ => throw (.invalidNode (.wrongArity op "unary"))
  | .compound op left right =>
    if op.arity ≠ .compound then throw (.invalidNode (.wrongArity op "compound"))
    else do
      let left ← visit hooks left
      let right ← visit hooks right
      match op with
      | .and => return .binary .and left right
      | .or => return .binary .or left right
      | .distinct =>
        modify fun w => { w with distinct := true }
        return .binary .and left right
      | _ => throw (.invalidNode (.wrongArity op "compound"))

/-- The predicates of several trees as alternatives, behind those that came before. -/
def visitGroups (hooks : FieldHooks) (before : Option Expr) : List FilterTree → Visit (Option Expr)
  | [] => return before
  | group :: rest => do
    let predicate ← visit hooks group
    match before with
    | some acc => visitGroups hooks (some (.binary .or acc predicate)) rest
    | none => visitGroups hooks (some predicate) rest

end Walk

namespace FilterTree

/-- The predicate of a tree, compiled in one walk. -/
def walked (hooks : FieldHooks) (tree : FilterTree) : Except SearchFault Compiled := do
  let (predicate, w) ← (Walk.visit hooks tree).run .start
  return w.finish predicate

/-- The predicate of several filters, compiled in one walk through all of them. -/
def walkedGroups (hooks : FieldHooks) (groups : List FilterTree) : Except SearchFault Compiled := do
  let (predicate, w) ← (Walk.visitGroups hooks none groups).run .start
  return w.finish (predicate.getD .always)

end FilterTree

end EntityQuery
