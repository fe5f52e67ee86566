import EntityQuery.Catalog.Field

/-!
# Filter trees

A filter is a tree of tests of fields against literals, combined by logical operators.  Trees may
also be put together by hand, and then need not make sense; what does not is refused when the tree
is compiled.

## Main definitions

* `FilterTree.fold?` : several filters under one operator
* `FilterTree.isIdentifying` : the filter demands that some fields have given values
-/

namespace EntityQuery

/-- A field together with the type that literals are compared in. -/
structure FieldRef where
  field : Field
  type : ScalarType
  deriving DecidableEq, Repr

/-- The text of the path of a field. -/
def FieldRef.pathText (f : FieldRef) : String := f.field.path.text

/-- A filter tree. -/
inductive FilterTree where
  | field (f : FieldRef)
  | literal (value : Value)
  /-- A field tested against a literal. -/
  | test (op : FilterOperator) (f : FieldRef) (value : Value)
  | unary (op : FilterOperator) (operand : FilterTree)
  | compound (op : FilterOperator) (left right : FilterTree)
  deriving Inhabited

namespace FilterTree

/-- Several filters under one operator, from left to right.  A single one stands for itself, except
under `distinct`, which takes it twice. -/
def fold? (op : FilterOperator) : List FilterTree → Option FilterTree
  | [] => none
  | [tree] => some (if op = .distinct then .compound .distinct tree tree else tree)
  | first :: rest => some (rest.foldl (.compound op) first)

/-- All tests are of equality with a value that is not null, and all have to hold. -/
def isIdentifying : FilterTree → Bool
  | .test op _ value => op.isEquality && !value.isNull
  | .compound .and left right => left.isIdentifying && right.isIdentifying
  | _ => false

/-- The fields of a filter from left to right. -/
def fields : FilterTree → List FieldRef
  | .field f => [f]
  | .literal _ => []
  | .test _ f _ => [f]
  | .unary _ operand => operand.fields
  | .compound _ left right => left.fields ++ right.fields

/-- The text of a filter. -/
def display : FilterTree → String
  | .field f => f.pathText
  | .literal value => value.display
  | .test op f value => f.pathText ++ " " ++ op.name ++ " " ++ value.display
  | .unary op operand => op.name ++ "(" ++ operand.display ++ ")"
  | .compound op left right => op.name ++ "(" ++ left.display ++ ", " ++ right.display ++ ")"

end FilterTree

end EntityQuery
