import EntityQuery.Text.Basic
import EntityQuery.Value.ScalarType

/-!
# Operators of predicates

Binary operators compare, combine truth values or match texts; unary ones negate, test for null or
truth, or lower the case of a text.  Each operator has a type of result for the types of operands
that it takes.
-/

namespace EntityQuery

/-! ## Comparisons and text matches -/

/-- A comparison. -/
inductive Comparison where
  | eq
  | ne
  | lt
  | le
  | gt
  | ge
  deriving DecidableEq, Repr

/-- The comparison holds of two values in this order. -/
def Comparison.holds : Comparison → Ordering → Bool
  | .eq, o => o = .eq
  | .ne, o => o ≠ .eq
  | .lt, o => o = .lt
  | .le, o => o ≠ .gt
  | .gt, o => o = .gt
  | .ge, o => o ≠ .lt

/-- The sign of a comparison. -/
def Comparison.sign : Comparison → String
  | .eq => "="
  | .ne => "!="
  | .lt => "<"
  | .le => "<="
  | .gt => ">"
  | .ge => ">="

/-- A match of a part of a text. -/
inductive TextMatch where
  | starts
  | ends
  | contains
  deriving DecidableEq, Repr

/-- The text has the part at the place that the match asks for. -/
def TextMatch.holds : TextMatch → String → String → Bool
  | .starts, text, part => Text.startsWith text part
  | .ends, text, part => Text.endsWith text part
  | .contains, text, part => Text.contains text part

/-- The words for a match. -/
def TextMatch.words : TextMatch → String
  | .starts => "STARTS WITH"
  | .ends => "ENDS WITH"
  | .contains => "CONTAINS"

/-! ## Binary operators -/

/-- A binary operator. -/
inductive BinaryOp where
  | compare (c : Comparison)
  | and
  | or
  | hasPart (m : TextMatch)
  deriving DecidableEq, Repr

namespace BinaryOp

/-- The sign of an operator. -/
def sign : BinaryOp → String
  | .compare c => c.sign
  | .and => "AND"
  | .or => "OR"
  | .hasPart m => m.words

/-- All binary operators. -/
def all : List BinaryOp :=
  [.compare .eq, .compare .ne, .compare .lt, .compare .le, .compare .gt, .compare .ge, .and, .or,
   .hasPart .starts, .hasPart .ends, .hasPart .contains]

/-- The operator of a sign. -/
def ofSign? (s : String) : Option BinaryOp := all.find? (·.sign = s)

/-- The operator compares values. -/
def isComparison : BinaryOp → Bool
  | .compare _ => true
  | _ => false

/-- The type of the result for operands of the given types. -/
def resultType? : BinaryOp → ScalarType → ScalarType → Option ScalarType
  | .compare _, left, right => if left.comparable right then some .boolean else none
  | .and, .boolean, .boolean | .or, .boolean, .boolean => some .boolean
  | .hasPart _, .text, .text => some .boolean
  | _, _, _ => none

end BinaryOp

/-! ## Unary operators -/

/-- A unary operator. -/
inductive UnaryOp where
  | not
  | isNull
  | isNotNull
  /-- True of true alone: null becomes false. -/
  | isTrue
  | lower
  deriving DecidableEq, Repr

namespace UnaryOp

/-- The sign of an operator. -/
def sign : UnaryOp → String
  | .not => "NOT"
  | .isNull => "IS NULL"
  | .isNotNull => "IS NOT NULL"
  | .isTrue => "IS TRUE"
  | .lower => "LOWER"

/-- All unary operators. -/
def all : List UnaryOp := [.not, .isNull, .isNotNull, .isTrue, .lower]

/-- The operator of a sign. -/
def ofSign? (s : String) : Option UnaryOp := all.find? (·.sign = s)

/-- The sign stands behind the operand. -/
def isSuffixed : UnaryOp → Bool
  | .isNull | .isNotNull | .isTrue => true
  | _ => false

/-- The type of the result for an operand of the given type. -/
def resultType? : UnaryOp → ScalarType → Option ScalarType
  | .not, .boolean | .isTrue, .boolean => some .boolean
  | .isNull, _ | .isNotNull, _ => some .boolean
  | .lower, .text => some .text
  | _, _ => none

end UnaryOp

end EntityQuery
