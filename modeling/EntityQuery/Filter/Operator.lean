import EntityQuery.Text.Casing
import EntityQuery.Value.ScalarType

/-!
# Filter operators

The operators that a filter map may name, the families of types they apply to, and the smaller set
of operators of flat parameter filters.
-/

namespace EntityQuery

/-! ## Operators of filter maps -/

/-- An operator of a filter map. -/
inductive FilterOperator where
  | and
  | or
  | not
  | distinct
  | equals
  | equalsIc
  | contains
  | containsIc
  | starts
  | startsIc
  | ends
  | endsIc
  | eq
  | gt
  | gte
  | lt
  | lte
  | isIn
  | between
  deriving DecidableEq, Repr

/-- The group of an operator. -/
inductive OperatorGroup where
  | logical
  | textual
  | numeric
  | range
  deriving DecidableEq, Repr

/-- What an operator takes. -/
inductive Arity where
  /-- One filter. -/
  | unary
  /-- A field and a literal. -/
  | binary
  /-- Two filters. -/
  | compound
  deriving DecidableEq, Repr

/-- The word for a group. -/
def OperatorGroup.label : OperatorGroup → String
  | .logical => "Logical"
  | .textual => "String"
  | .numeric => "Numeric"
  | .range => "Range"

/-- The word for an arity. -/
def Arity.label : Arity → String
  | .unary => "Unary"
  | .binary => "Binary"
  | .compound => "Compound"

namespace FilterOperator

/-- All operators. -/
def all : List FilterOperator :=
  [.and, .or, .not, .distinct,
   .equals, .equalsIc, .contains, .containsIc, .starts, .startsIc, .ends, .endsIc,
   .eq, .gt, .gte, .lt, .lte, .isIn, .between]

theorem mem_all (op : FilterOperator) : op ∈ all := by cases op <;> decide

/-- The name of an operator in a filter map. -/
def name : FilterOperator → String
  | .and => "and"
  | .or => "or"
  | .not => "not"
  | .distinct => "distinct"
  | .equals => "equals"
  | .equalsIc => "equalsic"
  | .contains => "contains"
  | .containsIc => "containsic"
  | .starts => "starts"
  | .startsIc => "startsic"
  | .ends => "ends"
  | .endsIc => "endsic"
  | .eq => "eq"
  | .gt => "gt"
  | .gte => "gte"
  | .lt => "lt"
  | .lte => "lte"
  | .isIn => "in"
  | .between => "between"

/-- The operator of a name, whose ASCII letters may be in any case. -/
def ofName? (s : String) : Option FilterOperator :=
  let chars := s.toList.map Char.toLower
  all.find? fun op => op.name.toList = chars

/-- The group of an operator. -/
def group : FilterOperator → OperatorGroup
  | .and | .or | .not | .distinct => .logical
  | .equals | .equalsIc | .contains | .containsIc | .starts | .startsIc | .ends | .endsIc =>
    .textual
  | .eq | .gt | .gte | .lt | .lte => .numeric
  | .isIn | .between => .range

/-- What an operator takes. -/
def arity : FilterOperator → Arity
  | .not => .unary
  | .and | .or | .distinct => .compound
  | _ => .binary

/-- The operator combines filters. -/
def isLogical (op : FilterOperator) : Bool := op.group = .logical

/-- The operator compares texts in lower case. -/
def ignoresCase : FilterOperator → Bool
  | .equalsIc | .containsIc | .startsIc | .endsIc => true
  | _ => false

/-- The operator compares for equality. -/
def isEquality : FilterOperator → Bool
  | .equals | .eq => true
  | _ => false

/-- The operator takes a list of values. -/
def takesList : FilterOperator → Bool
  | .isIn | .between => true
  | _ => false

/-- The operator orders values, so that a whole number may be compared with any number. -/
def ordersValues : FilterOperator → Bool
  | .gt | .gte | .lt | .lte | .between => true
  | _ => false

/-- The operator applies to fields of a family of types. -/
def accepts : FilterOperator → TypeFamily → Bool
  | .and, _ | .or, _ | .not, _ | .distinct, _ => false
  | .equals, _ | .eq, _ => true
  | .gt, t | .gte, t | .lt, t | .lte, t | .between, t => t = .numeric || t = .temporal
  | .isIn, t => t ≠ .boolean
  | _, t => t = .textual

end FilterOperator

/-! ## Operators of parameter filters -/

/-- An operator of a parameter filter. -/
inductive ParameterOperator where
  | equals
  | notEquals
  | isIn
  | notIn
  deriving DecidableEq, Repr

namespace ParameterOperator

/-- The word for an operator. -/
def label : ParameterOperator → String
  | .equals => "Equals"
  | .notEquals => "NotEquals"
  | .isIn => "In"
  | .notIn => "NotIn"

/-- The operator of a name, whose letters may be in any case and have `_` and `-` between them. -/
def ofName? (s : String) : Option ParameterOperator :=
  let name := Text.lowerEach (String.ofList (s.toList.filter fun c => c ≠ '_' && c ≠ '-'))
  if name = "equals" ∨ name = "eq" then some .equals
  else if name = "notequals" ∨ name = "ne" then some .notEquals
  else if name = "in" then some .isIn
  else if name = "notin" then some .notIn
  else none

/-- The operator is the complement of another. -/
def isNegated : ParameterOperator → Bool
  | .notEquals | .notIn => true
  | _ => false

end ParameterOperator

end EntityQuery
