import EntityQuery.Expr.Fault
import EntityQuery.Expr.Operator

/-!
# Predicates over columns

A predicate is an expression over the columns of a row.  Columns are named; before a predicate is
evaluated it is bound to a layout, which gives every column its position.

## Main definitions

* `Expr.columns` : the columns that an expression reads, each once, in the order of reading
* `Expr.bind` : the expression with positions in a layout
* `Expr.display` : the text of an expression
-/

namespace EntityQuery

/-- An expression over the columns of a row. -/
inductive Expr where
  | literal (value : Value)
  /-- A column, with its position once it is bound. -/
  | column (name : String) (index : Option Nat)
  | binary (op : BinaryOp) (left right : Expr)
  | unary (op : UnaryOp) (arg : Expr)
  /-- The value is equal to one of some others. -/
  | isIn (arg : Expr) (items : List Expr)
  /-- The value lies between two others, which belong to the range. -/
  | between (arg low high : Expr)
  deriving Inhabited

namespace Expr

/-! ## Building -/

/-- A column by its name. -/
def named (name : String) : Expr := .column name none

/-- The predicate that every row satisfies. -/
def always : Expr := .literal (.boolean true)

/-- Both hold. -/
def and (left right : Expr) : Expr := .binary .and left right

/-- One of the two holds. -/
def or (left right : Expr) : Expr := .binary .or left right

/-- A comparison of two expressions. -/
def compare (c : Comparison) (left right : Expr) : Expr := .binary (.compare c) left right

/-! ## Columns -/

mutual

/-- The columns of an expression as often and in the order in which they are read. -/
def reads : Expr → List String
  | .literal _ => []
  | .column name _ => [name]
  | .binary _ left right => left.reads ++ right.reads
  | .unary _ arg => arg.reads
  | .isIn arg items => arg.reads ++ readsOfItems items
  | .between arg low high => arg.reads ++ low.reads ++ high.reads

/-- The columns of some expressions. -/
def readsOfItems : List Expr → List String
  | [] => []
  | item :: rest => item.reads ++ readsOfItems rest

end

/-- The names of a list, each at its first place. -/
def firstSeen (names : List String) : List String :=
  names.foldl (fun seen name => if seen.contains name then seen else seen ++ [name]) []

/-- The columns of an expression, each once, in the order of reading. -/
def columns (e : Expr) : List String := firstSeen e.reads

mutual

/-- The expression reads no column. -/
def isConstant : Expr → Bool
  | .literal _ => true
  | .column _ _ => false
  | .binary _ left right => left.isConstant && right.isConstant
  | .unary _ arg => arg.isConstant
  | .isIn arg items => arg.isConstant && areConstant items
  | .between arg low high => arg.isConstant && low.isConstant && high.isConstant

/-- No expression reads a column. -/
def areConstant : List Expr → Bool
  | [] => true
  | item :: rest => item.isConstant && areConstant rest

end

/-! ## Binding -/

mutual

/-- The expression with every column at the first position of its name in a layout. -/
def bind (layout : List String) : Expr → Except ExprFault Expr
  | .literal value => pure (.literal value)
  | .column name _ =>
    match layout.idxOf? name with
    | some index => pure (.column name (some index))
    | none => throw (.unknownColumn name)
  | .binary op left right => do return .binary op (← left.bind layout) (← right.bind layout)
  | .unary op arg => do return .unary op (← arg.bind layout)
  | .isIn arg items => do return .isIn (← arg.bind layout) (← bindItems layout items)
  | .between arg low high => do
    return .between (← arg.bind layout) (← low.bind layout) (← high.bind layout)

/-- Some expressions with every column at its position. -/
def bindItems (layout : List String) : List Expr → Except ExprFault (List Expr)
  | [] => pure []
  | item :: rest => do return (← item.bind layout) :: (← bindItems layout rest)

end

/-! ## Text -/

mutual

/-- The text of an expression. -/
def display : Expr → String
  | .literal value => value.display
  | .column name _ => name
  | .binary op left right => "(" ++ left.display ++ " " ++ op.sign ++ " " ++ right.display ++ ")"
  | .unary op arg =>
    if op.isSuffixed then "(" ++ arg.display ++ " " ++ op.sign ++ ")"
    else op.sign ++ "(" ++ arg.display ++ ")"
  | .isIn arg items => "(" ++ arg.display ++ " IN (" ++ displayItems items ++ "))"
  | .between arg low high =>
    "(" ++ arg.display ++ " BETWEEN " ++ low.display ++ " AND " ++ high.display ++ ")"

/-- Expressions with commas between them. -/
def displayItems : List Expr → String
  | [] => ""
  | [item] => item.display
  | item :: rest => item.display ++ ", " ++ displayItems rest

end

end Expr

end EntityQuery
