import EntityQuery.Proofs.Expr.Binding
import EntityQuery.Proofs.Expr.Soundness

/-!
# Columns read by their names

An expression has a value for any way to read columns; evaluation on a row is the way that goes by
positions.  An expression that has been bound to a layout has, on every row of the width of the
layout, the value that the expression has where each column is the value under the first occurrence
of its name.  That way of reading never fails, so the only faults that are left are those of
operators.

## Main definitions

* `Expr.evalBy` : the value of an expression, for a way to read columns
* `Row.byPosition`, `Row.byName` : columns of a row by their positions, and by their names in a
  layout

## Main statements

* `eval_eq_evalBy` : evaluation reads by position
* `eval_of_bind` : a bound expression has the value of the expression by names
* `answers_evalBy` : reading by names leaves the faults of operators
* `bind_exact` : when binding succeeds, and what a bound expression is
-/

namespace EntityQuery

namespace Row

/-- Columns are read at their positions. -/
def byPosition (row : Row) (name : String) : Option Nat → Except ExprFault Value
  | none => throw (.unboundColumn name)
  | some index =>
    match row[index]? with
    | some value => pure value
    | none => throw (.outOfBounds index row.length)

/-- Columns are read under the first occurrences of their names in a layout, wherever they stand. -/
def byName (layout : List String) (row : Row) (name : String) (_ : Option Nat) :
    Except ExprFault Value :=
  pure (row.cell layout name)

end Row

namespace Expr

mutual

/-- The value of an expression, for a way to read columns by name and position. -/
def evalBy (read : String → Option Nat → Except ExprFault Value) : Expr → Except ExprFault Value
  | .literal value => pure value
  | .column name index => read name index
  | .binary op left right => do evalBinary op (← left.evalBy read) (← right.evalBy read)
  | .unary op arg => do evalUnary op (← arg.evalBy read)
  | .isIn arg items => do
    let value ← arg.evalBy read
    if value.isNull then return .null else evalIsInBy read value items
  | .between arg low high => do
    evalBetween (← arg.evalBy read) (← low.evalBy read) (← high.evalBy read)

/-- A value is equal to one of some expressions, which are evaluated up to the first that is. -/
def evalIsInBy (read : String → Option Nat → Except ExprFault Value) (value : Value) :
    List Expr → Except ExprFault Value
  | [] => pure (.boolean false)
  | item :: rest => do
    if value.compare? (← item.evalBy read) = some .eq then return .boolean true
    else evalIsInBy read value rest

end

variable {row : Row} {layout : List String}
  {read other : String → Option Nat → Except ExprFault Value}

mutual

/-- Evaluation on a row reads columns at their positions. -/
theorem eval_eq_evalBy (row : Row) : ∀ e : Expr, e.eval row = e.evalBy row.byPosition
  | .literal _ | .column _ none | .column _ (some _) => rfl
  | .binary _ left right => by rw [eval, evalBy, eval_eq_evalBy row left, eval_eq_evalBy row right]
  | .unary _ arg => by rw [eval, evalBy, eval_eq_evalBy row arg]
  | .isIn arg items => by
      simp only [eval, evalBy, eval_eq_evalBy row arg,
        fun value => evalIsIn_eq_evalIsInBy row value items]
  | .between arg low high => by
      rw [eval, evalBy, eval_eq_evalBy row arg, eval_eq_evalBy row low, eval_eq_evalBy row high]

theorem evalIsIn_eq_evalIsInBy (row : Row) (value : Value) :
    ∀ items : List Expr, evalIsIn row value items = evalIsInBy row.byPosition value items
  | [] => rfl
  | item :: rest => by
      rw [evalIsIn, evalIsInBy, eval_eq_evalBy row item, evalIsIn_eq_evalIsInBy row value rest]

end

mutual

/-- Where the columns that are read are the same, at their places in a layout and wherever they
stand, the values are. -/
theorem evalBy_placed :
    ∀ e : Expr, (∀ name ∈ e.reads, ∀ index, read name (layout.idxOf? name) = other name index) →
      (e.placed layout).evalBy read = e.evalBy other
  | .literal _, _ => rfl
  | .column name index, hread => hread name (by simp [reads]) index
  | .binary _ left right, hread => by
      rw [reads, List.forall_mem_append] at hread
      rw [placed, evalBy, evalBy, evalBy_placed left hread.1, evalBy_placed right hread.2]
  | .unary _ arg, hread => by rw [placed, evalBy, evalBy, evalBy_placed arg hread]
  | .isIn arg items, hread => by
      rw [reads, List.forall_mem_append] at hread
      simp only [placed, evalBy, evalBy_placed arg hread.1,
        fun value => evalIsInBy_placed value items hread.2]
  | .between arg low high, hread => by
      rw [reads, List.forall_mem_append, List.forall_mem_append] at hread
      rw [placed, evalBy, evalBy, evalBy_placed arg hread.1.1, evalBy_placed low hread.1.2,
        evalBy_placed high hread.2]

theorem evalIsInBy_placed (value : Value) :
    ∀ items : List Expr,
      (∀ name ∈ readsOfItems items, ∀ index, read name (layout.idxOf? name) = other name index) →
      evalIsInBy read value (placedItems layout items) = evalIsInBy other value items
  | [], _ => rfl
  | item :: rest, hread => by
      rw [readsOfItems, List.forall_mem_append] at hread
      rw [placedItems, evalIsInBy, evalIsInBy, evalBy_placed item hread.1,
        evalIsInBy_placed value rest hread.2]

end

/-- On a row of the width of the layout, a column is at its place in the layout what it is under its
name. -/
theorem byPosition_idxOf? (hwidth : row.length = layout.length) {name : String}
    (hname : name ∈ layout) (index : Option Nat) :
    row.byPosition name (layout.idxOf? name) = row.byName layout name index := by
  obtain ⟨i, hi⟩ := Option.isSome_iff_exists.mp (List.isSome_idxOf?.mpr hname)
  have hlt : i < row.length := hwidth ▸ (List.idxOf?_eq_some_iff.mp hi).choose
  simp [Row.byPosition, Row.byName, Row.cell, hi, List.getElem?_eq_getElem hlt]

/-- A bound expression has the value that the expression has by the names of its columns. -/
theorem eval_of_bind {e bound : Expr} (hbound : e.bind layout = .ok bound)
    (hwidth : row.length = layout.length) : bound.eval row = e.evalBy (row.byName layout) := by
  obtain ⟨hreads, rfl⟩ := bind_eq_ok_iff.mp hbound
  rw [eval_eq_evalBy]
  exact evalBy_placed e fun name hname => byPosition_idxOf? hwidth (hreads name hname)

theorem eval_bound_column (hwidth : row.length = layout.length) {name : String} {bound : Expr}
    (hbound : (named name).bind layout = .ok bound) : bound.eval row = .ok (row.cell layout name) :=
  eval_of_bind hbound hwidth

/-! ## Faults -/

theorem Answers.of_ok_or_invalid {α : Type} {x : Except ExprFault α}
    (hx : (∃ a, x = .ok a) ∨ ∃ sign left right, x = .error (.invalidOperands sign left right)) :
    Answers true x :=
  hx.imp_right fun hfault => ⟨rfl, hfault⟩

theorem answers_evalBinary (op : BinaryOp) (a b : Value) : Answers true (evalBinary op a b) := by
  unfold evalBinary
  split
  · exact .of_ok rfl
  · exact .of_ok_or_invalid (evalNonNull_ok_or_invalid op a b)

mutual

/-- Where columns are read without fault, all faults are those of operators. -/
theorem answers_evalBy (hread : ∀ name index, ∃ v, read name index = .ok v) :
    ∀ e : Expr, Answers true (e.evalBy read)
  | .literal _ => .of_ok rfl
  | .column name index => .inl (hread name index)
  | .binary op left right =>
      (answers_evalBy hread left).bind (n := true) fun a _ =>
          (answers_evalBy hread right).bind (n := true) fun b _ =>
        answers_evalBinary op a b
  | .unary op arg =>
      (answers_evalBy hread arg).bind (n := true) fun a _ =>
        .of_ok_or_invalid (evalUnary_ok_or_invalid op a)
  | .isIn arg items =>
      (answers_evalBy hread arg).bind (n := true) fun value _ => by
        split
        · exact .of_ok rfl
        · exact answers_evalIsInBy hread value items
  | .between arg low high =>
      (answers_evalBy hread arg).bind (n := true) fun a _ =>
          (answers_evalBy hread low).bind (n := true) fun l _ =>
        (answers_evalBy hread high).bind (n := true) fun h _ =>
          .of_ok_or_invalid (evalBetween_ok_or_invalid a l h)

theorem answers_evalIsInBy (hread : ∀ name index, ∃ v, read name index = .ok v) (value : Value) :
    ∀ items : List Expr, Answers true (evalIsInBy read value items)
  | [] => .of_ok rfl
  | item :: rest =>
      (answers_evalBy hread item).bind (n := true) fun _ _ => by
        split
        · exact .of_ok rfl
        · exact answers_evalIsInBy hread value rest

end

theorem exists_invalid_of_evalBy (hread : ∀ name index, ∃ v, read name index = .ok v) {e : Expr}
    {fault : ExprFault} (hfault : e.evalBy read = .error fault) :
    ∃ sign left right, fault = .invalidOperands sign left right := by
  rcases answers_evalBy hread e with ⟨v, hv⟩ | ⟨-, sign, left, right, hinvalid⟩
  · simp [hv] at hfault
  · exact ⟨sign, left, right, Except.error.inj (hfault.symm.trans hinvalid)⟩

/-! ## Bound expressions -/

/-- Binding succeeds exactly if the layout has all columns of the expression, and otherwise fails at
the first one that it lacks.  A bound expression has the columns and the text of the expression and
is bound to the layout already; on rows of the width of the layout it has the value of the
expression by the names of its columns, and no faults but those of operators. -/
theorem bind_exact (layout : List String) (e : Expr) :
    ((∃ bound, e.bind layout = .ok bound) ↔ ∀ name ∈ e.columns, name ∈ layout) ∧
      (∀ fault, e.bind layout = .error fault ↔
        ∃ name, e.columns.find? (· ∉ layout) = some name ∧ fault = .unknownColumn name) ∧
      ∀ bound, e.bind layout = .ok bound →
        (bound.columns = e.columns ∧ bound.display = e.display ∧ bound.bind layout = .ok bound) ∧
          ∀ row : Row, row.length = layout.length →
            bound.eval row = e.evalBy (row.byName layout) ∧
              ∀ fault, bound.eval row = .error fault →
                ∃ sign left right, fault = .invalidOperands sign left right := by
  refine ⟨?_, fun fault => bind_eq_error_iff, fun bound hbound => ⟨?_, fun row hwidth => ?_⟩⟩
  · simp only [mem_columns_iff, bind_eq_ok_iff, exists_and_left, exists_eq, and_true]
  · obtain ⟨hreads, rfl⟩ := bind_eq_ok_iff.mp hbound
    refine ⟨by rw [columns, reads_placed, columns], display_placed e, bind_eq_ok_iff.mpr ⟨?_, ?_⟩⟩
    · rwa [reads_placed]
    · exact (placed_placed e).symm
  · have heval := eval_of_bind hbound hwidth
    refine ⟨heval, fun fault hfault =>
      exists_invalid_of_evalBy (fun _ _ => ⟨_, rfl⟩) (heval ▸ hfault)⟩

/-- A column that is bound elsewhere and another one, bound to a layout that has both names
twice. -/
theorem bind_exact_repeated :
    let e := isIn (column "b" (some 7)) [named "a", literal .null, named "b"]
    let layout := ["a", "b", "b", "a"]
    let row : Row := [.int32 1, .int32 2, .text "b", .text "a"]
    ∃ bound, e.bind layout = .ok bound ∧ row.length = layout.length ∧ bound.columns = ["b", "a"] ∧
      bound.display = "(b IN (a, NULL, b))" ∧ bound.bind layout = .ok bound ∧
      bound.eval row = e.evalBy (row.byName layout) ∧ bound.eval row = .ok (.boolean true) ∧
      e.bind ["id"] = .error (.unknownColumn "b") := by
  intro e layout row
  obtain ⟨bound, hbound⟩ := (bind_exact layout e).1.mpr (by decide)
  obtain ⟨⟨hcolumns, hdisplay, hagain⟩, hrow⟩ := (bind_exact layout e).2.2 bound hbound
  obtain ⟨heval, -⟩ := hrow row rfl
  refine ⟨bound, hbound, rfl, hcolumns, hdisplay, hagain, heval, heval.trans rfl, ?_⟩
  exact ((bind_exact ["id"] e).2.1 _).mpr ⟨"b", by decide, rfl⟩

end Expr

end EntityQuery
