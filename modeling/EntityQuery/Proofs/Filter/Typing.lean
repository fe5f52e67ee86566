import EntityQuery.Proofs.Filter.Evaluation
import EntityQuery.Proofs.Flow.Rows

/-!
# Types of the predicates of filters

The predicate of a sound tree passes the check of its types against every schema that has the
columns of its fields with their types.  The check may end without a type, where a null literal
leaves it open; what it never ends with is a fault or another type than boolean.

## Main definitions

* `Expr.ChecksAsTruth` : the checked type of an expression is boolean or open

## Main statements

* `checksAsTruth_of_compile` : the predicate of a sound tree passes the check
-/

namespace EntityQuery

open EntityQuery.Expr

/-- The checked type of the expression is boolean, or is left open. -/
def Expr.ChecksAsTruth (schema : List ScalarType) (e : Expr) : Prop :=
  e.check schema = .ok none ∨ e.check schema = .ok (some .boolean)

namespace Expr

variable {schema : List ScalarType}

theorem ChecksAsTruth.checkPredicate {e : Expr} (he : e.ChecksAsTruth schema) :
    e.checkPredicate schema = .ok () := by
  unfold Expr.checkPredicate
  rcases he with he | he <;> rw [he] <;> rfl

theorem ChecksAsTruth.and {left right : Expr} (hleft : left.ChecksAsTruth schema)
    (hright : right.ChecksAsTruth schema) : (binary .and left right).ChecksAsTruth schema := by
  unfold ChecksAsTruth check
  rcases hleft with hleft | hleft <;> rcases hright with hright | hright <;>
    simp [hleft, hright, checkBinary, BinaryOp.isComparison, BinaryOp.resultType?]

theorem ChecksAsTruth.or {left right : Expr} (hleft : left.ChecksAsTruth schema)
    (hright : right.ChecksAsTruth schema) : (binary .or left right).ChecksAsTruth schema := by
  unfold ChecksAsTruth check
  rcases hleft with hleft | hleft <;> rcases hright with hright | hright <;>
    simp [hleft, hright, checkBinary, BinaryOp.isComparison, BinaryOp.resultType?]

theorem ChecksAsTruth.not_isTrue {arg : Expr} (harg : arg.ChecksAsTruth schema) :
    (unary .not (unary .isTrue arg)).ChecksAsTruth schema := by
  unfold ChecksAsTruth check
  rcases harg with harg | harg <;> simp [check, harg, checkUnary, UnaryOp.resultType?]

/-! ## Literals -/

theorem type?_of_comparableWith {t : ScalarType} {v : Value} (hv : v.ComparableWith t) :
    v.type? = none ∨ ∃ u, v.type? = some u ∧ t.comparable u = true := by
  obtain ⟨u, hcomparable, hv⟩ := hv
  cases hnull : v.isNull with
  | true =>
      obtain rfl := Value.eq_null_of_isNull hnull
      exact .inl rfl
  | false =>
      have hof := Value.ofType_of_conforms hv hnull
      simp only [Value.ofType, Bool.and_eq_true, decide_eq_true_eq] at hof
      exact .inr ⟨u, hof.1, hcomparable⟩

theorem checkComparable_eq_ok {t : ScalarType} {v : Value} (hv : v.ComparableWith t)
    (sign : String) : checkComparable sign (some t) v.type? = .ok () := by
  rcases type?_of_comparableWith hv with h | ⟨u, h, hcomparable⟩
  · rw [h]
    rfl
  · simp [h, checkComparable, hcomparable]

theorem checkItems_literals {t : ScalarType} {items : List Value}
    (hitems : ∀ v ∈ items, v.ComparableWith t) :
    checkItems schema (some t) (items.map .literal) = .ok () := by
  induction items with
  | nil => rfl
  | cons v items ih =>
      rw [List.forall_mem_cons] at hitems
      rw [List.map_cons, checkItems, check, Outcome.pure_eq_ok, Outcome.ok_bind,
        checkComparable_eq_ok hitems.1, Outcome.ok_bind, ih hitems.2]

theorem checksAsTruth_compare {cmp : Comparison} {left right : Expr} {t : ScalarType}
    {u : Option ScalarType} (hleft : left.check schema = .ok (some t))
    (hright : right.check schema = .ok u)
    (hu : u = none ∨ ∃ v, u = some v ∧ t.comparable v = true) :
    (Expr.compare cmp left right).ChecksAsTruth schema := by
  refine .inr ?_
  unfold Expr.compare check
  rw [hleft, hright]
  rcases hu with rfl | ⟨v, rfl, hcomparable⟩
  · rfl
  · simp [checkBinary, BinaryOp.resultType?, hcomparable]

theorem checksAsTruth_hasPart {m : TextMatch} {left right : Expr} {u : Option ScalarType}
    (hleft : left.check schema = .ok (some .text)) (hright : right.check schema = .ok u)
    (hu : u = none ∨ u = some .text) : (binary (.hasPart m) left right).ChecksAsTruth schema := by
  unfold ChecksAsTruth check
  rw [hleft, hright]
  rcases hu with rfl | rfl
  · exact .inl rfl
  · exact .inr rfl

theorem check_lower {arg : Expr} {u : Option ScalarType} (harg : arg.check schema = .ok u)
    (hu : u = none ∨ u = some .text) : (unary .lower arg).check schema = .ok u := by
  unfold check
  rw [harg]
  rcases hu with rfl | rfl <;> rfl

end Expr

namespace FilterTree

variable {schema : List ScalarType} {c : Catalog} {root : String}

/-- The expression of a test passes the check if its column has the type of the field. -/
theorem checksAsTruth_testExpr {op : FilterOperator} {t : ScalarType} {value : Value}
    {path : String} {column e : Expr} (haccepts : op.accepts t.family = true)
    (htakes : op.Takes t value) (hcolumn : column.check schema = .ok (some t))
    (he : testExpr path op column value = .ok e) : e.ChecksAsTruth schema := by
  have hliteral : (Expr.literal value).check schema = .ok value.type? := rfl
  have hcomparable (hop : op.takesList = false) :
      value.type? = none ∨ ∃ u, value.type? = some u ∧ t.comparable u = true :=
    type?_of_comparableWith (FilterOperator.comparableWith_of_takes htakes hop)
  -- tests on parts and regardless of case are for text only, and so their values are texts or null
  have htext (ht : decide (t.family = .textual) = true) (hop : op.takesList = false) :
      t = .text ∧ (value.type? = none ∨ value.type? = some .text) := by
    obtain rfl := FilterOperator.eq_text_of_family ht
    refine ⟨rfl, (hcomparable hop).imp id ?_⟩
    rintro ⟨u, hu, hsame⟩
    cases u <;> simp_all [ScalarType.comparable, ScalarType.isNumeric, ScalarType.family]
  cases op <;> simp only [testExpr] at he
  case isIn =>
    obtain ⟨items, rfl, -, hitems⟩ := FilterOperator.exists_items_of_takes htakes rfl
    obtain rfl := Except.ok.inj he
    refine .inr ?_
    rw [check, hcolumn, Outcome.ok_bind, checkItems_literals hitems]
    rfl
  case between =>
    obtain ⟨low, high, rest, rfl, hlow, hhigh⟩ := FilterOperator.exists_bounds_of_takes htakes
    obtain rfl := Except.ok.inj he
    refine .inr ?_
    simp [check, hcolumn, checkComparable_eq_ok hlow, checkComparable_eq_ok hhigh]
  case equals | eq =>
    obtain rfl := Except.ok.inj he
    split
    · refine .inr ?_
      simp [check, hcolumn, checkUnary, UnaryOp.resultType?]
    · exact checksAsTruth_compare hcolumn hliteral (hcomparable rfl)
  case gt | gte | lt | lte =>
    obtain rfl := Except.ok.inj he
    exact checksAsTruth_compare hcolumn hliteral (hcomparable rfl)
  case equalsIc =>
    obtain ⟨rfl, htype⟩ := htext haccepts rfl
    obtain rfl := Except.ok.inj he
    exact checksAsTruth_compare (check_lower hcolumn (.inr rfl)) (check_lower hliteral htype)
      (hcomparable rfl)
  case contains | starts | ends =>
    obtain ⟨rfl, htype⟩ := htext haccepts rfl
    obtain rfl := Except.ok.inj he
    exact checksAsTruth_hasPart hcolumn hliteral htype
  case containsIc | startsIc | endsIc =>
    obtain ⟨rfl, htype⟩ := htext haccepts rfl
    obtain rfl := Except.ok.inj he
    exact checksAsTruth_hasPart (check_lower hcolumn (.inr rfl)) (check_lower hliteral htype) htype
  all_goals simp at he

theorem check_bound_column {schema : Schema} (hnodup : schema.names.Nodup) {name : String}
    {t : ScalarType} (hcolumn : ⟨name, t⟩ ∈ schema) {bound : Expr}
    (hbound : (named name).bind schema.names = .ok bound) :
    bound.check schema.types = .ok (some t) := by
  obtain ⟨i, hposition, hi⟩ := Schema.exists_position? hnodup hcolumn
  have hindex : schema.names.idxOf? name = some i := hposition
  unfold named at hbound
  rw [Expr.bind, hindex] at hbound
  obtain rfl := Except.ok.inj hbound
  simp [check, Schema.types, hi]

/-- The predicate of a sound tree passes the check against every schema that has the columns of its
fields with their types. -/
theorem checksAsTruth_of_compile {tree : FilterTree} (hsound : tree.Sound c root)
    {compiled : Compiled} (hcompile : tree.compile .none = .ok compiled) {schema : Schema}
    (hnodup : schema.names.Nodup)
    (hcolumns : ∀ f ∈ tree.fields, ⟨f.field.columnPath, f.type⟩ ∈ schema) {bound : Expr}
    (hbound : compiled.predicate.bind schema.names = .ok bound) :
    bound.ChecksAsTruth schema.types := by
  induction tree generalizing compiled bound with
  | field f => exact hsound.elim
  | literal value => exact hsound.elim
  | test op f value =>
      obtain ⟨-, haccepts, htakes⟩ := hsound
      obtain ⟨-, e, he, rfl⟩ := compileTest_none_eq_ok_iff.mp hcompile
      obtain ⟨column, hcolumn, hbound⟩ := bind_testExpr he hbound
      have hcheck := check_bound_column hnodup (hcolumns f (List.mem_singleton.mpr rfl)) hcolumn
      exact checksAsTruth_testExpr haccepts htakes hcheck hbound
  | unary op operand ih =>
      obtain ⟨rfl, hoperand⟩ := hsound
      obtain ⟨-, inner, hinner, rfl⟩ := compile_unary_eq_ok hcompile
      obtain ⟨negated, hnegated, rfl⟩ := bind_unary_eq_ok hbound
      obtain ⟨arg, harg, rfl⟩ := bind_unary_eq_ok hnegated
      exact (ih hoperand hinner hcolumns harg).not_isTrue
  | compound op left right ihleft ihright =>
      obtain ⟨hop, hleft, hright⟩ := hsound
      obtain ⟨l, r, hl, hr, hcompiled⟩ := compile_compound_eq_ok hcompile
      simp only [fields, List.forall_mem_append] at hcolumns
      rcases hcompiled with ⟨rfl, rfl⟩ | ⟨rfl, rfl⟩ | ⟨rfl, rfl⟩
      · obtain ⟨a, b, ha, hb, rfl⟩ := bind_binary_eq_ok hbound
        exact (ihleft hleft hl hcolumns.1 ha).and (ihright hright hr hcolumns.2 hb)
      · obtain ⟨a, b, ha, hb, rfl⟩ := bind_binary_eq_ok hbound
        exact (ihleft hleft hl hcolumns.1 ha).or (ihright hright hr hcolumns.2 hb)
      · obtain ⟨a, b, ha, hb, rfl⟩ := bind_binary_eq_ok hbound
        exact (ihleft hleft hl hcolumns.1 ha).and (ihright hright hr hcolumns.2 hb)

end FilterTree

end EntityQuery
