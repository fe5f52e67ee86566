import EntityQuery.Proofs.Expr.ByName
import EntityQuery.Proofs.Filter.Sound

/-!
# Evaluating the predicate of a filter

A sound tree compiles, its predicate reads the columns of its fields and no others, and on a row
that holds null or a value of the right type in each of them the predicate is true exactly if the
tree is.  Together with the meaning of filters this describes the way from a JSON value to the truth
of a bound predicate.

Tests come first: by soundness the literal can be compared with the values of the field, so no test
has an undefined order.  The rest is induction on the tree, with truth in place of the value of the
predicate, which may be null.

## Main statements

* `exists_compile` : a sound tree compiles
* `reads_of_compile` : the columns of the predicate of a tree
* `holds_of_compile` : the predicate of a tree is true where the tree is
* `holds_of_read` : the predicate of a filter is true where the filter is
-/

namespace EntityQuery

open EntityQuery.Expr

/-! ## Literals of operators -/

namespace FilterOperator

variable {op : FilterOperator} {t : ScalarType} {v : Value}

theorem comparableWith_of_takes (htakes : op.Takes t v) (hop : op.takesList = false) :
    v.ComparableWith t := by
  simpa [Takes, hop] using htakes

theorem exists_items_of_takes (htakes : op.Takes t v) (hop : op.takesList = true) :
    ∃ items, v = .list items ∧ (op = .between → 2 ≤ items.length) ∧ ∀ item ∈ items,
      item.ComparableWith t := by
  simpa [Takes, hop] using htakes

theorem exists_bounds_of_takes (htakes : Takes .between t v) :
    ∃ low high rest, v = .list (low :: high :: rest) ∧ low.ComparableWith t ∧
      high.ComparableWith t := by
  obtain ⟨items, rfl, hlength, hitems⟩ := exists_items_of_takes htakes rfl
  match items, hlength rfl with
  | low :: high :: rest, _ =>
      exact ⟨low, high, rest, rfl, hitems low (by simp), hitems high (by simp)⟩

theorem eq_text_of_family {t : ScalarType} (ht : decide (t.family = .textual) = true) :
    t = .text := by
  cases t <;> simp_all [ScalarType.family]

end FilterOperator

namespace Value

theorem comparableWith_self {t : ScalarType} {v : Value} (hv : v.conforms t = true) :
    v.ComparableWith t :=
  ⟨t, by simp [ScalarType.comparable], hv⟩

theorem exists_compare?_of_comparableWith {t : ScalarType} {a b : Value} (ha : a.conforms t = true)
    (hb : b.ComparableWith t) (hnulla : a.isNull = false) (hnullb : b.isNull = false) :
    ∃ o, a.compare? b = some o := by
  obtain ⟨u, hcomparable, hb⟩ := hb
  exact exists_compare? hcomparable (ofType_of_conforms ha hnulla) (ofType_of_conforms hb hnullb)

theorem conforms_text_of_comparableWith {v : Value} (hv : v.ComparableWith .text) :
    v.conforms .text = true := by
  obtain ⟨u, hcomparable, hv⟩ := hv
  have hu : u = .text := by
    cases u <;> simp_all [ScalarType.comparable, ScalarType.isNumeric, ScalarType.family]
  exact hu ▸ hv

end Value

/-! ## Tests -/

namespace FilterTree

theorem exists_testExpr {op : FilterOperator} {t : ScalarType} {value : Value}
    (haccepts : op.accepts t.family = true) (htakes : op.Takes t value) (path : String)
    (column : Expr) : ∃ e, testExpr path op column value = .ok e := by
  cases op
  case isIn =>
    obtain ⟨items, rfl, -⟩ := FilterOperator.exists_items_of_takes htakes rfl
    exact ⟨_, rfl⟩
  case between =>
    obtain ⟨low, high, rest, rfl, -⟩ := FilterOperator.exists_bounds_of_takes htakes
    exact ⟨_, rfl⟩
  all_goals first | exact ⟨_, rfl⟩ | simp [FilterOperator.accepts] at haccepts

/-- The expression of a test reads the column once. -/
theorem reads_of_testExpr {op : FilterOperator} {value : Value} {path : String} {column e : Expr}
    (he : testExpr path op column value = .ok e) : e.reads = column.reads := by
  have hliterals (items : List Value) : readsOfItems (items.map .literal) = [] := by
    induction items with
    | nil => rfl
    | cons item items ih => simpa [readsOfItems, reads] using ih
  cases op <;> simp only [testExpr] at he
  case isIn =>
    split at he
    · obtain rfl := Except.ok.inj he
      simp [reads, hliterals]
    · simp at he
  case between =>
    split at he
    · obtain rfl := Except.ok.inj he
      simp [reads]
    · simp at he
  case equals | eq =>
    obtain rfl := Except.ok.inj he
    split <;> simp [reads, Expr.compare]
  all_goals
    first
    | obtain rfl := Except.ok.inj he
      simp [reads, Expr.compare, lower]
    | simp at he

/-- The expression of a test is bound by binding its column. -/
theorem bind_testExpr {op : FilterOperator} {value : Value} {path : String} {column e bound : Expr}
    {layout : List String} (he : testExpr path op column value = .ok e)
    (hbound : e.bind layout = .ok bound) :
    ∃ boundColumn, column.bind layout = .ok boundColumn ∧
      testExpr path op boundColumn value = .ok bound := by
  cases op <;> simp only [testExpr] at he
  case isIn =>
    split at he
    · obtain rfl := Except.ok.inj he
      rw [Expr.bind] at hbound
      obtain ⟨boundColumn, hcolumn, hbound⟩ := Outcome.bind_eq_ok_iff.mp hbound
      rw [bindItems_literals, Outcome.ok_bind] at hbound
      obtain rfl := Except.ok.inj hbound
      exact ⟨boundColumn, hcolumn, rfl⟩
    · simp at he
  case between =>
    split at he
    · obtain rfl := Except.ok.inj he
      obtain ⟨boundColumn, hcolumn, hbound⟩ := Outcome.bind_eq_ok_iff.mp hbound
      obtain rfl := Except.ok.inj hbound
      exact ⟨boundColumn, hcolumn, rfl⟩
    · simp at he
  case equals | eq =>
    -- such a test is `isNull` for null, and a comparison for all other values
    obtain rfl := Except.ok.inj he
    split at hbound
    · next hnull =>
      obtain ⟨boundColumn, hcolumn, hbound⟩ := Outcome.bind_eq_ok_iff.mp hbound
      obtain rfl := Except.ok.inj hbound
      exact ⟨boundColumn, hcolumn, by simp [testExpr, hnull]⟩
    · next hnull =>
      obtain ⟨boundColumn, hcolumn, hbound⟩ := Outcome.bind_eq_ok_iff.mp hbound
      obtain rfl := Except.ok.inj hbound
      exact ⟨boundColumn, hcolumn, by simp [testExpr, hnull, Expr.compare]⟩
  case equalsIc | containsIc | startsIc | endsIc =>
    obtain rfl := Except.ok.inj he
    obtain ⟨lowered, hlowered, hbound⟩ := Outcome.bind_eq_ok_iff.mp hbound
    obtain ⟨boundColumn, hcolumn, hlowered⟩ := Outcome.bind_eq_ok_iff.mp hlowered
    obtain rfl := Except.ok.inj hlowered
    obtain rfl := Except.ok.inj hbound
    exact ⟨boundColumn, hcolumn, rfl⟩
  case contains | starts | ends | gt | gte | lt | lte =>
    obtain rfl := Except.ok.inj he
    obtain ⟨boundColumn, hcolumn, hbound⟩ := Outcome.bind_eq_ok_iff.mp hbound
    obtain rfl := Except.ok.inj hbound
    exact ⟨boundColumn, hcolumn, rfl⟩
  all_goals simp at he

/-- The expression of a test is true of a row exactly if the value of the column passes the test. -/
theorem holds_testExpr {row : Row} {op : FilterOperator} {t : ScalarType} {v value : Value}
    {path : String} {column e : Expr} (haccepts : op.accepts t.family = true)
    (htakes : op.Takes t value) (hcolumn : column.eval row = .ok v) (hv : v.conforms t = true)
    (he : testExpr path op column value = .ok e) : e.holds row = .ok (op.holds v value) := by
  have hliteral : (Expr.literal value).eval row = .ok value := rfl
  -- tests on parts and regardless of case are for text only
  have htexts (htext : decide (t.family = .textual) = true) (hsingle : op.takesList = false) :
      v.conforms .text = true ∧ value.conforms .text = true := by
    obtain rfl := FilterOperator.eq_text_of_family htext
    exact ⟨hv,
      Value.conforms_text_of_comparableWith (FilterOperator.comparableWith_of_takes htakes hsingle)⟩
  cases op <;> simp only [testExpr] at he
  case isIn =>
    obtain ⟨items, rfl, -⟩ := FilterOperator.exists_items_of_takes htakes rfl
    obtain rfl := Except.ok.inj he
    exact holds_isIn hcolumn (List.forall₂_map_left_iff.mpr (List.forall₂_same.mpr fun _ _ => rfl))
  case between =>
    obtain ⟨low, high, rest, rfl, hlow, hhigh⟩ := FilterOperator.exists_bounds_of_takes htakes
    obtain rfl := Except.ok.inj he
    exact holds_between hcolumn rfl rfl (Value.exists_compare?_of_comparableWith hv hlow)
      (Value.exists_compare?_of_comparableWith hv hhigh)
  case equals | eq =>
    have hcomparable := FilterOperator.comparableWith_of_takes htakes rfl
    obtain rfl := Except.ok.inj he
    cases hnull : value.isNull with
    | true =>
        simp only [FilterOperator.holds, hnull, if_true]
        exact holds_of_eval_boolean (by simp [eval, hcolumn, evalUnary])
    | false =>
        rw [if_neg (by simp), holds_compare hcolumn hliteral
          (Value.exists_compare?_of_comparableWith hv hcomparable)]
        simp only [FilterOperator.holds, hnull]
        cases v.compare? value <;> simp [Comparison.holds]
  case gt | gte | lt | lte =>
    have hcomparable := FilterOperator.comparableWith_of_takes htakes rfl
    obtain rfl := Except.ok.inj he
    rw [holds_compare hcolumn hliteral (Value.exists_compare?_of_comparableWith hv hcomparable)]
    simp only [FilterOperator.holds]
    cases v.compare? value <;> simp [Comparison.holds]
  case and | or | not | distinct => simp at he
  case equalsIc =>
    obtain ⟨hvtext, hvaluetext⟩ := htexts haccepts rfl
    obtain rfl := Except.ok.inj he
    rw [lower, lower, holds_compare (eval_lower hcolumn hvtext) (eval_lower hliteral hvaluetext)
      (Value.exists_compare?_of_comparableWith (Value.conforms_lowered hvtext)
        (Value.comparableWith_self (Value.conforms_lowered hvaluetext))),
      Value.any_compare?_eq (Value.conforms_lowered hvtext) (Value.conforms_lowered hvaluetext),
      Value.bothTexts_lowered]
    rfl
  case contains | starts | ends =>
    obtain ⟨hvtext, hvaluetext⟩ := htexts haccepts rfl
    obtain rfl := Except.ok.inj he
    exact holds_hasPart hcolumn hliteral hvtext hvaluetext
  case containsIc | startsIc | endsIc =>
    obtain ⟨hvtext, hvaluetext⟩ := htexts haccepts rfl
    obtain rfl := Except.ok.inj he
    rw [lower, lower, holds_hasPart (eval_lower hcolumn hvtext) (eval_lower hliteral hvaluetext)
      (Value.conforms_lowered hvtext) (Value.conforms_lowered hvaluetext), Value.bothTexts_lowered]
    rfl

/-! ## Compiling -/

@[simp] theorem testColumn_none (f : Field) : testColumn .none f = f.columnPath := by
  unfold testColumn renamed? Field.columnPath FieldHooks.none
  split <;> rfl

@[simp] theorem testValue_none (f : Field) (value : Value) : testValue .none f value = value := by
  unfold testValue renamed? FieldHooks.none
  split <;> simp_all

theorem arity_of_accepts {op : FilterOperator} {family : TypeFamily}
    (haccepts : op.accepts family = true) : op.arity = .binary := by
  cases op <;> simp_all [FilterOperator.accepts, FilterOperator.arity]

theorem compileTest_eq_ok_iff {hooks : FieldHooks} {op : FilterOperator} {f : FieldRef}
    {value : Value} {compiled : Compiled} :
    compileTest hooks op f value = .ok compiled ↔
      op.accepts f.type.family = true ∧
        ∃ e, testExpr f.pathText op (.named (testColumn hooks f.field))
          (testValue hooks f.field value) = .ok e ∧
          compiled = ⟨e, false, JoinStep.merge [] f.field.joins⟩ := by
  unfold compileTest
  constructor
  · intro h
    split at h
    · simp at h
    · split at h
      · simp at h
      · next haccepts =>
        obtain ⟨e, he, h⟩ := Outcome.bind_eq_ok_iff.mp h
        rw [Outcome.mapError_eq_ok_iff] at he
        exact ⟨by simpa using haccepts, e, he, (Except.ok.inj h).symm⟩
  · rintro ⟨haccepts, e, he, rfl⟩
    simp [arity_of_accepts haccepts, haccepts, he, Except.mapError]

theorem compileTest_none_eq_ok_iff {op : FilterOperator} {f : FieldRef} {value : Value}
    {compiled : Compiled} :
    compileTest .none op f value = .ok compiled ↔
      op.accepts f.type.family = true ∧
      ∃ e, testExpr f.pathText op (.named f.field.columnPath) value = .ok e ∧
        compiled = ⟨e, false, JoinStep.merge [] f.field.joins⟩ := by
  rw [compileTest_eq_ok_iff, testColumn_none, testValue_none]

variable {c : Catalog} {root : String}

theorem exists_compile {tree : FilterTree} (hsound : tree.Sound c root) :
    ∃ compiled, tree.compile .none = .ok compiled := by
  induction tree with
  | field f => exact hsound.elim
  | literal value => exact hsound.elim
  | test op f value =>
      obtain ⟨-, haccepts, htakes⟩ := hsound
      obtain ⟨e, he⟩ := exists_testExpr haccepts htakes f.pathText (.named f.field.columnPath)
      exact ⟨_, compileTest_none_eq_ok_iff.mpr ⟨haccepts, e, he, rfl⟩⟩
  | unary op operand ih =>
      obtain ⟨rfl, hoperand⟩ := hsound
      obtain ⟨inner, hinner⟩ := ih hoperand
      exact ⟨inner.negate, by simp [compile, hinner]⟩
  | compound op left right ihleft ihright =>
      obtain ⟨hop, hleft, hright⟩ := hsound
      obtain ⟨l, hl⟩ := ihleft hleft
      obtain ⟨r, hr⟩ := ihright hright
      rcases hop with rfl | rfl | rfl
      · exact ⟨.combine .and l r, by simp [compile, hl, hr]⟩
      · exact ⟨.combine .or l r, by simp [compile, hl, hr]⟩
      · exact ⟨(Compiled.combine .and l r).asDistinct, by simp [compile, hl, hr]⟩

theorem compile_compound_eq_ok {hooks : FieldHooks} {op : FilterOperator} {left right : FilterTree}
    {compiled : Compiled} (hcompile : (compound op left right).compile hooks = .ok compiled) :
    ∃ l r, left.compile hooks = .ok l ∧ right.compile hooks = .ok r ∧
      ((op = .and ∧ compiled = .combine .and l r) ∨ (op = .or ∧ compiled = .combine .or l r) ∨
        (op = .distinct ∧ compiled = (Compiled.combine .and l r).asDistinct)) := by
  cases op <;> simp only [compile, Outcome.throw_eq_error, reduceCtorEq] at hcompile
  all_goals
    obtain ⟨l, hl, hcompile⟩ := Outcome.bind_eq_ok_iff.mp hcompile
    obtain ⟨r, hr, hcompile⟩ := Outcome.bind_eq_ok_iff.mp hcompile
    exact ⟨l, r, hl, hr, by simp [(Except.ok.inj hcompile).symm]⟩

theorem compile_unary_eq_ok {hooks : FieldHooks} {op : FilterOperator} {operand : FilterTree}
    {compiled : Compiled} (hcompile : (unary op operand).compile hooks = .ok compiled) :
    op = .not ∧ ∃ inner, operand.compile hooks = .ok inner ∧ compiled = inner.negate := by
  cases op <;> simp only [compile, Outcome.throw_eq_error, reduceCtorEq] at hcompile
  obtain ⟨inner, hinner, hcompile⟩ := Outcome.bind_eq_ok_iff.mp hcompile
  exact ⟨rfl, inner, hinner, (Except.ok.inj hcompile).symm⟩

/-- The predicate of a tree reads the columns of the fields of the tree, in their order. -/
theorem reads_of_compile {tree : FilterTree} {compiled : Compiled}
    (hcompile : tree.compile .none = .ok compiled) :
    compiled.predicate.reads = tree.fields.map fun f => f.field.columnPath := by
  induction tree generalizing compiled with
  | field f => simp [compile] at hcompile
  | literal value => simp [compile] at hcompile
  | test op f value =>
      obtain ⟨-, e, he, rfl⟩ := compileTest_none_eq_ok_iff.mp hcompile
      exact reads_of_testExpr he
  | unary op operand ih =>
      obtain ⟨rfl, inner, hinner, rfl⟩ := compile_unary_eq_ok hcompile
      change inner.predicate.reads = _
      exact ih hinner
  | compound op left right ihleft ihright =>
      obtain ⟨l, r, hl, hr, hcompiled⟩ := compile_compound_eq_ok hcompile
      have hreads : compiled.predicate.reads = l.predicate.reads ++ r.predicate.reads := by
        rcases hcompiled with ⟨-, rfl⟩ | ⟨-, rfl⟩ | ⟨-, rfl⟩ <;> rfl
      rw [hreads, ihleft hl, ihright hr, fields, List.map_append]

/-! ## Truth -/

/-- On a row that conforms to the fields of a sound tree, the predicate of the tree is true exactly
if the tree is. -/
theorem holds_of_compile {tree : FilterTree} (hsound : tree.Sound c root) {compiled : Compiled}
    (hcompile : tree.compile .none = .ok compiled) {layout : List String} {bound : Expr}
    (hbound : compiled.predicate.bind layout = .ok bound) {row : Row}
    (hwidth : row.length = layout.length)
    (hrow : ∀ f ∈ tree.fields, (row.cell layout f.field.columnPath).conforms f.type = true) :
    bound.holds row = .ok (tree.truth (row.cell layout)) := by
  induction tree generalizing compiled bound with
  | field f => exact hsound.elim
  | literal value => exact hsound.elim
  | test op f value =>
      obtain ⟨-, haccepts, htakes⟩ := hsound
      obtain ⟨-, e, he, rfl⟩ := compileTest_none_eq_ok_iff.mp hcompile
      obtain ⟨column, hcolumn, hbound⟩ := bind_testExpr he hbound
      exact holds_testExpr haccepts htakes (eval_bound_column hwidth hcolumn)
        (hrow f (List.mem_singleton.mpr rfl)) hbound
  | unary op operand ih =>
      obtain ⟨rfl, hoperand⟩ := hsound
      obtain ⟨-, inner, hinner, rfl⟩ := compile_unary_eq_ok hcompile
      obtain ⟨negated, hnegated, rfl⟩ := bind_unary_eq_ok hbound
      obtain ⟨arg, harg, rfl⟩ := bind_unary_eq_ok hnegated
      exact holds_not_isTrue (ih hoperand hinner harg hrow)
  | compound op left right ihleft ihright =>
      obtain ⟨hop, hleft, hright⟩ := hsound
      obtain ⟨l, r, hl, hr, hcompiled⟩ := compile_compound_eq_ok hcompile
      simp only [fields, List.forall_mem_append] at hrow
      -- the demand for distinct rows is about all rows; on a single one it is a conjunction
      rcases hcompiled with ⟨rfl, rfl⟩ | ⟨rfl, rfl⟩ | ⟨rfl, rfl⟩
      · obtain ⟨a, b, ha, hb, rfl⟩ := bind_binary_eq_ok hbound
        exact holds_and (ihleft hleft hl ha hrow.1) (ihright hright hr hb hrow.2)
      · obtain ⟨a, b, ha, hb, rfl⟩ := bind_binary_eq_ok hbound
        exact holds_or (ihleft hleft hl ha hrow.1) (ihright hright hr hb hrow.2)
      · obtain ⟨a, b, ha, hb, rfl⟩ := bind_binary_eq_ok hbound
        exact holds_and (ihleft hleft hl ha hrow.1) (ihright hright hr hb hrow.2)

end FilterTree

/-! ## From JSON to truth -/

/-- The way of a filter from JSON to the truth of a predicate.  A filter that is read compiles, its
predicate binds to every layout that has its columns, and on every row with null or a value of the
right type in each of these columns the predicate is true or false, as the JSON value means. -/
theorem holds_of_read {c : Catalog} {root : String} {json : Json} (hjson : json.isProper = true)
    {tree : FilterTree} (hread : FilterReader.read c root json = .ok (some tree)) :
    ∃ compiled, tree.compile .none = .ok compiled ∧
      ∀ layout : List String, (∀ name ∈ compiled.predicate.columns, name ∈ layout) →
        ∃ bound, compiled.predicate.bind layout = .ok bound ∧
          ∀ row : Row, row.length = layout.length →
            (∀ f ∈ tree.fields, (row.cell layout f.field.columnPath).conforms f.type = true) →
              bound.holds row = .ok (FilterMeaning.holds c root (row.cell layout) json) := by
  have hsound := FilterReader.sound_of_read hjson hread
  obtain ⟨compiled, hcompiled⟩ := FilterTree.exists_compile hsound
  refine ⟨compiled, hcompiled, fun layout hlayout => ?_⟩
  obtain ⟨bound, hbound⟩ := exists_bind compiled.predicate fun name hname =>
    hlayout name (mem_columns_iff.mpr hname)
  refine ⟨bound, hbound, fun row hwidth hrow => ?_⟩
  rw [FilterTree.holds_of_compile hsound hcompiled hbound hwidth hrow,
    FilterReader.truth_of_read (row.cell layout) hread]

/-- Books with their authors. -/
def Shelf.catalog : Catalog where
  entities := [
    ⟨"Author", none, ["author"], none, "id",
      [⟨"id", .scalar .int64⟩, ⟨"name", .scalar .text⟩,
        ⟨"books", .association "Book" (.toMany "author")⟩], [], []⟩,
    ⟨"Book", none, ["book"], none, "id",
      [⟨"id", .scalar .int64⟩, ⟨"title", .scalar .text⟩,
        ⟨"author", .association "Author" (.toOne "author_id")⟩], [], []⟩]
  fallback := none

/-- Books of one author, or with a title that does not start with a letter. -/
def Shelf.filter : Json :=
  .obj [("or", .arr [.obj [("author", .obj [("name", .str "Borges")])]]),
    ("not", .arr [.obj [("title", .obj [("starts", .str "A")])]])]

/-- The filter is true of a book without a title and without an author. -/
theorem holds_of_read_shelf :
    Shelf.filter.isProper = true ∧
      ∃ tree compiled bound, FilterReader.read Shelf.catalog "Book" Shelf.filter = .ok (some tree) ∧
        tree.compile .none = .ok compiled ∧
        compiled.predicate.bind ["title", "author.name"] = .ok bound ∧
          bound.holds [.null, .null] = .ok true := by
  have hread : ∃ tree, FilterReader.read Shelf.catalog "Book" Shelf.filter = .ok (some tree) ∧
      tree.fields.map (fun f => f.field.columnPath) = ["author.name", "title"] := ⟨_, rfl, rfl⟩
  obtain ⟨tree, hread, hcolumns⟩ := hread
  obtain ⟨compiled, hcompiled, hbind⟩ := holds_of_read (by decide) hread
  have hlayout : ∀ name ∈ compiled.predicate.columns, name ∈ ["title", "author.name"] := by
    intro name hname
    rw [mem_columns_iff, FilterTree.reads_of_compile hcompiled, hcolumns] at hname
    simpa [or_comm] using hname
  obtain ⟨bound, hbound, hholds⟩ := hbind ["title", "author.name"] hlayout
  refine ⟨by decide, tree, compiled, bound, hread, hcompiled, hbound, ?_⟩
  rw [hholds [.null, .null] rfl]
  · rfl
  · intro f hf
    have hcolumn : f.field.columnPath ∈ ["author.name", "title"] :=
      hcolumns ▸ List.mem_map_of_mem hf
    simp only [List.mem_cons, List.not_mem_nil, or_false] at hcolumn
    rcases hcolumn with h | h <;> rw [h] <;> rfl

end EntityQuery
