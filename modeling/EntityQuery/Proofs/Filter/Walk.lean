import EntityQuery.Filter.Walk
import EntityQuery.Proofs.Search.Predicate

/-!
# One walk compiles part by part

A walk through a tree carries a stack of renamed fields along.  A test puts its field there, if it
is renamed, and takes it off again for its own literal, so between two parts of a tree the stack is
empty and no field can replace the literal of another test.  The joins and the demand for distinct
rows are only ever added to.

## Strategy

The invariant says what a walk is after a tree, whatever it was before: the stack is still empty,
and to the rest is added what the tree gives when it is compiled on its own.  The induction is on
the tree; a test is the only place where the stack is touched, and there it is touched twice.

## Main definitions

* `FilterTree.CompilesByParts` : what is compiled of a tree is put together of what is compiled of
  its parts
* `FilterTree.TestsColumn`, `FilterTree.TestsLiteral` : what becomes of the field and the literal of
  a test

## Main statements

* `run_visit` : a walk through a tree, in the middle of a longer one
* `walked_eq_compile`, `walkedGroups_eq_compileGroups` : a walk compiles what is compiled part by
  part
* `compilesByParts_walked` : walks take trees apart
-/

namespace EntityQuery

open FilterTree

/-! ## Joins behind others -/

namespace JoinStep

/-- Joins, and behind them those of others whose paths are not there. -/
def followedBy (joins more : List JoinStep) : List JoinStep :=
  joins ++ more.filter fun join => join.path ∉ joins.map JoinStep.path

theorem merge_eq_followedBy (joins : List JoinStep) {more : List JoinStep}
    (hmore : (more.map path).Nodup) : merge joins more = followedBy joins more := by
  induction more generalizing joins with
  | nil => simp [followedBy, merge, Keyed.addAll]
  | cons join more ih =>
      rw [List.map_cons, List.nodup_cons] at hmore
      change merge (Keyed.add path joins join) more = _
      rw [ih _ hmore.2, followedBy, followedBy]
      by_cases hthere : join.path ∈ joins.map path
      · have hadd : Keyed.add path joins join = joins := if_pos (by simpa using hthere)
        rw [hadd, List.filter_cons, if_neg (by simpa using hthere)]
      · have hadd : Keyed.add path joins join = joins ++ [join] := if_neg (by simpa using hthere)
        have hfilter : (more.filter fun other => other.path ∉ (joins ++ [join]).map path) =
            more.filter fun other => other.path ∉ joins.map path := by
          refine List.filter_congr fun other hother => ?_
          have hapart : other.path ≠ join.path :=
            fun hsame => hmore.1 (hsame ▸ List.mem_map_of_mem hother)
          simp [hapart]
        rw [hadd, hfilter, List.filter_cons, if_pos (by simpa using hthere), List.append_assoc,
          List.singleton_append]

end JoinStep

/-! ## The walk -/

namespace Compiled

@[simp] theorem predicate_combine (op : BinaryOp) (left right : Compiled) :
    (combine op left right).predicate = .binary op left.predicate right.predicate := rfl

@[simp] theorem predicate_asDistinct (c : Compiled) : c.asDistinct.predicate = c.predicate := rfl

end Compiled

namespace Walk

variable {hooks : FieldHooks} {w : Walk}

/-- The walk after something that has been compiled on its own. -/
def after (w : Walk) (c : Compiled) : Walk :=
  { w with distinct := w.distinct || c.distinct, joins := JoinStep.merge w.joins c.joins }

theorem after_combine (op : BinaryOp) (left right : Compiled) :
    w.after (.combine op left right) = (w.after left).after right := by
  simp [after, Compiled.combine, JoinStep.merge_merge, Bool.or_assoc]

theorem after_asDistinct (c : Compiled) :
    w.after c.asDistinct = { w.after c with distinct := true } := by
  simp [after, Compiled.asDistinct]

theorem after_test (predicate : Expr) (joins : List JoinStep) :
    w.after ⟨predicate, false, JoinStep.merge [] joins⟩ =
      { w with joins := JoinStep.merge w.joins joins } := by
  have hjoins : JoinStep.merge w.joins (JoinStep.merge [] joins) = JoinStep.merge w.joins joins :=
    JoinStep.merge_merge ..
  rw [after, Bool.or_false, hjoins]

theorem run_column (f : Field) :
    (column hooks f).run w = .ok (testColumn hooks f,
      { w with renamed :=
        if (renamed? hooks f).isSome then f.name :: w.renamed else w.renamed }) := by
  unfold column testColumn renamed?
  split
  · rfl
  · cases hooks.column? f.owner f.name <;> rfl

/-- The literal of a test is replaced by the field of the test or not at all, and leaves the stack
empty. -/
theorem run_column_literal (hw : w.renamed = []) (f : Field) (value : Value) {α : Type}
    (next : String → Value → Visit α) :
    (do next (← column hooks f) (← literal hooks value)).run w =
      (next (testColumn hooks f) (testValue hooks f value)).run w := by
  obtain ⟨renamed, distinct, joins⟩ := w
  obtain rfl : renamed = [] := hw
  rw [StateT.run_bind, run_column, testValue]
  cases renamed? hooks f <;> rfl

theorem run_test (hw : w.renamed = []) (op : FilterOperator) (f : FieldRef) (value : Value) :
    (test hooks op f value).run w = (do
      let c ← compileTest hooks op f value
      return (c.predicate, w.after c)) := by
  unfold test compileTest
  split
  · rfl
  · split
    · rfl
    · rw [run_column_literal hw]
      simp only [StateT.run_bind, StateT.run_monadLift, bind_assoc, pure_bind, after_test, record]
      simp [StateT.run_modify]

/-- A walk through a tree gives the predicate of the tree, whatever has been seen before, and leaves
the stack empty. -/
theorem run_visit (hw : w.renamed = []) (tree : FilterTree) :
    (visit hooks tree).run w = (do
      let c ← tree.compile hooks
      return (c.predicate, w.after c)) := by
  induction tree generalizing w with
  | field f => rfl
  | literal value => rfl
  | test op f value => exact run_test hw op f value
  | unary op operand ih =>
      cases op with
      | not => simp [visit, compile, ih hw, Compiled.negate, after]
      | _ => rfl
  | compound op left right ihleft ihright =>
      -- the right part is walked through after the left one, and the stack is empty then as well
      have hright (c : Compiled) := @ihright (w.after c) hw
      cases op with
      | and | or => simp [visit, compile, FilterOperator.arity, ihleft hw, hright, after_combine]
      | distinct =>
          simp [visit, compile, FilterOperator.arity, ihleft hw, hright, after_combine,
            after_asDistinct]
      | _ => rfl

theorem run_visitGroups (hw : w.renamed = []) (before : Option Expr) (groups : List FilterTree) :
    (visitGroups hooks before groups).run w = (do
      let all ← groups.mapM (compile hooks)
      return (all.foldl (fun acc c =>
        some (acc.elim c.predicate fun e => .binary .or e c.predicate)) before,
        all.foldl after w)) := by
  induction groups generalizing w before with
  | nil => rfl
  | cons group groups ih =>
      have hrest (c : Compiled) (before : Option Expr) := @ih (w.after c) hw before
      cases before <;> simp [visitGroups, run_visit hw, hrest]

theorem foldl_after (w : Walk) (first : Compiled) (rest : List Compiled) :
    rest.foldl after (w.after first) = w.after (rest.foldl (.combine .or) first) := by
  induction rest generalizing first with
  | nil => rfl
  | cons c rest ih => rw [List.foldl_cons, List.foldl_cons, ← ih, after_combine]

end Walk

namespace Compiled

theorem foldl_combine (first : Compiled) (rest : List Compiled) :
    rest.foldl (.combine .or) first =
      ⟨rest.foldl (fun e c => .binary .or e c.predicate) first.predicate,
        first.distinct || rest.any distinct,
        rest.foldl (fun joins c => JoinStep.merge joins c.joins) first.joins⟩ := by
  induction rest generalizing first with
  | nil => simp
  | cons c rest ih => simp [ih, combine, Bool.or_assoc]

theorem foldl_some (e : Expr) (rest : List Compiled) :
    rest.foldl (fun acc c => some (acc.elim c.predicate fun e => .binary .or e c.predicate))
        (some e) =
      some (rest.foldl (fun e c => .binary .or e c.predicate) e) := by
  induction rest generalizing e with
  | nil => rfl
  | cons c rest ih => exact ih _

end Compiled

/-! ## Walks and parts -/

namespace FilterTree

variable {hooks : FieldHooks}

theorem nodup_joins_of_compile {tree : FilterTree} {c : Compiled}
    (hcompile : tree.compile hooks = .ok c) : (c.joins.map JoinStep.path).Nodup := by
  rw [joins_of_compile hcompile]
  exact Keyed.nodup_map_addAll _ _ List.nodup_nil

theorem nodup_joins_of_compileGroups {groups : List FilterTree} {c : Compiled}
    (hcompile : compileGroups hooks groups = .ok c) : (c.joins.map JoinStep.path).Nodup := by
  refine of_compileGroups (P := fun c _ => (c.joins.map JoinStep.path).Nodup) List.nodup_nil ?_
    nodup_joins_of_compile hcompile
  exact fun hleft _ => Keyed.nodup_map_addAll _ _ hleft

theorem finish_after_start {c : Compiled} (hjoins : (c.joins.map JoinStep.path).Nodup) :
    (Walk.start.after c).finish c.predicate = c := by
  have hmerge : JoinStep.merge [] c.joins = c.joins := by
    simp [JoinStep.merge_eq_followedBy [] hjoins, JoinStep.followedBy]
  simp [Walk.after, Walk.start, Walk.finish, hmerge]

/-- A walk through a tree compiles what is compiled part by part. -/
theorem walked_eq_compile (tree : FilterTree) : tree.walked hooks = tree.compile hooks := by
  rw [walked, Walk.run_visit rfl]
  cases hcompile : tree.compile hooks with
  | error fault => rfl
  | ok c => exact congrArg Except.ok (finish_after_start (nodup_joins_of_compile hcompile))

/-- A walk through several trees compiles what is compiled one by one. -/
theorem walkedGroups_eq_compileGroups (groups : List FilterTree) :
    walkedGroups hooks groups = compileGroups hooks groups := by
  rw [walkedGroups, Walk.run_visitGroups rfl]
  cases hall : groups.mapM (compile hooks) with
  | error fault => simp [compileGroups, hall]
  | ok all =>
      cases all with
      | nil => simp [compileGroups, hall, Walk.finish, Walk.start]
      | cons first rest =>
          have hgroups : compileGroups hooks groups = .ok (rest.foldl (.combine .or) first) := by
            simp [compileGroups, hall]
          have hpredicate : (rest.foldl (Compiled.combine .or) first).predicate =
              rest.foldl (fun e c => .binary .or e c.predicate) first.predicate := by
                rw [Compiled.foldl_combine]
          rw [hgroups, ← finish_after_start (nodup_joins_of_compileGroups hgroups), hpredicate,
            ← Walk.foldl_after]
          simp [Compiled.foldl_some]

/-! ## What is compiled of the parts -/

/-- The connective that stands for an operator between two filters. -/
inductive Connects : FilterOperator → BinaryOp → Prop
  | and : Connects .and .and
  | or : Connects .or .or
  | distinct : Connects .distinct .and

/-- A field that does not have an overriding column is read from another one. -/
def IsRenamed (hooks : FieldHooks) (f : Field) (other : String) : Prop :=
  f.overridden = false ∧ hooks.column? f.owner f.name = some other

/-- The column that a test of a field reads: the one that it is renamed to, else its own. -/
inductive TestsColumn (hooks : FieldHooks) (f : Field) : String → Prop
  | renamed {other : String} (hother : IsRenamed hooks f other) :
      TestsColumn hooks f (qualified f.sourcePath? other)
  | own (hkept : ∀ other, ¬ IsRenamed hooks f other) :
      TestsColumn hooks f (qualified f.sourcePath? f.column)

/-- The value that a test of a field compares with.  Only the literal of a field that is renamed
itself is replaced, and only by a value other than null. -/
inductive TestsLiteral (hooks : FieldHooks) (f : Field) (value : Value) : Value → Prop
  | kept (hkept : ∀ other, ¬ IsRenamed hooks f other) : TestsLiteral hooks f value value
  | replaced {other : String} {new : Value} (hother : IsRenamed hooks f other)
      (hnew : hooks.substitute f.name value = some new) (hnull : new.isNull = false) :
      TestsLiteral hooks f value new
  | declined {other : String} (hother : IsRenamed hooks f other)
      (hnew : ∀ new, hooks.substitute f.name value = some new → new.isNull = true) :
      TestsLiteral hooks f value value

/-- Several expressions as alternatives; without any, all rows are meant. -/
def oneOf : List Expr → Expr
  | [] => .always
  | first :: rest => rest.foldl (.binary .or) first

/-- What is compiled of a tree, and of several trees, is put together of what is compiled of their
parts alone. -/
structure CompilesByParts (hooks : FieldHooks) (tree : FilterTree → Except SearchFault Compiled)
    (groups : List FilterTree → Except SearchFault Compiled) : Prop where
  compound : ∀ op left right c, tree (.compound op left right) = .ok c ↔
    ∃ connective l r, Connects op connective ∧ tree left = .ok l ∧ tree right = .ok r ∧
      c = ⟨.binary connective l.predicate r.predicate, op = .distinct || l.distinct || r.distinct,
        JoinStep.followedBy l.joins r.joins⟩
  unary : ∀ op operand c, tree (.unary op operand) = .ok c ↔
    op = .not ∧ ∃ inner, tree operand = .ok inner ∧
      c = ⟨.unary .not (.unary .isTrue inner.predicate), inner.distinct, inner.joins⟩
  test : ∀ op (f : FieldRef) value c, tree (.test op f value) = .ok c ↔
    op.accepts f.type.family = true ∧ ∃ column literal predicate, TestsColumn hooks f.field column ∧
      TestsLiteral hooks f.field value literal ∧
      testExpr f.pathText op (.named column) literal = .ok predicate ∧
        c = ⟨predicate, false, JoinStep.merge [] f.field.joins⟩
  groups : ∀ trees c, groups trees = .ok c ↔
    ∃ parts, List.Forall₂ (fun part c => tree part = .ok c) trees parts ∧
      c = ⟨oneOf (parts.map Compiled.predicate), parts.any Compiled.distinct,
        parts.foldl (fun joins part => JoinStep.followedBy joins part.joins) []⟩

theorem isRenamed_iff {f : Field} {other : String} :
    IsRenamed hooks f other ↔ renamed? hooks f = some other := by
  unfold IsRenamed renamed?
  cases f.overridden <;> simp

theorem forall_not_isRenamed_iff {f : Field} :
    (∀ other, ¬ IsRenamed hooks f other) ↔ renamed? hooks f = none := by
  simp [isRenamed_iff, Option.eq_none_iff_forall_ne_some]

theorem testsColumn_iff {f : Field} {column : String} :
    TestsColumn hooks f column ↔ column = testColumn hooks f := by
  unfold testColumn
  constructor
  · rintro (hother | hkept)
    · rw [isRenamed_iff.mp hother, Option.getD_some]
    · rw [forall_not_isRenamed_iff.mp hkept, Option.getD_none]
  · rintro rfl
    cases hrenamed : renamed? hooks f with
    | none => exact .own (forall_not_isRenamed_iff.mpr hrenamed)
    | some other => exact .renamed (isRenamed_iff.mpr hrenamed)

theorem testsLiteral_iff {f : Field} {value literal : Value} :
    TestsLiteral hooks f value literal ↔ literal = testValue hooks f value := by
  unfold testValue FieldHooks.literal
  constructor
  · rintro (hkept | ⟨hother, hnew, hnull⟩ | ⟨hother, hnew⟩)
    · simp [forall_not_isRenamed_iff.mp hkept]
    · simp [isRenamed_iff.mp hother, hnew, hnull]
    · cases hsubstitute : hooks.substitute f.name value with
      | none => simp
      | some new => simp [hnew new hsubstitute]
  · rintro rfl
    cases hrenamed : renamed? hooks f with
    | none => exact .kept (forall_not_isRenamed_iff.mpr hrenamed)
    | some other =>
        have hother := isRenamed_iff.mpr hrenamed
        cases hsubstitute : hooks.substitute f.name value with
        | none => exact .declined hother (by simp [hsubstitute])
        | some new =>
            cases hnull : new.isNull with
            | false => simpa [hnull] using TestsLiteral.replaced hother hsubstitute hnull
            | true =>
                have hnew (other : Value) (hother : hooks.substitute f.name value = some other) :
                    other.isNull = true := by
                  rwa [← Option.some.inj (hsubstitute.symm.trans hother)]
                simpa [hnull] using TestsLiteral.declined hother hnew

theorem combine_eq {op : BinaryOp} {l r : Compiled} {right : FilterTree}
    (hr : right.compile hooks = .ok r) :
    Compiled.combine op l r =
      ⟨.binary op l.predicate r.predicate, l.distinct || r.distinct,
        JoinStep.followedBy l.joins r.joins⟩ := by
  rw [Compiled.combine, JoinStep.merge_eq_followedBy _ (nodup_joins_of_compile hr)]

theorem compile_compound_eq_ok_iff {op : FilterOperator} {left right : FilterTree} {c : Compiled} :
    (compound op left right).compile hooks = .ok c ↔
      ∃ connective l r, Connects op connective ∧ left.compile hooks = .ok l ∧
        right.compile hooks = .ok r ∧
        c = ⟨.binary connective l.predicate r.predicate, op = .distinct || l.distinct || r.distinct,
          JoinStep.followedBy l.joins r.joins⟩ := by
  constructor
  · intro hcompile
    obtain ⟨l, r, hl, hr, ⟨rfl, rfl⟩ | ⟨rfl, rfl⟩ | ⟨rfl, rfl⟩⟩ := compile_compound_eq_ok hcompile
    · exact ⟨_, l, r, .and, hl, hr, combine_eq hr⟩
    · exact ⟨_, l, r, .or, hl, hr, combine_eq hr⟩
    · exact ⟨_, l, r, .distinct, hl, hr, by simp [combine_eq hr, Compiled.asDistinct]⟩
  · rintro ⟨connective, l, r, hconnects, hl, hr, rfl⟩
    cases hconnects <;> simp [compile, hl, hr, combine_eq hr, Compiled.asDistinct]

theorem compileGroups_eq_ok_iff {trees : List FilterTree} {c : Compiled} :
    compileGroups hooks trees = .ok c ↔
      ∃ parts, List.Forall₂ (fun part c => part.compile hooks = .ok c) trees parts ∧
        c = ⟨oneOf (parts.map Compiled.predicate), parts.any Compiled.distinct,
          parts.foldl (fun joins part => JoinStep.followedBy joins part.joins) []⟩ := by
  unfold compileGroups
  rw [Outcome.bind_eq_ok_iff]
  refine exists_congr fun parts => ?_
  rw [Outcome.mapM_eq_ok_iff]
  refine and_congr_right fun hparts => ?_
  cases parts with
  | nil => simp [oneOf, eq_comm]
  | cons first rest =>
      have hnodup (part : Compiled) (hpart : part ∈ first :: rest) :
          (part.joins.map JoinStep.path).Nodup := by
        obtain ⟨tree, -, htree⟩ := Outcome.exists_of_mem_right hparts hpart
        exact nodup_joins_of_compile htree
      have hjoins : rest.foldl (fun joins part => JoinStep.merge joins part.joins) first.joins =
          rest.foldl (fun joins part => JoinStep.followedBy joins part.joins) first.joins :=
        List.foldl_ext _ _ _ fun joins part hpart =>
          JoinStep.merge_eq_followedBy joins (hnodup part (List.mem_cons_of_mem _ hpart))
      have hfirst : JoinStep.followedBy [] first.joins = first.joins := by
        simp [JoinStep.followedBy]
      simp [Compiled.foldl_combine, oneOf, List.foldl_map, hjoins, hfirst, eq_comm]

theorem compilesByParts_compile (hooks : FieldHooks) :
    CompilesByParts hooks (compile hooks) (compileGroups hooks) where
  compound _ _ _ _ := compile_compound_eq_ok_iff
  unary op operand c := by
    constructor
    · intro hcompile
      exact compile_unary_eq_ok hcompile
    · rintro ⟨rfl, inner, hinner, rfl⟩
      simp [compile, hinner, Compiled.negate]
  test op f value c := by
    rw [compile, compileTest_eq_ok_iff]
    simp only [testsColumn_iff, testsLiteral_iff]
    simp
  groups _ _ := compileGroups_eq_ok_iff

/-- In one walk, trees are compiled part by part: nothing that is carried along gets from one part
into another.  The column of a field that is not renamed is the overriding one, if there is one, and
else has the name of the attribute. -/
theorem compilesByParts_walked (hooks : FieldHooks) :
    CompilesByParts hooks (walked hooks) (walkedGroups hooks) ∧ walked hooks = compile hooks ∧
      walkedGroups hooks = compileGroups hooks ∧
      ∀ (c : Catalog) (root : String) (path : Path) (f : Field), c.field root path = .ok f →
        f.overridden = (c.override? f.owner f.name).isSome ∧
        f.column = (c.override? f.owner f.name).getD f.name := by
  have hwalked : walked hooks = compile hooks := funext walked_eq_compile
  have hgroups : walkedGroups hooks = compileGroups hooks := funext walkedGroups_eq_compileGroups
  refine ⟨?_, hwalked, hgroups, fun c root path f hfield => ?_⟩
  · rw [hwalked, hgroups]
    exact compilesByParts_compile hooks
  · obtain ⟨joins, owner, a, kind, -, -, -, rfl⟩ := Catalog.field_eq_ok_iff.mp hfield
    exact ⟨rfl, rfl⟩

end FilterTree

/-- Titles of books are read from another column and written in capitals there. -/
def Shelf.hooks : FieldHooks := .ofTable [("Book", "title", "headline")] Substitution.upper

/-- The title of a book. -/
def Shelf.title : FieldRef := ⟨⟨⟨[], "title"⟩, "Book", "title", .scalar .text, false, []⟩, .text⟩

/-- The name of the author of a book. -/
def Shelf.authorName : FieldRef :=
  ⟨⟨⟨["author"], "name"⟩, "Author", "name", .scalar .text, false,
    [⟨"author", "Book", "author", "Author", .toOne "author_id"⟩]⟩, .text⟩

/-- The literal beside the title is replaced, and the one beside the name, which comes next, is
not. -/
theorem FilterTree.walked_shelf :
    Shelf.catalog.field "Book" ⟨["author"], "name"⟩ = .ok Shelf.authorName.field ∧
      Shelf.authorName.field.overridden = false ∧
      ∃ c, walked Shelf.hooks (.compound .and (.test .equals Shelf.title (.text "Dune"))
          (.test .equals Shelf.authorName (.text "Herbert"))) = .ok c ∧
        c.predicate = .binary .and (.compare .eq (.named "headline") (.literal (.text "DUNE")))
          (.compare .eq (.named "author.name") (.literal (.text "Herbert"))) ∧
        c.joins = Shelf.authorName.field.joins := by
  obtain ⟨hparts, -, -, hfields⟩ := compilesByParts_walked Shelf.hooks
  have hfield : Shelf.catalog.field "Book" ⟨["author"], "name"⟩ = .ok Shelf.authorName.field := rfl
  have htitle := (hparts.test .equals Shelf.title (.text "Dune") _).mpr
    ⟨rfl, _, _, _, .renamed ⟨rfl, rfl⟩, .replaced ⟨rfl, rfl⟩ rfl rfl, rfl, rfl⟩
  have hkept (other : String) : ¬ IsRenamed Shelf.hooks Shelf.authorName.field other := by
    rintro ⟨-, hother⟩
    exact nomatch (rfl : Shelf.hooks.column? "Author" "name" = none).symm.trans hother
  have hname := (hparts.test .equals Shelf.authorName (.text "Herbert") _).mpr
    ⟨rfl, _, _, _, .own hkept, .kept hkept, rfl, rfl⟩
  have hboth := (hparts.compound ..).mpr ⟨_, _, _, .and, htitle, hname, rfl⟩
  exact ⟨hfield, (hfields _ _ _ _ hfield).1, _, hboth, rfl, rfl⟩

end EntityQuery
