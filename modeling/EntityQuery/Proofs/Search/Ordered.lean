import EntityQuery.Proofs.Catalog.Complete
import EntityQuery.Proofs.Search.Count

/-!
# Plans whose joins are in order

A plan is carried out from its first join to its last one, so it must not name anything that is not
there yet.  That is so for every plan that is made: no path is joined twice, a path is joined after
the paths that it continues, every join starts from a column of the rows joined so far, and whatever
the plan groups by, aggregates or shows is a column of the joined rows.  Renaming fields changes the
columns of the predicate alone.

The joins of a plan are those of closed steps, which grow at the end; so do the rows joined so far.
The invariant is that a column of the table at a place is a column of the rows joined so far, under
the names of the place.  Here tables may have columns in common, and several attributes one column:
a column is told by its name alone.

## Main definitions

* `Catalog.HasColumn` : the table of an entity has a column
* `Catalog.Reaches` : rows of the root to which some tables are joined have a column
* `Join.Continues` : a join finds what it starts from in the rows joined so far
* `Plan.Ordered` : the joins of a plan are in order, and all that it shows is there

## Main statements

* `Closed.continues_last` : the join of one more step continues the joins so far
* `Closed.continues` : every join continues those in front of it
* `ordered_of_plan` : plans are ordered, and without renaming their predicates read columns that are
  there
-/

namespace EntityQuery

variable {c : Catalog} {entities : List Entity} {fallback : Option ScalarType}
  {root marker : String} {steps : List JoinStep} {places : List Place} {joins : List Join}

/-! ## Columns of joined rows -/

namespace Catalog

/-- The table of an entity has a column of the name. -/
def HasColumn (c : Catalog) (entity name : String) : Prop :=
  ∃ schema, c.HasSchema entity schema ∧ name ∈ schema.names

/-- Rows of the root to which some tables are joined have a column of the name: one of the root, or
one of a joined table behind the path of its join. -/
def Reaches (c : Catalog) (root : String) (joins : List Join) (name : String) : Prop :=
  c.HasColumn root name ∨ ∃ j ∈ joins, ∃ column, c.HasColumn j.entity column ∧
    name = j.path ++ "." ++ column

theorem exists_hasSchema (haccepted : Catalog.of entities fallback = .ok c) (hrepeat : c.Unrepeated)
    (entity : String) : ∃ schema, c.HasSchema entity schema := by
  obtain ⟨columns, hcolumns⟩ := exists_tableColumns haccepted hrepeat entity
  exact ⟨_, columns, hcolumns, rfl⟩

theorem hasColumn_of_stores (haccepted : Catalog.of entities fallback = .ok c)
    (hrepeat : c.Unrepeated) {entity : String} {column : Column}
    (hstores : c.Stores entity column) : c.HasColumn entity column.name := by
  obtain ⟨schema, hschema⟩ := exists_hasSchema haccepted hrepeat entity
  exact ⟨schema, hschema, hschema.name_mem_of_stores hrepeat hstores⟩

theorem hasColumn_of_field (haccepted : Catalog.of entities fallback = .ok c)
    (hrepeat : c.Unrepeated) {path : Path} {f : Field} (hfield : c.field root path = .ok f)
    (hscalar : f.isComplex = false) : c.HasColumn f.owner f.column := by
  rw [Field.isComplex, Option.isNone_eq_false_iff, Option.isSome_iff_exists] at hscalar
  obtain ⟨type, htype⟩ := hscalar
  obtain ⟨schema, hschema⟩ := exists_hasSchema haccepted hrepeat f.owner
  exact hasColumn_of_stores haccepted hrepeat
    (HasSchema.stores_of_field hrepeat hfield htype hschema)

theorem Reaches.append {name : String} (hreaches : c.Reaches root joins name) (more : List Join) :
    c.Reaches root (joins ++ more) name := by
  refine hreaches.imp_right fun ⟨j, hj, hcolumn⟩ => ?_
  exact ⟨j, List.mem_append_left more hj, hcolumn⟩

end Catalog

/-! ## Joins of steps -/

namespace Planner

theorem paths_of_joins (hjoins : steps.mapM (join c) = .ok joins) :
    joins.map Join.path = steps.map JoinStep.path :=
  Outcome.map_of_mapM (fun _ _ {_} hj => (path_of_join hj).1) hjoins

end Planner

/-- A join continues the rows joined so far: its path leads on from one that is joined, or from the
root, its left key is a column of the joined rows, and its right key one of its own table. -/
structure Join.Continues (c : Catalog) (root : String) (before : List Join) (j : Join) : Prop where
  parent : ∀ path name, j.path = path ++ "." ++ name → ∃ i ∈ before, i.path = path
  table : ∃ e, c.entity? j.entity = some e ∧ j.table = e.tableName
  leftKey : c.Reaches root before j.leftKey
  rightKey : c.HasColumn j.entity j.rightKey

namespace Closed

/-- No path is joined twice. -/
theorem nodup_paths (hnames : c.DotlessNames) (hclosed : Closed c root steps places) :
    (steps.map JoinStep.path).Nodup := by
  induction hclosed with
  | root => exact List.nodup_nil
  | @snoc steps places p name target a cardinality hclosed hp ha htype hoverride hnew ih =>
      have hlast := (Closed.snoc hclosed hp ha htype hoverride hnew).dotless hnames
        (List.mem_append_right _ (List.mem_singleton.mpr rfl))
      rw [List.map_append, List.nodup_append]
      refine ⟨ih, List.nodup_singleton _, ?_⟩
      rintro path hpath _ hsame rfl
      obtain ⟨q, hq, hne, hdotted⟩ := hclosed.mem_paths_iff.mp hpath
      rw [List.map_singleton, List.mem_singleton] at hsame
      exact hnew q hq (Path.dotted_injective hne (by simp) (hclosed.dotless hnames hq) hlast
        (hdotted.trans hsame))

/-- The names in front of those of a place lead to a place. -/
theorem exists_of_prefix (hclosed : Closed c root steps places) {p : Place} (hp : p ∈ places)
    {front back : List String} (hsplit : p.names = front ++ back) :
    ∃ q ∈ places, q.names = front := by
  induction hclosed generalizing p back with
  | root =>
      obtain rfl := List.mem_singleton.mp hp
      exact ⟨_, hp, (List.append_eq_nil_iff.mp hsplit.symm).1.symm⟩
  | @snoc steps places parent name target a cardinality hclosed hparent ha htype
      hoverride hnew ih =>
      rcases List.mem_append.mp hp with hold | hlast
      · obtain ⟨q, hq, hfront⟩ := ih hold hsplit
        exact ⟨q, List.mem_append_left _ hq, hfront⟩
      · obtain rfl := List.mem_singleton.mp hlast
        -- either all names are in front, or the last one is not and the others are those of the
        -- parent
        cases back using List.reverseRecOn with
        | nil => exact ⟨_, hp, by simpa using hsplit⟩
        | append_singleton back last =>
            rw [← List.append_assoc] at hsplit
            obtain ⟨q, hq, hfront⟩ := ih hparent (List.append_inj_left' hsplit rfl)
            exact ⟨q, List.mem_append_left _ hq, hfront⟩

/-- The columns of the table at a place are columns of the joined rows, under the names of the
place. -/
theorem reaches (hclosed : Closed c root steps places)
    (hjoins : steps.mapM (Planner.join c) = .ok joins) {p : Place} (hp : p ∈ places)
    {column : String} (hcolumn : c.HasColumn p.entity column) :
    c.Reaches root joins (Path.dotted (p.names ++ [column])) := by
  induction hclosed generalizing joins p with
  | root =>
      obtain rfl := List.mem_singleton.mp hp
      exact .inl (by simpa using hcolumn)
  | @snoc steps places parent name target a cardinality hclosed hparent ha htype
      hoverride hnew ih =>
      obtain ⟨before, last, hbefore, hlast, rfl⟩ := Outcome.mapM_append_singleton_eq_ok hjoins
      rcases List.mem_append.mp hp with hp | hp
      · exact (ih hbefore hp hcolumn).append [last]
      · obtain rfl := List.mem_singleton.mp hp
        obtain ⟨hpath, hentity⟩ := Planner.path_of_join hlast
        refine .inr ⟨last, by simp, column, ?_, ?_⟩
        · rwa [hentity]
        · rw [hpath, Path.dotted_append (by simp)]

/-- The join of one more step continues the joins so far. -/
theorem continues_last (haccepted : Catalog.of entities fallback = .ok c) (hrepeat : c.Unrepeated)
    (hnames : c.DotlessNames) (hclosed : Closed c root steps places)
    (hjoins : steps.mapM (Planner.join c) = .ok joins) {p : Place} (hp : p ∈ places)
    {name target : String} {a : Attribute} {cardinality : Cardinality}
    (ha : c.attribute? p.entity name = some a) (htype : a.type = .association target cardinality)
    (hoverride : c.override? p.entity name = none) {j : Join}
    (hj : Planner.join c ⟨Path.dotted (p.names ++ [name]), p.entity, name, target,
      cardinality⟩ = .ok j) : j.Continues c root joins := by
  have hdotless : ∀ n ∈ p.names ++ [name], Path.Dotless n := by
    rw [List.forall_mem_append]
    exact ⟨hclosed.dotless hnames hp, by simpa using Catalog.dotless_of_attribute? hnames ha⟩
  obtain ⟨own, hown⟩ := Catalog.exists_hasSchema haccepted hrepeat p.entity
  obtain ⟨other, hother⟩ := Catalog.exists_hasSchema haccepted hrepeat target
  obtain ⟨hpath, rfl⟩ := Planner.path_of_join hj
  obtain ⟨column, type, hleft, hsource, htarget⟩ :=
    exists_stored_of_join haccepted hrepeat hdotless ha htype hoverride hown hother hj
  refine ⟨fun path last hsplit => ?_, Planner.exists_entity_of_join hj, ?_,
    Catalog.hasColumn_of_stores haccepted hrepeat htarget⟩
  · -- a path in front of a point is that of some first names, which lead to a place that is joined
    rw [hpath] at hsplit
    obtain ⟨first, rest, happend, hfirst, hrest, rfl⟩ :=
      Path.exists_append_of_dotted (by simp) hdotless hsplit
    obtain ⟨rest, last, rfl⟩ := (List.eq_nil_or_concat rest).resolve_left hrest
    rw [List.concat_eq_append, ← List.append_assoc] at happend
    obtain ⟨q, hq, rfl⟩ := hclosed.exists_of_prefix hp (List.append_inj_left' happend rfl)
    have hjoined : Path.dotted q.names ∈ joins.map Join.path := by
      rw [Planner.paths_of_joins hjoins]
      exact hclosed.mem_paths_iff.mpr ⟨q, hq, hfirst, rfl⟩
    exact List.mem_map.mp hjoined
  · rw [hleft]
    exact hclosed.reaches hjoins hp (Catalog.hasColumn_of_stores haccepted hrepeat hsource)

/-- Every join continues those in front of it. -/
theorem continues (haccepted : Catalog.of entities fallback = .ok c) (hrepeat : c.Unrepeated)
    (hnames : c.DotlessNames) (hclosed : Closed c root steps places)
    (hjoins : steps.mapM (Planner.join c) = .ok joins) {before after : List Join} {j : Join}
    (hsplit : joins = before ++ j :: after) : j.Continues c root before := by
  induction hclosed generalizing joins after with
  | root =>
      obtain rfl := Except.ok.inj hjoins
      simp at hsplit
  | snoc hclosed hp ha htype hoverride hnew ih =>
      obtain ⟨init, last, hinit, hlast, rfl⟩ := Outcome.mapM_append_singleton_eq_ok hjoins
      cases after using List.reverseRecOn with
      | nil =>
          obtain rfl : init = before := List.append_inj_left' hsplit rfl
          obtain rfl : last = j := by simpa using hsplit
          exact hclosed.continues_last haccepted hrepeat hnames hinit hp ha htype hoverride hlast
      | append_singleton after _ =>
          rw [← List.cons_append, ← List.append_assoc] at hsplit
          exact ih hinit (List.append_inj_left' hsplit rfl)

theorem reaches_of_field (haccepted : Catalog.of entities fallback = .ok c) (hrepeat : c.Unrepeated)
    (hclosed : Closed c root steps places) (hjoins : steps.mapM (Planner.join c) = .ok joins)
    {f : Field} (hfield : c.field root f.path = .ok f) (hscalar : f.isComplex = false)
    (hplace : ⟨f.path.steps, f.owner⟩ ∈ places) : c.Reaches root joins f.columnPath := by
  rw [Field.columnPath_of_field hfield]
  exact hclosed.reaches hjoins hplace (Catalog.hasColumn_of_field haccepted hrepeat hfield hscalar)

end Closed

/-! ## Plans -/

/-- The joins of a plan for a root are in order, and what it groups by, aggregates, shows and orders
by is there. -/
structure Plan.Ordered (c : Catalog) (root : String) (p : Plan) : Prop where
  table : ∃ e, c.entity? root = some e ∧ p.table = e.tableName
  /-- No path is joined twice. -/
  paths : (p.joins.map Join.path).Nodup
  joins : ∀ before j after, p.joins = before ++ j :: after → j.Continues c root before
  groupBy : ∀ column ∈ p.groupBy, c.Reaches root p.joins column
  aggregates : ∀ item ∈ p.aggregates, c.Reaches root p.joins item.column
  /-- Without groups and aggregates columns of the joined rows are shown, otherwise groups and
  aggregates. -/
  projection : p.isAggregate = false → ∀ shown ∈ p.projection, c.Reaches root p.joins shown.column
  grouped : p.isAggregate = true → ∀ shown ∈ p.projection,
    shown.column ∈ p.groupBy ∨ shown.column ∈ p.aggregates.map AggregateItem.label
  orderBy : ∀ item ∈ p.orderBy, item.label ∈ p.projection.map Projected.label

/-- Every plan that is made for a request that tests scalar fields of the catalog is ordered,
whatever fields are renamed to.  If none are, the columns that its predicate reads are there as
well. -/
theorem Planner.ordered_of_plan (haccepted : Catalog.of entities fallback = .ok c)
    (hrepeat : c.Unrepeated) (hnames : c.DotlessNames) {r : Request}
    (htested : ∀ f ∈ r.fields, c.field root f.field.path = .ok f.field ∧ f.field.isComplex = false)
    {hooks : FieldHooks} {window : Option Window} {planned : Planned}
    (hplan : Planner.plan c root marker hooks r window = .ok planned) :
    planned.plan.Ordered c root ∧
      (hooks = .none → ∀ name ∈ planned.plan.predicate.columns,
        c.Reaches root planned.plan.joins name) := by
  obtain ⟨e, id, compiled, shown, shape, joins, he, -, hcompiled, hshown, hjoins, rfl⟩ :=
    Planner.plan_eq_ok hplan
  have hentity := Catalog.knows_of_entity he
  obtain ⟨type, htype⟩ := Catalog.exists_idType haccepted ⟨e, hentity⟩
  obtain ⟨fields, hrests⟩ := Planner.exists_rests hrepeat htype hshown
  rw [hrests.joins] at hjoins
  -- the joins of the plan lead to the owners of all fields that it tests or shows
  obtain ⟨steps, places, hsteps, hclosed, hplaces, hshownPlaces⟩ :=
    Request.exists_closed hnames (fun f hf => (htested f hf).1) hcompiled hrests.resolved hjoins
  have hreaches {column : String} (h : ∃ f ∈ fields, f.Shows c root column) :
      c.Reaches root joins column := by
    obtain ⟨f, hf, hshows⟩ := h
    rw [← hshows.column]
    exact hclosed.reaches_of_field haccepted hrepeat hsteps hshows.field hshows.scalar
      (hshownPlaces f hf)
  refine ⟨⟨⟨e, hentity, rfl⟩, ?_, ?_, ?_, ?_, ?_, ?_, hrests.orderBy⟩, ?_⟩
  -- no path is joined twice, and each continues one before it
  · rw [Planner.paths_of_joins hsteps]
    exact hclosed.nodup_paths hnames
  · intro before j after hsplit
    exact hclosed.continues haccepted hrepeat hnames hsteps hsplit
  -- groups, aggregates and shown columns are those of fields
  · exact fun column hcolumn => hreaches (hrests.groupBy column hcolumn)
  · intro item hitem
    obtain ⟨f, hf, hshows, -⟩ := hrests.aggregates item hitem
    exact hreaches ⟨f, hf, hshows⟩
  · intro hplain p hp
    obtain ⟨haggregates, hgroupBy⟩ : shown.aggregates = [] ∧ shown.groupBy = [] := by
      simpa [Plan.isAggregate] using hplain
    rcases hrests.projection p hp with ⟨-, -, hfield⟩ | hgroup | hlabel
    · exact hreaches hfield
    · simp [hgroupBy] at hgroup
    · simp [haggregates] at hlabel
  · intro haggregate p hp
    rcases hrests.projection p hp with ⟨hgroupBy, haggregates, -⟩ | hshownColumn
    · simp [Plan.isAggregate, hgroupBy, haggregates] at haggregate
    · exact hshownColumn
  -- without renaming the predicate reads the columns of the tested fields
  · rintro rfl name hname
    rw [Expr.mem_columns_iff, Request.reads_of_predicate hcompiled] at hname
    obtain ⟨f, hf, rfl⟩ := List.mem_map.mp hname
    exact hclosed.reaches_of_field haccepted hrepeat hsteps (htested f hf).1 (htested f hf).2
      (hplaces f hf)

/-- A request for the authors of the books of every author who has written a book with some letter
in its title. -/
def Shelf.companions : WireRequest :=
  { WireRequest.empty with
    filters := [Shelf.booksFilter]
    fields := [⟨"books.author.name", some "companion", some 1, .asc⟩] }

/-- The books are joined in front of their authors. -/
theorem Planner.ordered_of_plan_shelf :
    Shelf.catalog.Unrepeated ∧ Shelf.catalog.DotlessNames ∧
      ∃ r planned, Shelf.search.read Shelf.companions = .ok r ∧
        Shelf.search.planFor r none = .ok planned ∧
        planned.plan.joins.map Join.path = ["books", "books.author"] ∧
        planned.plan.Ordered Shelf.catalog "Author" ∧
        ∀ name ∈ planned.plan.predicate.columns,
          Shelf.catalog.Reaches "Author" planned.plan.joins name := by
  have hmade : ((Shelf.search.read Shelf.companions).toOption.any fun r =>
      (Shelf.search.planFor r none).toOption.any fun planned =>
        planned.plan.joins.map Join.path = ["books", "books.author"]) = true := by
    decide +kernel
  simp only [Option.any_eq_true, Outcome.toOption_eq_some_iff, decide_eq_true_eq] at hmade
  obtain ⟨r, hread, planned, hplan, hpaths⟩ := hmade
  have haccepted : Catalog.of Shelf.catalog.entities none = .ok Shelf.catalog := rfl
  have hrepeat : Shelf.catalog.Unrepeated := by decide
  have hnames : Shelf.catalog.DotlessNames := by decide
  have htested : ∀ f ∈ r.fields, Shelf.catalog.field "Author" f.field.path = .ok f.field ∧
      f.field.isComplex = false := by
    have hsound := WireRequest.sound_of_read rfl hread
    intro f hf
    obtain ⟨hfield, htype⟩ := hsound.resolved f hf
    exact ⟨hfield, by simp [Field.isComplex, htype]⟩
  obtain ⟨hordered, hcolumns⟩ := Planner.ordered_of_plan haccepted hrepeat hnames htested hplan
  exact ⟨hrepeat, hnames, r, planned, hread, hplan, hpaths, hordered, hcolumns rfl⟩

end EntityQuery
