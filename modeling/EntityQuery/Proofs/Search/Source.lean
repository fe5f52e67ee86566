import EntityQuery.Proofs.Search.Predicate
import EntityQuery.Proofs.Search.Shown
import EntityQuery.Proofs.Store.Expansion
import EntityQuery.Search.Run

/-!
# The joined rows of a plan

The joins of a plan are those of its predicate, followed by what the shown columns need besides.
They are closed, so the flow of joined rows can be built; its schema has the columns of all fields
of the plan, so the predicate can be bound and passes its check; and the rows conform to the schema,
so the predicate is never undefined.  What is left are the rows of the expansions for which the
request is true.

Whether the request is true of some row of an expansion depends on the joins of the predicate alone:
all further joins expand every row to at least one, and leave the columns of the predicate as they
are.

## Main definitions

* `Store.satisfies` : some row of the expansion of a row satisfies a request
* `Search.matching` : the rows of the root that a search is about
* `Store.joinedRows`, `Store.Sourced` : the joined rows of a plan
* `Planned.Built` : a plan with what it is put together from

## Main statements

* `plan_eq_ok` : what a plan is put together from
* `exists_source`, `nonempty_built` : the joined rows of a plan
* `any_expand_eq` : joins besides those of the predicate do not matter to it
-/

namespace EntityQuery

variable {c : Catalog} {entities : List Entity} {fallback : Option ScalarType}
  {root marker : String} {s : Store} {r : Request} {e : Entity} {table : Table}

/-! ## The rows that a search is about -/

/-- Some row that joins make of a row of the root satisfies the filters and parameters of a
request. -/
def Store.satisfies (s : Store) (r : Request) (joins : List Join) (schema : Schema)
    (row : Row) : Bool :=
  (s.expand joins schema row).any fun expanded =>
    r.truth (expanded.cell (s.joinedSchema joins schema).names)

/-- The rows of the root with some row in their expansion, over the associations that the filters
and parameters use, that satisfies these. -/
def Search.matching (search : Search) (store : Store) (r : Request) :
    Except SearchFault (List Row) := do
  let e ← search.catalog.entity search.root
  let joins ← r.joinSteps.mapM (Planner.join search.catalog)
  let table := store.tableNamed e.tableName
  return table.rows.filter (store.satisfies r joins table.schema)

/-! ## Plans -/

/-- What a plan is put together from. -/
theorem Planner.plan_eq_ok {hooks : FieldHooks} {window : Option Window} {planned : Planned}
    (hplan : Planner.plan c root marker hooks r window = .ok planned) :
    ∃ e id compiled shown shape joins, c.entity root = .ok e ∧ c.idAttribute root = .ok id ∧
      Planner.predicate hooks r = .ok compiled ∧
      Planner.shown c root marker r = .ok (shown, shape) ∧
      (JoinStep.merge compiled.joins shown.joins).mapM (Planner.join c) = .ok joins ∧
      planned = {
        shape
        plan := {
          entity := root
          table := e.tableName
          idColumn := c.columnName root id.name
          joins
          predicate := compiled.predicate
          distinct := compiled.distinct || (shape = .entities && joins.any Join.toMany)
          projection := shown.projection
          groupBy := shown.groupBy
          aggregates := shown.aggregates
          orderBy := shown.orderBy
          window } } := by
  obtain ⟨e, he, hplan⟩ := Outcome.bind_eq_ok_iff.mp hplan
  obtain ⟨id, hid, hplan⟩ := Outcome.bind_eq_ok_iff.mp hplan
  obtain ⟨compiled, hcompiled, hplan⟩ := Outcome.bind_eq_ok_iff.mp hplan
  obtain ⟨⟨shown, shape⟩, hshown, hplan⟩ := Outcome.bind_eq_ok_iff.mp hplan
  obtain ⟨joins, hjoins, hplan⟩ := Outcome.bind_eq_ok_iff.mp hplan
  exact ⟨e, id, compiled, shown, shape, joins, he, hid, hcompiled, hshown, hjoins,
    (Except.ok.inj hplan).symm⟩

/-! ## Columns of fields -/

theorem Laid.mem_of_place (haccepted : Catalog.of entities fallback = .ok c) (hplain : c.Plain)
    (hfits : s.Fits c) (hroot : c.Knows root) {steps : List JoinStep} {places : List Place}
    (hclosed : Closed c root steps places) {schema : Schema} (hlaid : Laid c places schema)
    {f : Field} (hfield : c.field root f.path = .ok f) {type : ScalarType}
    (htype : f.type? = some type) (hplace : ⟨f.path.steps, f.owner⟩ ∈ places) :
    ⟨f.columnPath, type⟩ ∈ schema := by
  obtain ⟨owner, howner⟩ := hclosed.knows haccepted hplain.attributes hroot hplace
  obtain ⟨own, -, hown, -⟩ := hfits.exists_table howner
  exact hlaid.mem_of_field hplain hfield htype hplace hown

/-- The joins of the tested fields of a request, followed by those of shown fields, are closed and
lead to the places of all of them. -/
theorem Request.exists_closed (hnames : c.DotlessNames)
    (htested : ∀ f ∈ r.fields, c.field root f.field.path = .ok f.field) {hooks : FieldHooks}
    {compiled : Compiled} (hcompiled : Planner.predicate hooks r = .ok compiled)
    {fields : List Field} (hfields : ∀ f ∈ fields, c.field root f.path = .ok f) {joins : List Join}
    (hjoins : (JoinStep.merge compiled.joins (fields.flatMap Field.joins)).mapM (Planner.join c) =
      .ok joins) :
    ∃ steps places, steps.mapM (Planner.join c) = .ok joins ∧ Closed c root steps places ∧
      (∀ f ∈ r.fields, ⟨f.field.path.steps, f.field.owner⟩ ∈ places) ∧
      ∀ f ∈ fields, ⟨f.path.steps, f.owner⟩ ∈ places := by
  rw [Request.joins_of_predicate hcompiled, Request.joinSteps, ← JoinStep.merge_append] at hjoins
  have hflat : (r.fields.flatMap fun f => f.field.joins) =
      (r.fields.map FieldRef.field).flatMap Field.joins := by
    rw [List.flatMap_map]
  rw [hflat, ← List.flatMap_append] at hjoins
  have hall : ∀ f ∈ r.fields.map FieldRef.field ++ fields, c.field root f.path = .ok f := by
    rw [List.forall_mem_append, List.forall_mem_map]
    exact ⟨htested, hfields⟩
  obtain ⟨steps, places, hmerge, hclosed, hplaces⟩ := Closed.root.exists_mergeFields hnames hall
  rw [hmerge, List.nil_append] at hjoins
  rw [List.forall_mem_append, List.forall_mem_map] at hplaces
  exact ⟨steps, _, hjoins, hclosed, hplaces.1, hplaces.2⟩

namespace Store

/-- The joined rows of which a request is true. -/
def joinedRows (s : Store) (r : Request) (joins : List Join) (table : Table) : List Row :=
  (table.rows.flatMap (s.expand joins table.schema)).filter fun row =>
    r.truth (row.cell (s.joinedSchema joins table.schema).names)

/-- The joined rows of a plan come from a flow whose schema has the columns of some fields, and to
whose schema all expanded rows conform. -/
structure Sourced (c : Catalog) (root : String) (s : Store) (r : Request) (fields : List Field)
    (table : Table) (p : Plan) (flow : Flow) : Prop where
  source : s.source p = .ok flow
  schema : flow.schema = s.joinedSchema p.joins table.schema
  nodup : flow.schema.names.Nodup
  mem : ∀ f ∈ fields, ∀ type, f.type? = some type → ⟨f.columnPath, type⟩ ∈ flow.schema
  conforms : ∀ row ∈ table.rows, ∀ expanded ∈ s.expand p.joins table.schema row,
    expanded.Conforms flow.schema
  runs : flow.Runs (s.joinedRows r p.joins table) none

/-- The joined rows of a plan. -/
theorem exists_source (haccepted : Catalog.of entities fallback = .ok c) (hplain : c.Plain)
    (hfits : s.Fits c) (he : c.entity? root = some e) (htable : s.table e.tableName = .ok table)
    (hsound : r.Sound c root) {compiled : Compiled}
    (hcompiled : Planner.predicate .none r = .ok compiled) {fields : List Field}
    (hfields : ∀ f ∈ fields, c.field root f.path = .ok f) {p : Plan}
    (hjoins : (JoinStep.merge compiled.joins (fields.flatMap Field.joins)).mapM (Planner.join c) =
      .ok p.joins)
    (hpredicate : p.predicate = compiled.predicate) (hname : p.table = e.tableName) :
    ∃ flow, Sourced c root s r fields table p flow := by
  have hroot : c.Knows root := ⟨e, he⟩
  have hrealizes := Request.realizes_predicate hsound hcompiled
  have hresolved := hsound.resolved
  obtain ⟨steps, places, hsteps, hclosed, htested, hshown⟩ :=
    Request.exists_closed hplain.names (fun f hf => (hresolved f hf).field) hcompiled hfields hjoins
  -- so the flow of the joined rows can be built
  obtain ⟨flow, hjoined⟩ := exists_joined haccepted hplain hfits he hclosed hsteps htable
  have hlaid := hjoined.laid
  have hcolumns : ∀ f ∈ r.fields, ⟨f.field.columnPath, f.type⟩ ∈ flow.schema := fun f hf =>
    hlaid.mem_of_place haccepted hplain hfits hroot hclosed (hresolved f hf).field
      (hresolved f hf).type (htested f hf)
  -- and the predicate bound to it
  have hreads : ∀ name ∈ compiled.predicate.reads, name ∈ flow.schema.names := by
    intro name hname
    rw [hrealizes.reads] at hname
    obtain ⟨f, hf, rfl⟩ := List.mem_map.mp hname
    exact List.mem_map_of_mem (hcolumns f hf)
  obtain ⟨bound, hbound⟩ := Expr.exists_bind compiled.predicate hreads
  have hcheck : bound.checkPredicate flow.schema.types = .ok () :=
    (hrealizes.checks hlaid.nodup hcolumns hbound).checkPredicate
  refine ⟨.filter flow bound false, ⟨?_, hjoined.schema, hlaid.nodup, ?_, hjoined.conforms, ?_⟩⟩
  · simp [source, scan, hname, htable, hjoined.built, Flow.whereHolds, hpredicate, hbound, hcheck,
      Except.mapError]
  · exact fun f hf type htype =>
      hlaid.mem_of_place haccepted hplain hfits hroot hclosed (hfields f hf) htype (hshown f hf)
  · rw [joinedRows, ← hjoined.schema]
    refine Flow.runs_filter hjoined.runs fun expanded hexpanded => ?_
    obtain ⟨row, hrow, hexpanded⟩ := List.mem_flatMap.mp hexpanded
    have hconform := hjoined.conforms row hrow expanded hexpanded
    refine hrealizes.holds hbound (hconform.length_eq.trans (Schema.length_names flow.schema).symm)
      fun f hf => ?_
    exact hconform.cell hlaid.nodup (hcolumns f hf)

end Store

/-! ## Plans that have been built -/

/-- A plan that has been built for a request on a store: what it is put together from, and the flow
of its joined rows. -/
structure Planned.Built (c : Catalog) (root marker : String) (s : Store) (r : Request)
    (window : Option Window) (planned : Planned) where
  entity : Entity
  id : Attribute
  idType : ScalarType
  table : Table
  compiled : Compiled
  shown : Planner.Shown
  fields : List Field
  flow : Flow
  entity_eq : c.entity? root = some entity
  id_eq : c.idAttribute root = .ok id
  idType_eq : c.idType root = .ok idType
  table_eq : s.table entity.tableName = .ok table
  compiled_eq : Planner.predicate .none r = .ok compiled
  shown_eq : Planner.shown c root marker r = .ok (shown, planned.shape)
  joins_eq : (JoinStep.merge compiled.joins shown.joins).mapM (Planner.join c) =
    .ok planned.plan.joins
  idColumn_eq : planned.plan.idColumn = c.columnName root id.name
  distinct_eq : planned.plan.distinct =
    (compiled.distinct || (planned.shape = .entities && planned.plan.joins.any Join.toMany))
  projection_eq : planned.plan.projection = shown.projection
  groupBy_eq : planned.plan.groupBy = shown.groupBy
  aggregates_eq : planned.plan.aggregates = shown.aggregates
  orderBy_eq : planned.plan.orderBy = shown.orderBy
  window_eq : planned.plan.window = window
  rests : shown.Rests c root fields
  sourced : s.Sourced c root r fields table planned.plan flow

/-- A plan that is made for a sound request on a store that fits has been built. -/
theorem Planned.nonempty_built (haccepted : Catalog.of entities fallback = .ok c) (hplain : c.Plain)
    (hfits : s.Fits c) (hsound : r.Sound c root) {window : Option Window} {planned : Planned}
    (hplan : Planner.plan c root marker .none r window = .ok planned) :
    Nonempty (planned.Built c root marker s r window) := by
  obtain ⟨e, id, compiled, shown, shape, joins, he, hid, hcompiled, hshown, hjoins, hplanned⟩ :=
    Planner.plan_eq_ok hplan
  have hentity := Catalog.knows_of_entity he
  obtain ⟨table, htable, -, -⟩ := hfits.exists_table hentity
  obtain ⟨type, htype⟩ := Catalog.exists_idType haccepted ⟨e, hentity⟩
  obtain ⟨fields, hrests⟩ := Planner.exists_rests hplain.attributes htype hshown
  have hfieldJoins : (JoinStep.merge compiled.joins (fields.flatMap Field.joins)).mapM
      (Planner.join c) =
      .ok planned.plan.joins := by
    rw [← hrests.joins, hjoins, hplanned]
  obtain ⟨flow, hsourced⟩ :=
    Store.exists_source haccepted hplain hfits hentity htable hsound hcompiled hrests.resolved
      hfieldJoins (by rw [hplanned]) (by rw [hplanned])
  refine ⟨⟨e, id, type, table, compiled, shown, fields, flow, hentity, hid, htype, htable,
    hcompiled, ?_, ?_, ?_, ?_,
    ?_, ?_, ?_, ?_, ?_, hrests, hsourced⟩⟩
  · rw [hshown, hplanned]
  · rw [hjoins, hplanned]
  all_goals rw [hplanned]

theorem Store.exists_position_of_id (hplain : c.Plain) (hfits : s.Fits c)
    (he : c.entity? root = some e) (htable : s.table e.tableName = .ok table) {id : Attribute}
    (hid : c.idAttribute root = .ok id) {type : ScalarType} (htype : c.idType root = .ok type) :
    ∃ i, table.schema.position? (c.columnName root id.name) = some i := by
  obtain ⟨found, hfound, hschema, -⟩ := hfits.exists_table he
  obtain rfl : found = table := Except.ok.inj (hfound.symm.trans htable)
  obtain ⟨i, hi, -⟩ :=
    Schema.exists_position? (hschema.nodup hplain ⟨e, he⟩) (hschema.mem_of_id hplain hid htype)
  exact ⟨i, hi⟩

theorem Planned.Built.exists_position (hplain : c.Plain) (hfits : s.Fits c) {window : Option Window}
    {planned : Planned} (b : planned.Built c root marker s r window) :
    ∃ i, b.table.schema.position? planned.plan.idColumn = some i := by
  rw [b.idColumn_eq]
  exact Store.exists_position_of_id hplain hfits b.entity_eq b.table_eq b.id_eq b.idType_eq

/-- Every column that the plan names is the column of a scalar field, which the source has. -/
theorem Planned.Built.exists_column {window : Option Window} {planned : Planned}
    (b : planned.Built c root marker s r window) {column : String} {f : Field} (hf : f ∈ b.fields)
    (hshows : f.Shows c root column) :
    ∃ type, f.type? = some type ∧ ⟨column, type⟩ ∈ b.flow.schema := by
  have hscalar := hshows.scalar
  rw [Field.isComplex, Option.isNone_eq_false_iff, Option.isSome_iff_exists] at hscalar
  obtain ⟨type, htype⟩ := hscalar
  exact ⟨type, htype, hshows.column ▸ b.sourced.mem f hf type htype⟩

theorem Planned.Built.exists_step {window : Option Window} {planned : Planned}
    (b : planned.Built c root marker s r window) :
    ∀ j ∈ planned.plan.joins, ∃ step, Planner.join c step = .ok j := by
  intro j hj
  obtain ⟨step, -, hstep⟩ := Outcome.exists_of_mem_mapM b.joins_eq hj
  exact ⟨step, hstep⟩

/-! ## Joins that do not matter -/

/-- The truth of a tree depends on the columns of its fields alone. -/
theorem FilterTree.truth_congr {cells others : Cells} {tree : FilterTree}
    (h : ∀ f ∈ tree.fields, cells f.field.columnPath = others f.field.columnPath) :
    tree.truth cells = tree.truth others := by
  induction tree with
  | field f => rfl
  | literal value => rfl
  | test op f value =>
      rw [truth, truth, h f (List.mem_singleton.mpr rfl)]
  | unary op operand ih =>
      cases op <;> simp only [truth]
      rw [ih h]
  | compound op left right ihleft ihright =>
      rw [fields, List.forall_mem_append] at h
      cases op <;> simp only [truth]
      all_goals rw [ihleft h.1, ihright h.2]

/-- The truth of a request depends on the columns of its fields alone. -/
theorem Request.truth_congr {cells others : Cells}
    (h : ∀ f ∈ r.fields, cells f.field.columnPath = others f.field.columnPath) :
    r.truth cells = r.truth others := by
  unfold fields at h
  rw [List.forall_mem_append] at h
  have hgroups : r.groups.any (FilterTree.truth cells) =
      r.groups.any (FilterTree.truth others) := by
    rw [Bool.eq_iff_iff, List.any_eq_true, List.any_eq_true]
    refine exists_congr fun tree => and_congr_right fun htree => ?_
    rw [FilterTree.truth_congr fun f hf => h.1 f (List.mem_flatMap.mpr ⟨tree, htree, hf⟩)]
  have hparameters : r.parameters.all (FilterTree.truth cells) =
      r.parameters.all (FilterTree.truth others) := by
    cases hsome : r.parameters with
    | none => rfl
    | some tree =>
        refine FilterTree.truth_congr fun f hf => h.2 f ?_
        rwa [hsome]
  rw [truth, truth, hgroups, hparameters]

/-- The joins of a plan are those of its predicate, followed by others that the shown fields
need. -/
theorem Request.exists_joins (hsound : r.Sound c root) {compiled : Compiled}
    (hcompiled : Planner.predicate .none r = .ok compiled) {more : List JoinStep}
    {joins : List Join}
    (hjoins : (JoinStep.merge compiled.joins more).mapM (Planner.join c) = .ok joins) :
    ∃ first second, r.joinSteps.mapM (Planner.join c) = .ok first ∧ joins = first ++ second ∧
      ∀ j ∈ second, ∃ step ∈ more, Planner.join c step = .ok j := by
  rw [(Request.realizes_predicate hsound hcompiled).joins] at hjoins
  obtain ⟨rest, hmerge, hrest⟩ := Keyed.exists_addAll JoinStep.path r.joinSteps more
  have hmerge : JoinStep.merge (JoinStep.merge [] (r.fields.flatMap fun f => f.field.joins)) more =
      r.joinSteps ++ rest := hmerge
  rw [hmerge] at hjoins
  obtain ⟨first, second, hfirst, hsecond, rfl⟩ := Outcome.mapM_append_eq_ok hjoins
  refine ⟨first, second, hfirst, rfl, fun j hj => ?_⟩
  obtain ⟨step, hstep, hj⟩ := Outcome.exists_of_mem_mapM hsecond hj
  exact ⟨step, hrest step hstep, hj⟩

namespace Store

/-- All rows that further joins make of a joined row have its values in its columns, so something
that depends on these alone is true of some of them exactly if it is true of the joined row. -/
theorem any_expand_of_congr {schema : Schema} {row : Row} (hwidth : row.length = schema.length)
    (truth : Cells → Bool) {names : List String} (hnames : ∀ name ∈ names, name ∈ schema.names)
    (htruth : ∀ {cells others : Cells}, (∀ name ∈ names, cells name = others name) →
      truth cells = truth others)
    (joins : List Join) :
    ((s.expand joins schema row).any fun expanded =>
      truth (expanded.cell (s.joinedSchema joins schema).names)) =
      truth (row.cell schema.names) := by
  obtain ⟨rest, hrest⟩ := exists_append_joinedSchema (s := s) joins schema
  have hsame : ∀ expanded ∈ s.expand joins schema row,
      truth (expanded.cell (s.joinedSchema joins schema).names) =
        truth (row.cell schema.names) := by
    intro expanded hexpanded
    obtain ⟨tail, rfl⟩ := exists_append_of_mem_expand hexpanded
    rw [hrest]
    exact htruth fun name hname => Row.cell_append_left hwidth (hnames name hname) rest tail
  rw [Bool.eq_iff_iff, List.any_eq_true]
  constructor
  · rintro ⟨expanded, hexpanded, htrue⟩
    rwa [← hsame expanded hexpanded]
  · intro htrue
    obtain ⟨expanded, hexpanded⟩ :=
      List.exists_mem_of_ne_nil _ (expand_ne_nil (s := s) joins schema row)
    exact ⟨expanded, hexpanded, (hsame expanded hexpanded).trans htrue⟩

/-- Joins behind those of the filters and parameters do not matter to them. -/
theorem any_expand_eq (haccepted : Catalog.of entities fallback = .ok c) (hplain : c.Plain)
    (hfits : s.Fits c) (he : c.entity? root = some e) (htable : s.table e.tableName = .ok table)
    (hsound : r.Sound c root) {first : List Join}
    (hfirst : r.joinSteps.mapM (Planner.join c) = .ok first) (second : List Join) {row : Row}
    (hrow : row ∈ table.rows) :
    s.satisfies r (first ++ second) table.schema row = s.satisfies r first table.schema row := by
  have hall : ∀ f ∈ r.fields.map FieldRef.field, c.field root f.path = .ok f := by
    intro f hf
    obtain ⟨g, hg, rfl⟩ := List.mem_map.mp hf
    exact (hsound.resolved g hg).field
  obtain ⟨steps, places, hmerge, hclosed, hplaces⟩ :=
    Closed.root.exists_mergeFields hplain.names hall
  have hsteps : r.joinSteps = steps := by
    rw [← List.nil_append steps, ← hmerge, List.flatMap_map]
    rfl
  rw [hsteps] at hfirst
  obtain ⟨flow, hjoined⟩ := exists_joined haccepted hplain hfits he hclosed hfirst htable
  have hlaid := hjoined.laid
  have hconforms := hjoined.conforms
  rw [hjoined.schema] at hlaid hconforms
  -- every field that is tested is in a column of the first joins, whose cells later joins keep
  have hnames : ∀ name ∈ r.fields.map fun f => f.field.columnPath,
      name ∈ (s.joinedSchema first table.schema).names := by
    intro name hname
    obtain ⟨f, hf, rfl⟩ := List.mem_map.mp hname
    have hmem : f.field ∈ r.fields.map FieldRef.field := List.mem_map_of_mem hf
    exact List.mem_map_of_mem
      (hlaid.mem_of_place haccepted hplain hfits ⟨e, he⟩ hclosed (hall _ hmem)
        (hsound.resolved f hf).type (hplaces _ hmem))
  unfold satisfies
  rw [expand_append, joinedSchema_append, List.any_flatMap]
  rw [Bool.eq_iff_iff, List.any_eq_true, List.any_eq_true]
  refine exists_congr fun expanded => and_congr_right fun hexpanded => ?_
  have hwidth := (hconforms row hrow expanded hexpanded).length_eq
  rw [any_expand_of_congr hwidth (fun cells => r.truth cells) hnames
    (fun h => Request.truth_congr fun f hf => h _ (List.mem_map_of_mem hf)) second]

end Store

end EntityQuery
