import EntityQuery.Proofs.Flow.Sorting
import EntityQuery.Proofs.Search.Count
import EntityQuery.Proofs.Search.Stages
import EntityQuery.Proofs.Search.Whole
import EntityQuery.Proofs.Store.Rearranged

/-!
# Whole entities

A search without selections and aggregates returns every row of the root that is meant exactly once.
Joins may make several rows of one row of the root, but all of them show the same, so leaving out
what is repeated leaves one of them; rows of different identifiers are kept apart, since the
identifier is shown.  Where no join has more than one target nothing has to be left out.

The rows are then sorted by their identifiers, which are all different.  So the result is determined
by the rows of the store alone, not by the order in which they were added.

## Main definitions

* `Search.idOf`, `Search.Precedes` : the identifier of a row of the root, and the order by it
* `Planned.Built.ShowsEntities` : a plan that shows whole entities

## Main statements

* `run_entities` : a search returns the entities of the matching rows, each once, in the order of
  their identifiers, whatever the order in which rows were added
-/

namespace EntityQuery

variable {c : Catalog} {entities : List Entity} {fallback : Option ScalarType}
  {root marker : String} {s : Store} {r : Request} {window : Option Window} {planned : Planned}
  {fields : List Field}

/-! ## Plans that show whole entities -/

namespace Planned.Built

/-- What a plan that shows whole entities consists of. -/
structure ShowsEntities (b : planned.Built c root marker s r window)
    (fields : List Field) : Prop where
  shape_eq : planned.shape = .entities
  fields_eq : Planner.entityFields c root = .ok fields
  projection_eq : planned.plan.projection =
    fields.map fun f => ⟨f.columnPath, Planner.entityLabel b.entity.rootPath f⟩
  aggregate_eq : planned.plan.isAggregate = false
  orderBy_eq : planned.plan.orderBy = [⟨b.entity.rootPath ++ "." ++ b.id.name, .asc⟩]
  joins_eq : b.shown.joins = fields.flatMap Field.joins

/-- Without selections and aggregates whole entities are shown. -/
theorem exists_showsEntities (b : planned.Built c root marker s r window)
    (hselections : r.selections = []) (haggregates : r.aggregates = none) :
    ∃ fields, b.ShowsEntities fields := by
  have hshown := b.shown_eq
  rw [Planner.shown, hselections, haggregates] at hshown
  obtain ⟨shown, hshow, hshown⟩ := Outcome.bind_eq_ok_iff.mp hshown
  obtain ⟨hshown, hshape⟩ := Prod.mk.inj (Except.ok.inj hshown)
  obtain ⟨e, fields, id, he, hfields, hid, heq⟩ := Planner.showEntity_eq_ok hshow
  obtain rfl : b.entity = e := Option.some.inj (b.entity_eq.symm.trans (Catalog.knows_of_entity he))
  obtain rfl : b.id = id := Except.ok.inj (b.id_eq.symm.trans hid)
  rw [heq] at hshown
  refine ⟨fields, hshape.symm, hfields, ?_, ?_, ?_, ?_⟩
  · rw [b.projection_eq, ← hshown]
  · rw [Plan.isAggregate, b.aggregates_eq, b.groupBy_eq, ← hshown]
    rfl
  · rw [b.orderBy_eq, ← hshown]
  · rw [← hshown]

variable {b : planned.Built c root marker s r window}

theorem ShowsEntities.exists_column (hshows : b.ShowsEntities fields) :
    ∀ q ∈ planned.plan.projection, ∃ type, ⟨q.column, type⟩ ∈ b.flow.schema := by
  intro q hq
  obtain ⟨hnone, hnone'⟩ : b.shown.aggregates = [] ∧ b.shown.groupBy = [] := by
    simpa [Plan.isAggregate, b.aggregates_eq, b.groupBy_eq] using hshows.aggregate_eq
  rcases b.rests.projection q (b.projection_eq ▸ hq) with ⟨-, -, f, hf, hcolumn⟩ | hcolumn | hcolumn
  · obtain ⟨type, -, hmem⟩ := b.exists_column hf hcolumn
    exact ⟨type, hmem⟩
  · simp [hnone'] at hcolumn
  · simp [hnone] at hcolumn

/-! ## What is shown -/

section
variable (hshows : b.ShowsEntities fields) (haccepted : Catalog.of entities fallback = .ok c)
  (hplain : c.Plain) (hfits : s.Fits c) (hidentified : s.Identified c) (hsound : r.Sound c root)
include hshows haccepted hplain hfits hidentified hsound

theorem ShowsEntities.whole : s.ShowsWhole c root planned.plan.joins fields b.table := by
  have hjoins := b.joins_eq
  rw [hshows.joins_eq] at hjoins
  exact .of_joins ⟨entities, fallback,
    haccepted⟩ hplain hfits hidentified b.entity_eq b.table_eq hsound.resolved
    b.compiled_eq hshows.fields_eq hjoins

omit haccepted hplain hfits hidentified hsound in
theorem ShowsEntities.shownOf_eq :
    (fun row : Row => planned.plan.projection.map fun q => row.cell b.flow.schema.names q.column) =
      s.shownOf planned.plan.joins fields b.table.schema := by
  funext row
  rw [hshows.projection_eq, List.map_map, b.sourced.schema]
  rfl

/-- The identifier of a row of the root is shown under its label. -/
theorem ShowsEntities.exists_position :
    ∃ k, (planned.plan.projection.map Projected.label).idxOf?
      (b.entity.rootPath ++ "." ++ b.id.name) = some k ∧
      ∀ row ∈ b.table.rows, (s.valuesOf c b.table.schema fields row)[k]? =
        some (row.cell b.table.schema.names (c.columnName root b.id.name)) := by
  obtain ⟨first, hfirst, hpath⟩ :=
    Planner.exists_mem_of_idAttribute hplain.attributes b.idType_eq b.id_eq hshows.fields_eq
  -- the labels are those of the fields, and the identifier is one of them
  have hlabels : planned.plan.projection.map Projected.label =
      fields.map (Planner.entityLabel b.entity.rootPath) := by
    rw [hshows.projection_eq, List.map_map]
    rfl
  have hthere : b.entity.rootPath ++ "." ++ b.id.name ∈
      fields.map (Planner.entityLabel b.entity.rootPath) := by
    refine List.mem_map.mpr ⟨first, hfirst, ?_⟩
    simp [Planner.entityLabel, hpath, Path.single, Path.text, Path.names]
  obtain ⟨k, hk⟩ := Option.isSome_iff_exists.mp (List.isSome_idxOf?.mpr hthere)
  rw [hlabels]
  refine ⟨k, hk, fun row hrow => ?_⟩
  -- the field that stands there is the identifier
  obtain ⟨hlt, hlabel, -⟩ := List.idxOf?_eq_some_iff.mp hk
  rw [List.length_map] at hlt
  have hf : fields[k] ∈ fields := List.getElem_mem hlt
  have htext : fields[k].path.text = b.id.name := by
    simpa [Planner.entityLabel, String.append_right_inj] using hlabel
  have hid := Catalog.attribute?_of_idAttribute b.id_eq
  have hpath :=
    Planner.path_of_text hplain hshows.fields_eq hf
      (Catalog.dotless_of_attribute? hplain.names hid) htext
  exact (hshows.whole haccepted hplain hfits hidentified hsound).getElem?_valuesOf
    (List.getElem?_eq_getElem hlt) hpath hrow

/-- What is shown are the values of the rows of the root that are meant, of each once. -/
theorem ShowsEntities.shown_eq :
    (let shown := (s.joinedRows r planned.plan.joins b.table).map fun row =>
        planned.plan.projection.map fun q => row.cell b.flow.schema.names q.column
      if planned.plan.distinct then Row.firsts [] [] shown else shown) =
      (b.table.rows.filter (s.satisfies r planned.plan.joins b.table.schema)).map
        (s.valuesOf c b.table.schema fields) := by
  have hwhole := hshows.whole haccepted hplain hfits hidentified hsound
  set keep : Row → Bool := fun row =>
    r.truth (row.cell (s.joinedSchema planned.plan.joins b.table.schema).names)
  have hblock : s.block r planned.plan.joins b.table.schema =
      s.keptOf planned.plan.joins keep b.table.schema := rfl
  have hroots : b.table.rows.filter (s.satisfies r planned.plan.joins b.table.schema) =
      s.keptRoots planned.plan.joins keep b.table := by
    refine List.filter_congr fun row _ => ?_
    rw [Store.satisfies_eq_not_isEmpty, hblock]
  have hrows : s.joinedRows r planned.plan.joins b.table =
      s.keptRows planned.plan.joins keep b.table := by
    rw [Store.joinedRows_eq_flatMap, hblock, Store.keptRows]
  dsimp only
  rw [hshows.shownOf_eq, hrows, hroots]
  split
  · exact hwhole.firsts_shown keep
  · next hnone =>
    -- no join has more than one target
    simp only [b.distinct_eq, hshows.shape_eq, decide_true, Bool.true_and, Bool.not_eq_true,
      Bool.or_eq_false_iff, List.any_eq_false] at hnone
    exact hwhole.shown_of_toOne hnone.2 keep

end

/-! ## Fetching whole entities -/

/-- Rows that show the identifiers of rows of the root at some position are sorted by them. -/
theorem exists_sorted (b : planned.Built c root marker s r window) (hplain : c.Plain)
    (hfits : s.Fits c) (hidentified : s.Identified c) {k : Nat} {values : Row → Row}
    (hid : ∀ row ∈ b.table.rows,
      (values row)[k]? = some (row.cell b.table.schema.names (c.columnName root b.id.name)))
    (keep : Row → Bool) :
    ∃ ordered : List Row, ordered.Perm (b.table.rows.filter keep) ∧
      Row.sorted [SortKey.of k .asc] ((b.table.rows.filter keep).map values) = ordered.map values ∧
      ordered.Pairwise fun first second =>
        (first.cell b.table.schema.names (c.columnName root b.id.name)).compare?
          (second.cell b.table.schema.names (c.columnName root b.id.name)) = some .lt := by
  set idOf : Row → Value := fun row => row.cell b.table.schema.names (c.columnName root b.id.name)
  set shownId : Row → Value := fun shown => shown.getD k .null
  have hof (row : Row) (hrow : row ∈ b.table.rows) : (idOf row).ofType b.idType = true :=
    Store.ofType_of_identified hplain hfits hidentified b.entity_eq b.id_eq b.idType_eq
      b.table_eq hrow
  have hshown (row : Row) (hrow : row ∈ b.table.rows) : shownId (values row) = idOf row := by
    change (values row).getD k .null = idOf row
    rw [List.getD_eq_getElem?_getD, hid row hrow]
    rfl
  -- the identifiers stand in an order, which tells all rows apart
  obtain ⟨order, htrans, horder⟩ := Value.exists_order b.idType
  have hcompare (first : Row) (hfirst : first ∈ b.table.rows) (second : Row)
      (hsecond : second ∈ b.table.rows) :
      (idOf first).compare? (idOf second) =
        some (order (shownId (values first)) (shownId (values second))) := by
    rw [hshown first hfirst, hshown second hsecond]
    exact horder _ _ (hof first hfirst) (hof second hsecond)
  have hmem {row : Row} (hrow : row ∈ b.table.rows.filter keep) : row ∈ b.table.rows :=
    List.mem_of_mem_filter hrow
  have happart : (b.table.rows.filter keep).Pairwise fun first second =>
      order (shownId (values first)) (shownId (values second)) ≠ .eq := by
    have hpairwise := (hidentified.pairwise_compare b.entity_eq b.id_eq b.table_eq).filter keep
    refine hpairwise.imp_of_mem fun {first second} hfirst hsecond hne heq => hne ?_
    exact (hcompare first (hmem hfirst) second (hmem hsecond)).trans (congrArg some heq)
  -- so the comparison of the sort is this order, and no identifier is null
  have hcompareBy : ∀ first ∈ b.table.rows.filter keep, ∀ second ∈ b.table.rows.filter keep,
      SortKey.compareBy [SortKey.of k .asc] (values first) (values second) =
        order (shownId (values first)) (shownId (values second)) := by
    intro first hfirst second hsecond
    have hnull (row : Row) (hrow : row ∈ b.table.rows) : (shownId (values row)).isNull = false :=
      hshown row hrow ▸ Value.isNull_of_ofType (hof row hrow)
    refine Row.compareBy_asc (hnull first (hmem hfirst)) (hnull second (hmem hsecond)) ?_
    have h := hcompare first (hmem hfirst) second (hmem hsecond)
    rwa [← hshown first (hmem hfirst), ← hshown second (hmem hsecond)] at h
  obtain ⟨ordered, hperm, hsorted, hascend⟩ := Row.exists_sorted_map hcompareBy happart
  refine ⟨ordered, hperm, hsorted, hascend.imp_of_mem fun {first second} hfirst hsecond hlt => ?_⟩
  exact (hcompare first (hmem (hperm.mem_iff.mp hfirst)) second
    (hmem (hperm.mem_iff.mp hsecond))).trans (congrArg some hlt)

/-- The records of a plan that shows whole entities: those of the rows of the root that are meant,
by identifier. -/
theorem ShowsEntities.exists_fetch {b : planned.Built c root marker s r none}
    (hshows : b.ShowsEntities fields) (haccepted : Catalog.of entities fallback = .ok c)
    (hplain : c.Plain) (hfits : s.Fits c) (hidentified : s.Identified c) (hsound : r.Sound c root) :
    ∃ ordered : List Row,
      ordered.Perm (b.table.rows.filter (s.satisfies r planned.plan.joins b.table.schema)) ∧
      (ordered.Pairwise fun first second =>
        (first.cell b.table.schema.names (c.columnName root b.id.name)).compare?
          (second.cell b.table.schema.names (c.columnName root b.id.name)) = some .lt) ∧
      s.fetch planned.plan .never = (.ok (ordered.map fun row =>
        .zip (fields.map (Planner.entityLabel b.entity.rootPath))
          (s.valuesOf c b.table.schema fields row)), .never) := by
  obtain ⟨k, hk, hid⟩ := hshows.exists_position haccepted hplain hfits hidentified hsound
  have hne : planned.plan.projection ≠ [] := by
    rintro hnil
    simp [hnil] at hk
  have hcolumns : ∀ q ∈ planned.plan.projection, q.column ∈ b.flow.schema.names := by
    intro q hq
    obtain ⟨type, hmem⟩ := hshows.exists_column q hq
    exact List.mem_map_of_mem hmem
  obtain ⟨next, hshape, hnames, hruns⟩ :=
    Plan.exists_runs_of_label hshows.aggregate_eq b.window_eq hne hcolumns hshows.orderBy_eq hk
      b.sourced.runs
  obtain ⟨ordered, hperm, hsorted, hascend⟩ := b.exists_sorted hplain hfits hidentified hid
    (s.satisfies r planned.plan.joins b.table.schema)
  rw [hshows.shown_eq haccepted hplain hfits hidentified hsound, hsorted] at hruns
  obtain ⟨last, hrun⟩ := Flow.run_of_runs hruns
  have hlabels : next.schema.names = fields.map (Planner.entityLabel b.entity.rootPath) := by
    rw [hnames, hshows.projection_eq, List.map_map]
    rfl
  refine ⟨ordered, hperm, hascend, ?_⟩
  simp [Store.fetch, Store.unlessCancelled, Store.runAll, b.sourced.source, hshape, hrun, hlabels,
    Except.mapError, Except.map]

end Planned.Built

/-! ## Searches for whole entities -/

namespace Search

variable {search : Search} {store other : Store}

/-- The identifier of a row of the root. -/
def idOf (search : Search) (store : Store) (row : Row) : Except SearchFault Value := do
  let e ← search.catalog.entity search.root
  let id ← search.catalog.idAttribute search.root
  return row.cell (store.tableNamed e.tableName).schema.names
    (search.catalog.columnName search.root id.name)

/-- The identifier of a row of the root is less than that of another. -/
def Precedes (search : Search) (store : Store) (first second : Row) : Prop :=
  ∃ a b, search.idOf store first = .ok a ∧ search.idOf store second = .ok b ∧
    a.compare? b = some .lt

/-- The data about the only page of some results, if they are asked for. -/
def infoOf (r : Request) (n : Nat) : Option PageInfo :=
  if r.pageData then some (.of none n (Store.countOf [[.int64 (Int64.ofNat n)]])) else none

theorem entityOf_eq_ok {marker : String}
    {b : planned.Built search.catalog search.root marker store r window}
    (hshows : b.ShowsEntities fields)
    (haccepted : Catalog.of entities fallback = .ok search.catalog) (hplain : search.catalog.Plain)
    (hfits : store.Fits search.catalog) (hidentified : store.Identified search.catalog)
    (hsound : r.Sound search.catalog search.root) {row : Row} (hrow : row ∈ b.table.rows) :
    search.entityOf store row = .ok (search.rebuilder.build (.zip
      (fields.map (Planner.entityLabel b.entity.rootPath))
      (store.valuesOf search.catalog b.table.schema fields row))) := by
  obtain ⟨hvalues, -⟩ := (hshows.whole haccepted hplain hfits hidentified hsound).valuesOf_eq hrow
  simp [entityOf, recordOf, Catalog.entity, b.entity_eq, hshows.fields_eq,
    Store.table_eq_ok b.table_eq, hvalues]

theorem idOf_eq_ok {marker : String}
    (b : planned.Built search.catalog search.root marker store r window) (row : Row) :
    search.idOf store row =
      .ok (row.cell b.table.schema.names (search.catalog.columnName search.root b.id.name)) := by
  simp [idOf, Catalog.entity, b.entity_eq, b.id_eq, Store.table_eq_ok b.table_eq]

/-- A search for whole entities returns those of the matching rows, in the order of their
identifiers. -/
theorem exists_run (haccepted : Catalog.of entities fallback = .ok search.catalog)
    (hplain : search.catalog.Plain) (hfilled : store.Filled search.catalog)
    (hidentified : store.Identified search.catalog) (hhooks : search.hooks = .none)
    (hsound : r.Sound search.catalog search.root) (hselections : r.selections = [])
    (haggregates : r.aggregates = none) (hpage : r.page = none)
    (hplan : search.planFor r none = .ok planned) :
    ∃ (matching rows : List Row) (found : List Json), search.matching store r = .ok matching ∧
      rows.Perm matching ∧
      rows.Pairwise (search.Precedes store) ∧ rows.mapM (search.entityOf store) = .ok found ∧
      (search.run store r .never).1 = .ok ⟨.entities found, infoOf r rows.length⟩ := by
  have hfits := hfilled.fits hplain
  have hmade := hplan
  rw [planFor, hhooks] at hmade
  obtain ⟨b⟩ := Planned.nonempty_built haccepted hplain hfits hsound hmade
  obtain ⟨fields, hshows⟩ := b.exists_showsEntities hselections haggregates
  -- the rows of the root stand in the order in which their records are fetched
  obtain ⟨ordered, hperm, hascend, hfetch⟩ :=
    hshows.exists_fetch haccepted hplain hfits hidentified hsound
  have hmatching := matching_of_built haccepted hplain hfits hsound b
  have hcount := count_of_built haccepted hplain hfits hidentified hsound b hmatching
  have hentities := Outcome.mapM_eq_ok_map fun row hrow =>
    entityOf_eq_ok hshows haccepted hplain hfits hidentified hsound
      (List.mem_of_mem_filter (hperm.mem_iff.mp hrow))
  refine ⟨_, ordered, _, hmatching, hperm, ?_, hentities, ?_⟩
  · exact hascend.imp fun hlt => ⟨_, _, idOf_eq_ok b _, idOf_eq_ok b _, hlt⟩
  · have hwindow : search.window r = .ok none := by
      rw [window, hpage]
      rfl
    rw [← hperm.length_eq] at hcount
    -- the data about the page, if asked for, count the rows
    cases hdata : r.pageData with
    | true =>
        simp [run, andThen, given, hwindow, hplan, fetch, hfetch, hits, hshows.shape_eq, hdata,
          total, hshows.aggregate_eq, countOf, hcount, infoOf, Except.mapError]
    | false =>
        simp [run, andThen, given, hwindow, hplan, fetch, hfetch, hits, hshows.shape_eq, hdata,
          infoOf, Except.mapError]

/-! ## Rows in another order -/

theorem exists_of_matching {rows : List Row} (hrows : search.matching store r = .ok rows) :
    ∃ e joins, search.catalog.entity? search.root = some e ∧
      r.joinSteps.mapM (Planner.join search.catalog) = .ok joins ∧
      rows = (store.tableNamed e.tableName).rows.filter
        (store.satisfies r joins (store.tableNamed e.tableName).schema) := by
  obtain ⟨e, he, hrows⟩ := Outcome.bind_eq_ok_iff.mp hrows
  obtain ⟨joins, hjoins, hrows⟩ := Outcome.bind_eq_ok_iff.mp hrows
  exact ⟨e, joins, Catalog.knows_of_entity he, hjoins, (Except.ok.inj hrows).symm⟩

/-- No row of the root comes before one that comes before it. -/
theorem Precedes.asymm (haccepted : Catalog.of entities fallback = .ok search.catalog)
    (hplain : search.catalog.Plain) (hfits : store.Fits search.catalog)
    (hidentified : store.Identified search.catalog) {rows : List Row}
    (hrows : search.matching store r = .ok rows) {first second : Row} (hfirst : first ∈ rows)
    (hsecond : second ∈ rows) (hprecedes : search.Precedes store first second) :
    ¬ search.Precedes store second first := by
  rintro ⟨b', a', hb', ha', hlt'⟩
  obtain ⟨a, b, ha, hb, hlt⟩ := hprecedes
  obtain rfl : a = a' := Except.ok.inj (ha.symm.trans ha')
  obtain rfl : b = b' := Except.ok.inj (hb.symm.trans hb')
  obtain ⟨e, joins, he, -, rfl⟩ := exists_of_matching hrows
  obtain ⟨type, htype⟩ := Catalog.exists_idType haccepted ⟨e, he⟩
  -- identifiers of the root are values of one type, and stand in an order
  have hof {row : Row} {v : Value} (hrow : row ∈ (store.tableNamed e.tableName).rows)
      (hv : search.idOf store row = .ok v) : v.ofType type = true := by
    obtain ⟨table, htable, -, -⟩ := hfits.exists_table he
    obtain ⟨e', he', hv⟩ := Outcome.bind_eq_ok_iff.mp hv
    obtain ⟨id, hid, hv⟩ := Outcome.bind_eq_ok_iff.mp hv
    obtain rfl : e = e' := Option.some.inj (he.symm.trans (Catalog.knows_of_entity he'))
    rw [Store.table_eq_ok htable] at hrow hv
    rw [← Except.ok.inj hv]
    exact Store.ofType_of_identified hplain hfits hidentified he hid htype htable hrow
  obtain ⟨order, htrans, horder⟩ := Value.exists_order type
  have hofa := hof (List.mem_of_mem_filter hfirst) ha
  have hofb := hof (List.mem_of_mem_filter hsecond) hb
  rw [horder a b hofa hofb] at hlt
  rw [horder b a hofb hofa] at hlt'
  have hgt := Std.OrientedCmp.gt_iff_lt.mpr (Option.some.inj hlt')
  rw [Option.some.inj hlt] at hgt
  simp at hgt

end Search

namespace Store.Rearranged

variable {search : Search} {store other : Store}

section
variable (hsame : store.Rearranged search.catalog other) (hfits : store.Fits search.catalog)
  (hotherFits : other.Fits search.catalog)
include hsame hfits hotherFits

theorem satisfies_eq {joins : List Join}
    (hjoins : ∀ j ∈ joins, ∃ step, Planner.join search.catalog step = .ok j) (schema : Schema) :
    other.satisfies r joins schema = store.satisfies r joins schema := by
  funext row
  unfold satisfies
  rw [hsame.joinedSchema_eq hfits hotherFits hjoins]
  exact (hsame.expand_perm hfits hotherFits hjoins schema row).any_eq

theorem matching_perm {rows others : List Row} (hrows : search.matching store r = .ok rows)
    (hothers : search.matching other r = .ok others) : others.Perm rows := by
  obtain ⟨e, joins, he, hjoins, rfl⟩ := Search.exists_of_matching hrows
  obtain ⟨e', joins', he', hjoins', rfl⟩ := Search.exists_of_matching hothers
  obtain rfl : e = e' := Option.some.inj (he.symm.trans he')
  obtain rfl : joins = joins' := Except.ok.inj (hjoins.symm.trans hjoins')
  have hsteps (j : Join) (hj : j ∈ joins) : ∃ step, Planner.join search.catalog step = .ok j := by
    obtain ⟨step, -, hstep⟩ := Outcome.exists_of_mem_mapM hjoins hj
    exact ⟨step, hstep⟩
  obtain ⟨hschema, hperm⟩ := hsame.tables hfits hotherFits he
  rw [hschema, hsame.satisfies_eq hfits hotherFits hsteps]
  exact hperm.filter _

theorem idOf_eq : search.idOf other = search.idOf store := by
  funext row
  unfold Search.idOf
  cases he : search.catalog.entity search.root with
  | error fault => rfl
  | ok e =>
      rw [Outcome.ok_bind, Outcome.ok_bind,
        (hsame.tables hfits hotherFits (Catalog.knows_of_entity he)).1]

theorem valueOf_eq (haccepted : Catalog.of entities fallback = .ok search.catalog)
    (hplain : search.catalog.Plain) (hidentified : store.Identified search.catalog)
    (hfields : Planner.entityFields search.catalog search.root = .ok fields) {f : Field}
    (hf : f ∈ fields) (schema : Schema) (row : Row) :
    other.valueOf search.catalog schema row f = store.valueOf search.catalog schema row f := by
  obtain ⟨hshows, ⟨a, hpath⟩ | ⟨a, ha, b, hpath⟩⟩ := Planner.shows_of_entityFields hfields hf
  · obtain ⟨hnone, -⟩ := Planner.joins_of_single (hpath ▸ hshows.field)
    rw [valueOf, valueOf, hnone]
  · obtain ⟨target, joinColumn, htype, -, hone⟩ :=
      Planner.joins_of_child hplain ha (hpath ▸ hshows.field)
    obtain ⟨hattribute, -⟩ := Planner.mem_nestedAttributes hplain ha
    obtain ⟨j, hj⟩ := Planner.exists_join_toOne haccepted hplain hattribute htype
    rw [valueOf, valueOf, hone]
    dsimp only
    rw [hj, Outcome.ok_bind, Outcome.ok_bind, hsame.schema_eq hfits hotherFits ⟨_, hj⟩,
      hsame.target_eq hfits hotherFits haccepted hplain hidentified hj
        (Planner.toMany_of_join hj rfl)]

theorem recordOf_eq (haccepted : Catalog.of entities fallback = .ok search.catalog)
    (hplain : search.catalog.Plain) (hidentified : store.Identified search.catalog) :
    search.recordOf other = search.recordOf store := by
  funext row
  unfold Search.recordOf
  cases he : search.catalog.entity search.root with
  | error fault => rfl
  | ok e =>
      rw [Outcome.ok_bind, Outcome.ok_bind,
        (hsame.tables hfits hotherFits (Catalog.knows_of_entity he)).1]
      cases hfields : Planner.entityFields search.catalog search.root with
      | error fault => rfl
      | ok fields =>
          rw [Outcome.ok_bind, Outcome.ok_bind, Outcome.mapM_congr fun f hf =>
            hsame.valueOf_eq hfits hotherFits haccepted hplain hidentified hfields hf _ row]

end

end Store.Rearranged

namespace Search

variable {search : Search} {store : Store}

/-- A search without selections, aggregates and page returns precisely the entities of the matching
rows of the root, in the order of their identifiers, which are all different.  So it does not matter
in which order the rows of any table were added. -/
theorem run_entities (haccepted : Catalog.of entities fallback = .ok search.catalog)
    (hplain : search.catalog.Plain) (hfilled : store.Filled search.catalog)
    (hidentified : store.Identified search.catalog) (hhooks : search.hooks = .none) {r : Request}
    (hsound : r.Sound search.catalog search.root) (hselections : r.selections = [])
    (haggregates : r.aggregates = none) (hpage : r.page = none) {planned : Planned}
    (hplan : search.planFor r none = .ok planned) :
    ∃ (matching rows : List Row) (found : List Json) (info : Option PageInfo),
      search.matching store r = .ok matching ∧ rows.Perm matching ∧
      rows.Pairwise (search.Precedes store) ∧
      rows.mapM (search.entityOf store) = .ok found ∧
      (search.run store r .never).1 = .ok ⟨.entities found, info⟩ ∧
      ∀ other : Store, other.Filled search.catalog → other.Identified search.catalog →
        store.Rearranged search.catalog other →
          (search.run other r .never).1 = (search.run store r .never).1 := by
  -- what is found in the store itself
  obtain ⟨matching, rows, found, hmatching, hperm, hascend, hfound, hrun⟩ :=
    exists_run haccepted hplain hfilled hidentified hhooks hsound hselections
      haggregates hpage hplan
  refine ⟨matching, rows, found, _, hmatching, hperm, hascend, hfound, hrun,
    fun other hother hotherIds hsame => ?_⟩
  -- what is found in the other store, by the same theorem
  obtain ⟨others, moved, again, hothers, hmoved, hmovedAscend, hagain, hotherRun⟩ :=
    exists_run haccepted hplain hother hotherIds hhooks hsound hselections haggregates hpage hplan
  have hfits := hfilled.fits hplain
  have hotherFits := hother.fits hplain
  -- the rows are the same in another order, and so in the same order
  have hrows : moved = rows := by
    have hback := hsame.matching_perm hfits hotherFits hmatching hothers
    -- identifiers do not depend on the order of the tables, so both lists ascend by the same
    -- relation
    have hPrecedes : search.Precedes other = search.Precedes store := by
      funext first second
      rw [Precedes, Precedes, hsame.idOf_eq hfits hotherFits]
    rw [hPrecedes] at hmovedAscend
    refine List.Perm.eq_of_pairwise ?_ hmovedAscend hascend (hmoved.trans (hback.trans hperm.symm))
    intro first second hfirst hsecond hlt hlt'
    have hfirst := hback.mem_iff.mp (hmoved.mem_iff.mp hfirst)
    exact absurd hlt'
      (hlt.asymm haccepted hplain hfits hidentified hmatching hfirst (hperm.mem_iff.mp hsecond))
  -- nor does the entity of a row: what its associations lead to is found by identifiers
  have hentityOf : search.entityOf other = search.entityOf store := by
    funext row
    rw [entityOf, entityOf, hsame.recordOf_eq hfits hotherFits haccepted hplain hidentified]
  rw [hrows, hentityOf, hfound] at hagain
  rw [hotherRun, hrun, hrows, Except.ok.inj hagain]

end Search

/-- The same authors and books, added the other way round. -/
def Shelf.reversed : Json :=
  .obj [
    ("Book", .arr [.obj [("id", .int 2), ("title", .str "El Aleph"), ("author", .int 1)],
      .obj [("id", .int 1), ("title", .str "Ficciones"), ("author", .int 1)]]),
    ("Author",
      .arr [.obj [("id", .int 1), ("name", .str "Borges")],
        .obj [("id", .int 2), ("name", .str "Calvino")]])]

theorem Shelf.rearranged : Shelf.store.Rearranged Shelf.catalog (Shelf.storeOf Shelf.reversed) := by
  intro e he
  have he : e ∈ [_, _] := he
  rw [List.mem_cons, List.mem_singleton] at he
  rcases he with rfl | rfl
  · exact .swap _ _ []
  · exact .swap _ _ []

/-- An author is found once, also if the filter is true of two books, in whatever order these were
added. -/
theorem Search.run_entities_shelf :
    ∃ tree found info, FilterReader.read Shelf.catalog "Author" Shelf.booksFilter =
      .ok (some tree) ∧
      found.length = 1 ∧
      (Shelf.search.run Shelf.store { Request.all with groups := [tree] } .never).1 =
        .ok ⟨.entities found, info⟩ ∧
      (Shelf.search.run (Shelf.storeOf Shelf.reversed)
        { Request.all with groups := [tree] } .never).1 =
        .ok ⟨.entities found, info⟩ := by
  have hread : ∃ tree, FilterReader.read Shelf.catalog "Author" Shelf.booksFilter =
      .ok (some tree) ∧
      ∃ planned, Shelf.search.planFor { Request.all with groups := [tree] } none = .ok planned ∧
        ∃ rows, Shelf.search.matching Shelf.store { Request.all with groups := [tree] } = .ok rows ∧
          rows.length = 1 := ⟨_, rfl, _, rfl, _, rfl, rfl⟩
  obtain ⟨tree, hread, planned, hplan, matching, hmatching, hlength⟩ := hread
  have haccepted : Catalog.of Shelf.catalog.entities none = .ok Shelf.search.catalog := rfl
  obtain ⟨_, rows, found, info, hrows, hperm, -, hfound, hrun, hother⟩ :=
    Search.run_entities haccepted (by decide) Shelf.filled Shelf.identified rfl
      (Shelf.sound_of_read hread) rfl rfl rfl hplan
  obtain rfl := Except.ok.inj (hmatching.symm.trans hrows)
  have hone : found.length = 1 := by
    rw [← (Outcome.mapM_eq_ok_iff.mp hfound).length_eq, hperm.length_eq, hlength]
  have hreversed :=
    hother (Shelf.storeOf Shelf.reversed) (Shelf.filled_storeOf rfl) (by decide) Shelf.rearranged
  exact ⟨tree, found, info, hread, hone, hrun, hreversed.trans hrun⟩

end EntityQuery
