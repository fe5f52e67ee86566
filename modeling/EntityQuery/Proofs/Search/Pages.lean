import EntityQuery.Proofs.Search.Answers
import EntityQuery.Proofs.Search.Whole
import Mathlib.Order.Bounds.Basic

/-!
# Data about a page

The data about a page are told by two answers of a store.  The records of the page are one of them.
The number of all results is the other: for rows the number of the records without a window, for
whole entities a count of the rows of the root.  So for rows the page is a part of what has been
counted, whatever the store holds.  For whole entities the two have to be seen to agree: the count
tells the joined rows of a row of the root by its identifier, the results are told apart by all that
they show.  Where rows of the root have identifiers of their own, both leave one for every row of
the root that has kept rows.

This does not depend on which joined rows are kept, and so neither on what the predicate says nor on
how the columns of the filters are renamed.

## Main definitions

* `Planned.OfEntities` : a plan that shows whole entities
* `Search.TellsApart` : rows of the root can be told apart

## Main statements

* `exists_fetch_of_count` : the count of a plan for whole entities is the number of its records
* `page_described` : the data about a page describe it as a part of all results
-/

namespace EntityQuery

variable {c : Catalog} {root : String} {s : Store} {r : Request} {p : Plan} {planned : Planned}
  {fields : List Field} {table : Table} {source flow : Flow} {rows : List Row}
  {signal other : Signal}

/-! ## Numbers of pages -/

theorem PageInfo.isLeast_pages {size : Nat} (hsize : 0 < size) (total : Nat) :
    IsLeast {pages | total ≤ pages * size} ((total + size - 1) / size) := by
  constructor
  · have hlt := Nat.lt_div_mul_add (a := total + size - 1) (b := size) hsize
    rw [Set.mem_ofPred_eq]
    omega
  · intro pages hpages
    rw [Set.mem_ofPred_eq] at hpages
    refine Nat.le_of_lt_succ ((Nat.div_lt_iff_lt_mul hsize).mpr ?_)
    rw [Nat.succ_mul]
    omega

@[simp] theorem PageInfo.total_of (window : Option Window) (count total : Nat) :
    (of window count total).total = total := by
  unfold of
  repeat' split
  all_goals rfl

@[simp] theorem PageInfo.currentPageCount_of (window : Option Window) (count total : Nat) :
    (of window count total).currentPageCount = count := by
  unfold of
  repeat' split
  all_goals rfl

theorem PageInfo.of_page {size : Nat} (hsize : 0 < size) (number count total : Nat) :
    of (some ⟨number * size, size⟩) count total =
      ⟨number, size, (total + size - 1) / size, count, total⟩ := by
  simp [of, hsize]

/-- The window of a page, if its size is not refused. -/
theorem PageRequest.window_eq_ok {config : Config} {page : PageRequest} {w : Window}
    (hwindow : page.window config = .ok w) :
    0 < page.size.getD config.defaultPageSize ∧
      w = ⟨page.number * page.size.getD config.defaultPageSize,
        page.size.getD config.defaultPageSize⟩ := by
  unfold window at hwindow
  dsimp only at hwindow
  split at hwindow
  · simp at hwindow
  · next hsize =>
    split at hwindow
    · simp at hwindow
    · exact ⟨by omega, (Except.ok.inj hwindow).symm⟩

/-! ## Sources -/

theorem Store.source_eq_ok {joined : Flow} (htable : s.table p.table = .ok table)
    (hjoined : p.joins.foldlM s.addJoin (.ofRows table.schema table.rows) = .ok joined)
    (hsource : s.source p = .ok source) : ∃ predicate, source = .filter joined predicate false := by
  rw [Store.source, scan, htable, Outcome.ok_bind, pure_bind, hjoined, Outcome.ok_bind] at hsource
  obtain ⟨bound, -, hsource⟩ := Outcome.bind_eq_ok_iff.mp (Outcome.mapError_eq_ok_iff.mp hsource)
  obtain ⟨-, -, hsource⟩ := Outcome.bind_eq_ok_iff.mp hsource
  exact ⟨bound, (Except.ok.inj hsource).symm⟩

/-- The rows that a plan shows which neither groups nor pages, up to their order. -/
theorem Plan.exists_runs_of_shape (hshape : p.unpaged.shape source = .ok flow)
    (hsource : source.Runs rows none) (haggregate : p.isAggregate = false) (hne : p.projection ≠ [])
    (hprojection : ∀ q ∈ p.projection, q.column ∈ source.schema.names) :
    ∃ shown, flow.Runs shown none ∧ shown.Perm
      (let picked := rows.map fun row => p.projection.map fun q =>
        row.cell source.schema.names q.column
      if p.distinct then Row.firsts [] [] picked else picked) := by
  obtain ⟨grouped, projected, ordered, hgroup, hproject, horder, rfl⟩ := shape_eq_ok hshape
  rcases group_eq_ok hgroup with ⟨-, rfl⟩ | ⟨haggregated, -⟩
  · obtain ⟨columns, hcolumns, hpicked⟩ := exists_project hprojection
    obtain rfl : Flow.project grouped columns false = projected :=
      Except.ok.inj (hcolumns.symm.trans hproject)
    have hruns := Flow.runs_project hsource columns
    rw [List.map_congr_left fun row _ => (hpicked hne).2 row] at hruns
    exact exists_runs_of_order horder (p.runs_dedupe hruns)
  · have htrue : p.isAggregate = true := haggregated
    rw [haggregate] at htrue
    simp at htrue

/-! ## Plans that show whole entities -/

namespace Planned

/-- A plan that shows whole entities: all fields of them, from the joined rows of a table. -/
structure OfEntities (c : Catalog) (root : String) (s : Store) (fields : List Field) (table : Table)
    (planned : Planned) : Prop where
  whole : s.ShowsWhole c root planned.plan.joins fields table
  table_eq : s.table planned.plan.table = .ok table
  columns_eq : planned.plan.projection.map Projected.column = fields.map Field.columnPath
  aggregate_eq : planned.plan.isAggregate = false
  distinct_of_toMany : planned.plan.hasToManyJoin = true → planned.plan.distinct = true
  idColumn_eq : ∃ id, c.idAttribute root = .ok id ∧
    planned.plan.idColumn = c.columnName root id.name

namespace OfEntities

variable (h : planned.OfEntities c root s fields table)
include h

theorem columns_of_source (hsource : s.source planned.plan = .ok source) :
    source.schema = s.joinedSchema planned.plan.joins table.schema ∧
      ∀ q ∈ planned.plan.projection, q.column ∈ source.schema.names := by
  obtain ⟨places, joined, hjoined, hcolumns⟩ := h.whole.exists_joined
  obtain ⟨predicate, rfl⟩ := Store.source_eq_ok h.table_eq hjoined.built hsource
  refine ⟨hjoined.schema, fun q hq => ?_⟩
  have hcolumn : q.column ∈ fields.map Field.columnPath := h.columns_eq ▸ List.mem_map_of_mem hq
  obtain ⟨f, hf, hcolumn⟩ := List.mem_map.mp hcolumn
  obtain ⟨type, hmem⟩ := hcolumns f hf
  exact hcolumn ▸ List.mem_map_of_mem hmem

theorem exists_kept (hsource : s.source planned.plan = .ok source) (hrows : source.Runs rows none) :
    ∃ keep, rows = s.keptRows planned.plan.joins keep table := by
  obtain ⟨places, joined, hjoined, -⟩ := h.whole.exists_joined
  obtain ⟨predicate, rfl⟩ := Store.source_eq_ok h.table_eq hjoined.built hsource
  obtain ⟨keep, rfl⟩ := Flow.exists_keep_of_filter hjoined.runs hrows
  exact ⟨keep, List.filter_flatMap⟩

theorem exists_idPosition :
    ∃ i, (s.joinedSchema planned.plan.joins table.schema).position? planned.plan.idColumn = some i ∧
      table.schema.position? planned.plan.idColumn = some i := by
  obtain ⟨e, he, htable⟩ := h.whole.table_eq
  obtain ⟨id, type, -, hid, htype, -⟩ := h.whole.exists_id
  obtain ⟨id', hid', hcolumn⟩ := h.idColumn_eq
  obtain rfl : id = id' := Except.ok.inj (hid.symm.trans hid')
  obtain ⟨i, hi⟩ := Store.exists_position_of_id h.whole.plain h.whole.fits he htable hid htype
  obtain ⟨rest, hrest⟩ := Store.exists_append_joinedSchema (s := s) planned.plan.joins table.schema
  rw [hcolumn, hrest]
  exact ⟨i, Schema.position?_append_left hi rest, hi⟩

/-- One joined row is counted for every row of the root of which joined rows are kept. -/
theorem length_counted (keep : Row → Bool) :
    (planned.plan.countedRows (s.joinedSchema planned.plan.joins table.schema)
        (s.keptRows planned.plan.joins keep table)).length =
          (s.keptRoots planned.plan.joins keep table).length := by
  obtain ⟨entities, fallback, haccepted⟩ := h.whole.accepted
  obtain ⟨e, he, htable⟩ := h.whole.table_eq
  obtain ⟨steps, places, -, hsteps, -⟩ := h.whole.closed
  obtain ⟨id, hid, hcolumn⟩ := h.idColumn_eq
  obtain ⟨i, hjoined, hi⟩ := h.exists_idPosition
  rw [Store.keptRoots, ← Row.length_filterMap_head?]
  unfold Plan.countedRows
  split
  · rw [hjoined, Option.toList_some,
      Store.firsts_keptRows haccepted h.whole.plain h.whole.fits h.whole.identified he
      htable hid (hcolumn ▸ hi)]
  · next hnone =>
    rw [Bool.not_eq_true, Bool.or_eq_false_iff, Plan.hasToManyJoin, List.any_eq_false] at hnone
    rw [Store.keptRows_of_toOne haccepted h.whole.plain h.whole.fits h.whole.identified
      fun j hj => ?_]
    obtain ⟨step, -, hstep⟩ := Outcome.exists_of_mem_mapM hsteps hj
    exact ⟨by simpa using hnone.2 j hj, step, hstep⟩

theorem length_shown (keep : Row → Bool) :
    (let picked := (s.keptRows planned.plan.joins keep table).map
      (s.shownOf planned.plan.joins fields table.schema)
      if planned.plan.distinct then Row.firsts [] [] picked else picked).length =
      (s.keptRoots planned.plan.joins keep table).length := by
  dsimp only
  split
  · rw [h.whole.firsts_shown, List.length_map]
  · next hdistinct =>
    have hnone := mt h.distinct_of_toMany hdistinct
    rw [Plan.hasToManyJoin, Bool.not_eq_true, List.any_eq_false] at hnone
    rw [h.whole.shown_of_toOne fun j hj => by simpa using hnone j hj, List.length_map]

theorem projection_ne_nil : planned.plan.projection ≠ [] := by
  intro hnil
  obtain ⟨-, -, f, -, -, hf, -⟩ := h.whole.exists_id
  have hnone : fields = [] := by simpa [hnil] using h.columns_eq.symm
  simp [hnone] at hf

theorem picked_eq_shownOf :
    (fun row : Row => planned.plan.projection.map fun q =>
        row.cell (s.joinedSchema planned.plan.joins table.schema).names q.column) =
      s.shownOf planned.plan.joins fields table.schema := by
  funext row
  have hcells :=
    congrArg (List.map (row.cell (s.joinedSchema planned.plan.joins table.schema).names))
      h.columns_eq
  rwa [List.map_map, List.map_map] at hcells

/-- As many rows are shown as are counted. -/
theorem exists_shown (hsource : s.source planned.plan = .ok source) (hrows : source.Runs rows none)
    (hshape : planned.plan.unpaged.shape source = .ok flow) :
    ∃ shown, flow.Runs shown none ∧
      shown.length = (planned.plan.countedRows source.schema rows).length ∧
      shown.length ≤ table.rows.length := by
  obtain ⟨hschema, hprojection⟩ := h.columns_of_source hsource
  obtain ⟨keep, rfl⟩ := h.exists_kept hsource hrows
  obtain ⟨shown, hshown, hperm⟩ :=
    Plan.exists_runs_of_shape hshape hrows h.aggregate_eq h.projection_ne_nil hprojection
  rw [hschema, h.picked_eq_shownOf] at hperm
  have hlength : shown.length = (s.keptRoots planned.plan.joins keep table).length := by
    rw [hperm.length_eq, h.length_shown keep]
  refine ⟨shown, hshown, ?_, hlength ▸ List.length_filter_le _ _⟩
  rw [hlength, hschema, h.length_counted keep]

/-- The count of a plan for whole entities is the number of its records. -/
theorem exists_fetch_of_count (hcountable : s.Countable) {records : List Record}
    (hfetch : (s.fetch planned.plan signal).1 = .ok records) {n : Nat}
    (hcount : (s.count planned.plan other).1 = .ok n) :
    ∃ all, s.fetch planned.plan.unpaged .never = (.ok all, .never) ∧ all.length = n := by
  obtain ⟨source, rows, hsource, hrows, hn, -⟩ := Store.exists_of_count hcount
  obtain ⟨source', flow, -, hsource', hshape, -, -⟩ := Store.exists_of_fetch hfetch
  obtain rfl : source = source' := Except.ok.inj (hsource.symm.trans hsource')
  obtain ⟨all, hall, -⟩ := Plan.shape_unpaged hshape
  obtain ⟨shown, hshown, hlength, hle⟩ := h.exists_shown hsource hrows hall
  refine ⟨_, Store.fetch_of_runs hsource hall hshown, ?_⟩
  rw [List.length_map, hn, ← hlength,
    Store.countOf_ofNat (Nat.lt_of_le_of_lt hle (hcountable.length_lt h.table_eq))]

end OfEntities

end Planned

/-! ## Searches -/

namespace Search

variable {search : Search} {store : Store}

/-- Rows of the root are told apart by their identifiers, and the filters and parameters test fields
of the catalog. -/
structure TellsApart (search : Search) (store : Store) (r : Request) : Prop where
  accepted : ∃ entities fallback, Catalog.of entities fallback = .ok search.catalog
  plain : search.catalog.Plain
  filled : store.Filled search.catalog
  identified : store.Identified search.catalog
  countable : store.Countable
  resolved : ∀ f ∈ r.fields, f.Resolved search.catalog search.root

theorem exists_ofEntities
    (happart : r.selections = [] → r.aggregates = none → search.TellsApart store r)
    {window : Option Window} (hplan : search.planFor r window = .ok planned)
    (hshape : planned.shape = .entities) :
    store.Countable ∧ ∃ fields table,
      planned.OfEntities search.catalog search.root store fields table := by
  obtain ⟨e, id, compiled, shown, shape, joins, he, hid, hcompiled, hshown, hjoins, rfl⟩ :=
    Planner.plan_eq_ok hplan
  obtain ⟨-, ⟨hselections, haggregates⟩, hshown⟩ | ⟨hrows, -⟩ := Planner.shown_eq_ok hshown
  · have h := happart hselections haggregates
    have hfits := h.filled.fits h.plain
    have he := Catalog.knows_of_entity he
    obtain ⟨table, htable, -, -⟩ := hfits.exists_table he
    obtain ⟨e', fields, id', he', hfields, hid', rfl⟩ := Planner.showEntity_eq_ok hshown
    have hwhole :=
      Store.ShowsWhole.of_joins h.accepted h.plain hfits h.identified he htable h.resolved hcompiled
        hfields hjoins
    refine ⟨h.countable, fields, table, ⟨hwhole, htable, ?_, rfl, ?_, id, hid, rfl⟩⟩
    · rw [List.map_map]
      rfl
    · intro htoMany
      have hshape : shape = .entities := hshape
      have hany : joins.any Join.toMany = true := htoMany
      simp [hshape, hany]
  · have hshape : shape = .entities := hshape
    simp [hshape] at hrows

theorem planFor_unpaged {window : Option Window} (hplan : search.planFor r window = .ok planned) :
    search.planFor { r with page := none } none = .ok ⟨planned.plan.unpaged, planned.shape⟩ := by
  obtain ⟨e, id, compiled, shown, shape, joins, he, hid, hcompiled, hshown, hjoins, rfl⟩ :=
    Planner.plan_eq_ok hplan
  have hcompiled : Planner.predicate search.hooks { r with page := none } = .ok compiled :=
    hcompiled
  have hshown : Planner.shown search.catalog search.root search.config.wrapperMarker
      { r with page := none } =
      .ok (shown, shape) := hshown
  simp [planFor, Planner.plan, he, hid, hcompiled, hshown, hjoins, Plan.unpaged]

theorem window_of_planFor {window : Option Window} (hplan : search.planFor r window = .ok planned) :
    planned.plan.window = window := by
  obtain ⟨e, id, compiled, shown, shape, joins, -, -, -, -, -, rfl⟩ := Planner.plan_eq_ok hplan
  rfl

theorem window_eq_ok {window : Option Window} (hwindow : search.window r = .ok window) :
    (r.page = none ∧ window = none) ∨
      ∃ page w, r.page = some page ∧ page.window search.config = .ok w ∧ window = some w := by
  unfold Search.window at hwindow
  cases hpage : r.page with
  | none =>
      rw [hpage] at hwindow
      exact .inl ⟨rfl, (Except.ok.inj hwindow).symm⟩
  | some page =>
      rw [hpage] at hwindow
      obtain ⟨w, hw, hwindow⟩ := Outcome.bind_eq_ok_iff.mp hwindow
      exact .inr ⟨page, w, rfl, hw, (Except.ok.inj hwindow).symm⟩

@[simp] theorem length_hits (shape : ResultShape) (records : List Record) :
    (search.hits shape records).length = records.length := by
  cases shape <;> simp [hits, Hits.length]

/-- The number of all results is the same for every window, and does not depend on the signal. -/
theorem total_windowed {n : Nat} (htotal : (total store planned signal).1 = .ok n)
    (window : Option Window) :
    total store ⟨{ planned.plan with window := window }, planned.shape⟩ .never =
      (.ok n, .never) := by
  have haggregate : Plan.isAggregate { planned.plan with window := window } =
      planned.plan.isAggregate := rfl
  have hunpaged : Plan.unpaged { planned.plan with window := window } = planned.plan.unpaged := rfl
  unfold total at htotal ⊢
  rw [haggregate, hunpaged]
  split at htotal
  · next hrows =>
    obtain ⟨all, after, hall, hn⟩ := andThen_eq_ok htotal
    have hall := Store.fetch_never (fetch_eq_ok (by rw [hall]))
    have hn : all.length = n := Except.ok.inj hn
    simp [hrows, andThen, fetch, given, hall, hn, Except.mapError]
  · next hentities =>
    obtain ⟨-, -, -, -, -, hcount⟩ := Store.exists_of_count (countOf_eq_ok htotal)
    have hcount : store.count { planned.plan with window := window } .never = (.ok n, .never) :=
      hcount
    rw [if_neg hentities]
    simp [countOf, hcount, Except.mapError]

/-- The total of a plan is the number of its records without a window, and is told of these
again. -/
theorem exists_fetch_of_total
    (happart : r.selections = [] → r.aggregates = none → search.TellsApart store r)
    {window : Option Window} (hplan : search.planFor r window = .ok planned) {records : List Record}
    (hfetch : (store.fetch planned.plan signal).1 = .ok records) {n : Nat}
    (htotal : (total store planned other).1 = .ok n) :
    ∃ all, store.fetch planned.plan.unpaged .never = (.ok all, .never) ∧ all.length = n ∧
      total store ⟨planned.plan.unpaged, planned.shape⟩ .never = (.ok n, .never) := by
  have hagain : total store ⟨planned.plan.unpaged, planned.shape⟩ .never = (.ok n, .never) :=
    total_windowed htotal none
  unfold total at htotal
  split at htotal
  · obtain ⟨all, after, hall, hn⟩ := andThen_eq_ok htotal
    exact ⟨all, Store.fetch_never (fetch_eq_ok (by rw [hall])), Except.ok.inj hn, hagain⟩
  · next hentities =>
    simp only [Bool.or_eq_true, decide_eq_true_eq, not_or] at hentities
    have hcount := countOf_eq_ok htotal
    have hshape : planned.shape = .entities := by
      cases hshape : planned.shape with
      | entities => rfl
      | rows => exact absurd hshape hentities.2
    obtain ⟨hcountable, fields, table, h⟩ := exists_ofEntities happart hplan hshape
    obtain ⟨all, hall, hn⟩ := h.exists_fetch_of_count hcountable hfetch hcount
    exact ⟨all, hall, hn, hagain⟩

/-- The data about a page, if they are asked for, describe it as a part of the results without a
page: the total is the number of these, the number of pages the least that holds them, and the
number of results on the page what is left of them behind the pages before, up to its size.  Without
a page all results are on the only one. -/
theorem page_described (hdata : r.pageData = true)
    (happart : r.selections = [] → r.aggregates = none → search.TellsApart store r)
    {result : ResultPage} (hrun : (search.run store r signal).1 = .ok result) :
    ∃ whole info, (search.run store { r with page := none } .never).1 = .ok whole ∧
      result.info = some info ∧
      info.total = whole.hits.length ∧ info.currentPageCount = result.hits.length ∧
      match r.page with
      | some page =>
        let size := page.size.getD search.config.defaultPageSize
        info.currentPage = page.number ∧ info.pageSize = size ∧
          IsLeast {pages | whole.hits.length ≤ pages * size} info.totalPages ∧
          result.hits.length = min size
            (whole.hits.length - min whole.hits.length (page.number * size))
      | none =>
        info.currentPage = 0 ∧ info.pageSize = whole.hits.length ∧
          result.hits.length = whole.hits.length ∧
          info.totalPages = if 0 < whole.hits.length then 1 else 0 := by
  obtain ⟨window, planned, records, n, hwindow, hplan, ⟨_, hfetch⟩, ⟨_, htotal⟩, rfl⟩ :=
    run_eq_ok hdata hrun
  obtain ⟨all, hall, rfl, htotal⟩ := exists_fetch_of_total happart hplan hfetch htotal
  have hwhole :=
    run_of_never (r := { r with page := none }) hdata rfl (planFor_unpaged hplan) hall htotal
  have hrecords := Store.fetch_window hfetch (by rw [hall])
  rw [window_of_planFor hplan] at hrecords
  refine ⟨_, _, by rw [hwhole], rfl, by simp, by simp, ?_⟩
  rcases window_eq_ok hwindow with ⟨hpage, rfl⟩ | ⟨page, w, hpage, hw, rfl⟩
  · obtain rfl : records = all := hrecords
    simp [hpage, PageInfo.of, PageInfo.of.onePage]
  · obtain ⟨hsize, rfl⟩ := PageRequest.window_eq_ok hw
    have hleft : ∀ offset size : Nat, ((all.drop offset).take size).length =
        min size (all.length - min all.length offset) := by
      intro offset size
      rw [List.length_take, List.length_drop]
      omega
    rw [hpage]
    dsimp only
    rw [PageInfo.of_page hsize, length_hits, length_hits]
    exact ⟨rfl, rfl, PageInfo.isLeast_pages hsize _, by rw [hrecords, hleft]⟩

end Search

/-- A request for the second page, one author long, of the author of two books and another, with
data about it. -/
def Shelf.secondPage : WireRequest :=
  { WireRequest.empty with
    filters := [.obj [("or", .arr [Shelf.booksFilter, .obj [("id", .obj [("eq", .int 2)])]])]]
    fields := [⟨"total", none, none, .asc⟩]
    page := some ⟨1, some 1⟩ }

/-- Three joined rows make two results, and the second of them is on the page. -/
theorem Search.page_described_shelf :
    ∃ r result whole info, Shelf.search.read Shelf.secondPage = .ok r ∧
      (Shelf.search.run Shelf.store r .never).1 = .ok result ∧
      (Shelf.search.run Shelf.store { r with page := none } .never).1 = .ok whole ∧
      result.info = some info ∧
      whole.hits.length = 2 ∧ info.total = 2 ∧ info.currentPage = 1 ∧ result.hits.length = 1 := by
  have hrun : ((Shelf.search.read Shelf.secondPage).toOption.any fun r =>
      r.pageData && decide (r.page = some ⟨1, some 1⟩) &&
        (Shelf.search.run Shelf.store r .never).1.toOption.isSome &&
        (Shelf.search.run Shelf.store { r with page := none } .never).1.toOption.any fun whole =>
          whole.hits.length == 2) = true := by
    decide +kernel
  obtain ⟨r, hread, hrun⟩ := (Option.any_eq_true _ _).mp hrun
  have hread := Outcome.toOption_eq_some_iff.mp hread
  simp only [Bool.and_eq_true, decide_eq_true_eq, Option.isSome_iff_exists, Option.any_eq_true,
    beq_iff_eq, Outcome.toOption_eq_some_iff] at hrun
  obtain ⟨⟨⟨hdata, hpage⟩, result, hresult⟩, whole, hwhole, hlength⟩ := hrun
  have hsound : r.Sound Shelf.catalog "Author" := WireRequest.sound_of_read (by decide) hread
  have happart : Shelf.search.TellsApart Shelf.store r :=
    ⟨⟨Shelf.catalog.entities, none, rfl⟩, by decide, Shelf.filled, Shelf.identified, by decide,
      hsound.resolved⟩
  obtain ⟨whole', info, hwhole', hinfo, htotal, -, hpaged⟩ :=
    Search.page_described hdata (fun _ _ => happart) hresult
  obtain rfl : whole = whole' := Except.ok.inj (hwhole.symm.trans hwhole')
  rw [hpage] at hpaged
  obtain ⟨hnumber, -, -, hshown⟩ := hpaged
  rw [hlength] at htotal hshown
  exact ⟨r, result, whole, info, hread, hresult, hwhole, hinfo, hlength, htotal, hnumber, hshown⟩

end EntityQuery
