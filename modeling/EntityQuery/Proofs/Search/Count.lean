import EntityQuery.Proofs.Flow.Distinct
import EntityQuery.Proofs.Search.Source
import EntityQuery.Proofs.Store.Identified
import Mathlib.Algebra.Group.Nat.Defs

/-!
# Counting rows of the root

To count, the joined rows are cut down to one for each row of the root, if a join may repeat it, and
are then counted.  Either way the number is that of the rows of the root that are meant: with a join
that may repeat rows, the first rows of the blocks that the joins make are counted, each block
having the identifier of its row for its key; without one, every block has one row at most.

Which rows of the root are meant depends on the filters and parameters alone, and so does the count,
whatever else is joined for selections or aggregates.

## Main definitions

* `Store.countedRows` : the joined rows that are counted
* `Store.keptOf`, `Store.keptRows` : the joined rows of one row of the root, or of all, that are
  kept
* `Store.keptRoots` : the rows of the root of which joined rows are kept

## Main statements

* `count_of_sourced` : the count of a plan is the number of the rows that are counted
* `length_countedRows` : that is the number of the rows of the root that are meant
* `count_matching` : the count of a search is the number of matching rows, whatever is selected or
  aggregated
-/

namespace EntityQuery

variable {c : Catalog} {entities : List Entity} {fallback : Option ScalarType}
  {root : String} {s : Store} {r : Request} {e : Entity} {table : Table} {fields : List Field}
  {p : Plan} {flow : Flow}

/-! ## Counting the rows of a flow -/

theorem Group.collect_count (t : Tally) (rows : List Row) :
    collect [⟨.count, none⟩] [] [⟨[], [t]⟩] rows =
      .ok [⟨[], [{ t with count := t.count + rows.length }]⟩] := by
  induction rows generalizing t with
  | nil => rfl
  | cons row rows ih =>
      have hadd : addRow [⟨.count, none⟩] (row.keyOf []) row [⟨[], [t]⟩] =
          ([⟨[], [t.counted]⟩], none) := rfl
      rw [collect, hadd]
      dsimp only
      rw [ih, List.length_cons, Tally.counted, Nat.add_assoc, Nat.add_comm 1]

theorem Group.exists_collect_count (rows : List Row) :
    ∃ groups, collect [⟨.count, none⟩] [] [] rows = .ok groups ∧
      Flow.completed [] [(⟨.count, none⟩, "count(*)")] groups =
        [⟨[], [⟨rows.length, 0, 0, none⟩]⟩] := by
  cases rows with
  | nil => exact ⟨[], rfl, rfl⟩
  | cons row rows =>
      have hadd : addRow [⟨.count, none⟩] (row.keyOf []) row [] =
          ([⟨[], [Tally.empty.counted]⟩], none) := rfl
      refine ⟨[⟨[], [⟨rows.length + 1, 0, 0, none⟩]⟩], ?_, rfl⟩
      rw [collect, hadd]
      dsimp only
      rw [collect_count, Tally.counted, Tally.empty, Nat.zero_add, Nat.add_comm 1]

theorem Flow.exists_runs_count {input : Flow} {rows : List Row} (hinput : input.Runs rows none) :
    ∃ counter, input.groupBy [] [(⟨.count, none⟩, none)] = .ok counter ∧
      counter.Runs [[.int64 (Int64.ofNat rows.length)]] none := by
  obtain ⟨groups, hgroups, hcompleted⟩ := Group.exists_collect_count rows
  have hruns := Flow.runs_aggregate hinput [] [(⟨.count, none⟩, "count(*)")]
  rw [List.map_singleton, hgroups, aggregateRows, aggregateFault, hcompleted] at hruns
  exact ⟨_, rfl, hruns⟩

theorem Flow.exists_fault_count {input : Flow} {rows : List Row} {fault : FlowFault}
    (hinput : input.Runs rows (some fault)) :
    ∃ counter, input.groupBy [] [(⟨.count, none⟩, none)] = .ok counter ∧
      counter.Runs [] (some fault) := by
  obtain ⟨groups, hgroups, -⟩ := Group.exists_collect_count rows
  have hruns := Flow.runs_aggregate hinput [] [(⟨.count, none⟩, "count(*)")]
  rw [List.map_singleton, hgroups] at hruns
  exact ⟨_, rfl, hruns⟩

namespace Store

/-- The joined rows that are counted: one for every identifier, if a row of the root may be
repeated. -/
def countedRows (s : Store) (r : Request) (p : Plan) (table : Table) (i : Nat) : List Row :=
  if p.distinct || p.hasToManyJoin then Row.firsts [i] [] (s.joinedRows r p.joins table)
  else s.joinedRows r p.joins table

/-- The rows of a plan are counted after repeated ones have been left out. -/
theorem exists_counter (hsourced : Sourced c root s r fields table p flow) {i : Nat}
    (hi : table.schema.position? p.idColumn = some i) :
    ∃ counter, p.counter flow = .ok counter ∧
      counter.Runs [[.int64 (Int64.ofNat (s.countedRows r p table i).length)]] none := by
  have hposition : flow.schema.position? p.idColumn = some i := by
    obtain ⟨rest, hrest⟩ := exists_append_joinedSchema (s := s) p.joins table.schema
    rw [hsourced.schema, hrest]
    exact Schema.position?_append_left hi rest
  unfold Plan.counter countedRows
  split
  · have hlt := Schema.lt_of_position? hposition
    have hdistinct : flow.distinctOn [i] = .ok (.distinct flow [i] [] false) := by
      simp [Flow.distinctOn, hlt]
    obtain ⟨counter, hcounter, hruns⟩ :=
      Flow.exists_runs_count (Flow.runs_distinct hsourced.runs [i])
    refine ⟨counter, ?_, hruns⟩
    simp [Plan.position, hposition, hdistinct, hcounter]
  · obtain ⟨counter, hcounter, hruns⟩ := Flow.exists_runs_count hsourced.runs
    exact ⟨counter, hcounter, hruns⟩

/-- The count of a plan is the number of the rows that are counted. -/
theorem count_of_sourced (hsourced : Sourced c root s r fields table p flow) {i : Nat}
    (hi : table.schema.position? p.idColumn = some i) :
    (s.count p .never).1 = .ok
      (countOf [[.int64 (Int64.ofNat (s.countedRows r p table i).length)]]) := by
  obtain ⟨counter, hcounter, hruns⟩ := exists_counter hsourced hi
  obtain ⟨last, hrun⟩ := Flow.run_of_runs hruns
  simp [count, unlessCancelled, hsourced.source, hcounter, Except.mapError, runAll, hrun,
    Except.map]

/-! ## Blocks of joined rows -/

/-- The joined rows of one row of the root that are kept. -/
def keptOf (s : Store) (joins : List Join) (keep : Row → Bool) (schema : Schema)
    (row : Row) : List Row :=
  (s.expand joins schema row).filter keep

/-- The joined rows of all rows of the root that are kept. -/
def keptRows (s : Store) (joins : List Join) (keep : Row → Bool) (table : Table) : List Row :=
  table.rows.flatMap (s.keptOf joins keep table.schema)

/-- The rows of the root of which joined rows are kept. -/
def keptRoots (s : Store) (joins : List Join) (keep : Row → Bool) (table : Table) : List Row :=
  table.rows.filter fun row => !(s.keptOf joins keep table.schema row).isEmpty

/-- The joined rows of one row of the root of which a request is true. -/
def block (s : Store) (r : Request) (joins : List Join) (schema : Schema) (row : Row) : List Row :=
  (s.expand joins schema row).filter fun expanded =>
    r.truth (expanded.cell (s.joinedSchema joins schema).names)

theorem joinedRows_eq_flatMap (s : Store) (r : Request) (joins : List Join) (table : Table) :
    s.joinedRows r joins table = table.rows.flatMap (s.block r joins table.schema) := by
  rw [joinedRows, List.filter_flatMap]
  rfl

theorem satisfies_eq_not_isEmpty (s : Store) (r : Request) (joins : List Join) (schema : Schema)
    (row : Row) : s.satisfies r joins schema row = !(s.block r joins schema row).isEmpty := by
  rw [Bool.eq_iff_iff, satisfies, List.any_eq_true, Bool.not_eq_true',
    List.isEmpty_eq_false_iff_exists_mem]
  simp only [block, List.mem_filter]

theorem pairwise_getD (hplain : c.Plain) (hfits : s.Fits c) (hidentified : s.Identified c)
    (he : c.entity? root = some e) (htable : s.table e.tableName = .ok table) {id : Attribute}
    (hid : c.idAttribute root = .ok id) {type : ScalarType} (htype : c.idType root = .ok type)
    {i : Nat} (hi : table.schema.position? (c.columnName root id.name) = some i) :
    (∀ row ∈ table.rows, (row.getD i .null).ofType type = true) ∧
      table.rows.Pairwise fun a b => (a.getD i .null).sameKey (b.getD i .null) = false := by
  have hof (row : Row) (hrow : row ∈ table.rows) :=
    ofType_of_identified hplain hfits hidentified he hid htype htable hrow
  have hpairwise := hidentified.pairwise hplain hfits he hid htype htable
  simp only [Row.cell_eq_getD hi] at hof hpairwise
  exact ⟨hof, hpairwise⟩

/-- The first rows by identifier are the first rows of the blocks, since all rows of a block have
the identifier of their row of the root. -/
theorem firsts_keptRows (haccepted : Catalog.of entities fallback = .ok c) (hplain : c.Plain)
    (hfits : s.Fits c) (hidentified : s.Identified c) (he : c.entity? root = some e)
    (htable : s.table e.tableName = .ok table) {id : Attribute} (hid : c.idAttribute root = .ok id)
    {i : Nat} (hi : table.schema.position? (c.columnName root id.name) = some i) (joins : List Join)
    (keep : Row → Bool) :
    Row.firsts [i] [] (s.keptRows joins keep table) =
      table.rows.filterMap fun row => (s.keptOf joins keep table.schema row).head? := by
  obtain ⟨type, htype⟩ := Catalog.exists_idType haccepted ⟨e, he⟩
  obtain ⟨hof, happart⟩ := pairwise_getD hplain hfits hidentified he htable hid htype hi
  obtain ⟨found, hfound, -, hrows⟩ := hfits.exists_table he
  obtain rfl : table = found := Except.ok.inj (htable.symm.trans hfound)
  refine Row.firsts_flatMap (fun row => [row.getD i .null]) ?_ ?_ ?_ (by simp)
  · intro row hrow expanded hexpanded
    obtain ⟨rest, rfl⟩ := exists_append_of_mem_expand (List.mem_of_mem_filter hexpanded)
    have hlt : i < row.length := (hrows row hrow).length_eq ▸ Schema.lt_of_position? hi
    simp [Row.keyFor, Row.keyOf, List.getD_eq_getElem?_getD, List.getElem?_append_left hlt]
  · intro row hrow
    rw [Key.same, Value.sameKey_self (hof row hrow)]
    rfl
  · refine happart.imp fun {a b} h => ?_
    simp only [Key.same, h, Bool.false_and]

theorem keptRows_of_toOne (haccepted : Catalog.of entities fallback = .ok c) (hplain : c.Plain)
    (hfits : s.Fits c) (hidentified : s.Identified c) {joins : List Join}
    (hjoins : ∀ j ∈ joins, j.toMany = false ∧ ∃ step, Planner.join c step = .ok j)
    (keep : Row → Bool) (table : Table) :
    s.keptRows joins keep table =
      table.rows.filterMap fun row => (s.keptOf joins keep table.schema row).head? := by
  refine Row.flatMap_eq_filterMap fun row _ => ?_
  have hone : (s.expand joins table.schema row).length = 1 :=
    hidentified.length_expand haccepted hplain hfits hjoins table.schema row
  exact hone ▸ List.length_filter_le _ _

/-! ## The rows that are counted -/

/-- As many rows are counted as there are rows of the root that are meant. -/
theorem length_countedRows (haccepted : Catalog.of entities fallback = .ok c) (hplain : c.Plain)
    (hfits : s.Fits c) (hidentified : s.Identified c) (he : c.entity? root = some e)
    (htable : s.table e.tableName = .ok table) {id : Attribute} (hid : c.idAttribute root = .ok id)
    (hjoins : ∀ j ∈ p.joins, ∃ step, Planner.join c step = .ok j) {i : Nat}
    (hi : table.schema.position? (c.columnName root id.name) = some i) :
    (s.countedRows r p table i).length =
      (table.rows.filter (s.satisfies r p.joins table.schema)).length := by
  set keep : Row → Bool := fun row => r.truth (row.cell (s.joinedSchema p.joins table.schema).names)
  have hkept : s.block r p.joins table.schema = s.keptOf p.joins keep table.schema := rfl
  have hblocks : s.countedRows r p table i =
      table.rows.filterMap fun row => (s.block r p.joins table.schema row).head? := by
    unfold countedRows
    rw [joinedRows_eq_flatMap, hkept]
    split
    · exact firsts_keptRows haccepted hplain hfits hidentified he htable hid hi p.joins keep
    · next hnone =>
      rw [Bool.not_eq_true, Bool.or_eq_false_iff, Plan.hasToManyJoin, List.any_eq_false] at hnone
      have htoOne (j : Join) (hj : j ∈ p.joins) : j.toMany = false := by simpa using hnone.2 j hj
      exact keptRows_of_toOne haccepted hplain hfits hidentified
        (fun j hj => ⟨htoOne j hj, hjoins j hj⟩) keep table
  rw [hblocks, Row.length_filterMap_head?]
  congr 2
  funext row
  rw [satisfies_eq_not_isEmpty]

/-- No table has more rows than a signed machine word can count; a table in memory never has. -/
def Countable (s : Store) : Prop := ∀ t ∈ s.tables, t.2.rows.length < 2 ^ 63

instance (s : Store) : Decidable s.Countable :=
  inferInstanceAs (Decidable (∀ t ∈ s.tables, t.2.rows.length < 2 ^ 63))

theorem Countable.length_lt (hcountable : s.Countable) {name : String}
    (htable : s.table name = .ok table) : table.rows.length < 2 ^ 63 :=
  hcountable _ (Keyed.mem_of_lookup (table_eq_ok_iff.mp htable))

theorem countOf_ofNat {n : Nat} (hn : n < 2 ^ 63) : countOf [[.int64 (Int64.ofNat n)]] = n := by
  rw [countOf, Int64.toInt_ofNat_of_lt hn]
  rfl

end Store

/-! ## Counting in a search -/

namespace Search

variable {search : Search} {store : Store}

theorem matching_eq_ok (he : search.catalog.entity? search.root = some e)
    (htable : store.table e.tableName = .ok table) {joins : List Join}
    (hjoins : r.joinSteps.mapM (Planner.join search.catalog) = .ok joins) :
    search.matching store r = .ok (table.rows.filter (store.satisfies r joins table.schema)) := by
  simp [matching, Catalog.entity, he, hjoins, Store.table_eq_ok htable]

theorem matching_congr {other : Request} (hgroups : other.groups = r.groups)
    (hparameters : other.parameters = r.parameters) :
    search.matching store other = search.matching store r := by
  have hfields : other.fields = r.fields := by
    rw [Request.fields, Request.fields, hgroups, hparameters]
  have htruth (cells : Cells) : other.truth cells = r.truth cells := by
    rw [Request.truth, Request.truth, hgroups, hparameters]
  have hsatisfies : store.satisfies other = store.satisfies r := by
    funext joins schema row
    simp only [Store.satisfies, htruth]
  rw [matching, matching, Request.joinSteps, Request.joinSteps, hfields, hsatisfies]

/-- The matching rows are those that the joined rows of a plan stem from, whatever else it joins. -/
theorem matching_of_built (haccepted : Catalog.of entities fallback = .ok search.catalog)
    (hplain : search.catalog.Plain) (hfits : store.Fits search.catalog)
    (hsound : r.Sound search.catalog search.root) {marker : String} {window : Option Window}
    {planned : Planned} (b : planned.Built search.catalog search.root marker store r window) :
    search.matching store r =
      .ok (b.table.rows.filter (store.satisfies r planned.plan.joins b.table.schema)) := by
  obtain ⟨first, second, hfirst, hsplit, -⟩ := Request.exists_joins hsound b.compiled_eq b.joins_eq
  rw [matching_eq_ok b.entity_eq b.table_eq hfirst, hsplit]
  congr 1
  refine List.filter_congr fun row hrow => ?_
  rw [Store.any_expand_eq haccepted hplain hfits b.entity_eq b.table_eq hsound hfirst second hrow]

theorem count_of_built (haccepted : Catalog.of entities fallback = .ok search.catalog)
    (hplain : search.catalog.Plain) (hfits : store.Fits search.catalog)
    (hidentified : store.Identified search.catalog) (hsound : r.Sound search.catalog search.root)
    {marker : String} {window : Option Window} {planned : Planned}
    (b : planned.Built search.catalog search.root marker store r window) {rows : List Row}
    (hrows : search.matching store r = .ok rows) :
    (store.count planned.plan .never).1 =
      .ok (Store.countOf [[.int64 (Int64.ofNat rows.length)]]) := by
  obtain ⟨i, hi⟩ := b.exists_position hplain hfits
  rw [matching_of_built haccepted hplain hfits hsound b] at hrows
  rw [← Except.ok.inj hrows, Store.count_of_sourced b.sourced hi,
    Store.length_countedRows haccepted hplain hfits
    hidentified b.entity_eq b.table_eq b.id_eq b.exists_step (b.idColumn_eq ▸ hi)]

theorem exists_count (haccepted : Catalog.of entities fallback = .ok search.catalog)
    (hplain : search.catalog.Plain) (hfilled : store.Filled search.catalog)
    (hidentified : store.Identified search.catalog) (hcountable : store.Countable)
    (hhooks : search.hooks = .none) (hsound : r.Sound search.catalog search.root)
    {window : Option Window} {planned : Planned} (hplan : search.planFor r window = .ok planned) :
    ∃ rows, search.matching store r = .ok rows ∧
      (store.count planned.plan .never).1 = .ok rows.length := by
  have hfits := hfilled.fits hplain
  rw [planFor, hhooks] at hplan
  obtain ⟨b⟩ := Planned.nonempty_built haccepted hplain hfits hsound hplan
  have hrows := matching_of_built haccepted hplain hfits hsound b
  have hsmall : (b.table.rows.filter (store.satisfies r planned.plan.joins b.table.schema)).length <
      2 ^ 63 :=
    Nat.lt_of_le_of_lt (List.length_filter_le _ _) (hcountable.length_lt b.table_eq)
  refine ⟨_, hrows, ?_⟩
  rw [count_of_built haccepted hplain hfits hidentified hsound b hrows, Store.countOf_ofNat hsmall]

/-- The count of a search is the number of rows of the root with some row in their expansion, over
the associations that the filters and parameters use, that satisfies these.  So requests with the
same filters and parameters have the same count, whatever else they ask for. -/
theorem count_matching (haccepted : Catalog.of entities fallback = .ok search.catalog)
    (hplain : search.catalog.Plain) (hfilled : store.Filled search.catalog)
    (hidentified : store.Identified search.catalog) (hcountable : store.Countable)
    (hhooks : search.hooks = .none) {r : Request} (hsound : r.Sound search.catalog search.root)
    {planned : Planned} (hplan : search.planFor r none = .ok planned) :
    ∃ rows, search.matching store r = .ok rows ∧ (search.count store r .never).1 = .ok rows.length ∧
      ∀ (other : Request) (planned : Planned), other.groups = r.groups →
        other.parameters = r.parameters →
        search.planFor other none = .ok planned →
        (search.count store other .never).1 = .ok rows.length := by
  have hcount {r : Request} {planned : Planned} {n : Nat}
      (hplan : search.planFor r none = .ok planned)
      (hn : (store.count planned.plan .never).1 = .ok n) :
        (search.count store r .never).1 = .ok n := by
    simp [count, andThen, given, hplan, countOf, hn, Except.mapError]
  obtain ⟨rows, hrows, hn⟩ :=
    exists_count haccepted hplain hfilled hidentified hcountable hhooks hsound hplan
  refine ⟨rows, hrows, hcount hplan hn, fun other planned hgroups hparameters hplan => ?_⟩
  have hsound : other.Sound search.catalog search.root := by
    constructor
    · rw [hgroups]
      exact hsound.groups
    · rw [hparameters]
      exact hsound.parameters
  obtain ⟨others, hothers, hn⟩ :=
    exists_count haccepted hplain hfilled hidentified hcountable hhooks hsound hplan
  rw [matching_congr hgroups hparameters, hrows] at hothers
  obtain rfl := Except.ok.inj hothers
  exact hcount hplan hn

end Search

/-- Two authors, of whom one has two books and the other has none. -/
def Shelf.data : Json :=
  .obj [
    ("Author",
      .arr [.obj [("id", .int 2), ("name", .str "Calvino")],
        .obj [("id", .int 1), ("name", .str "Borges")]]),
    ("Book", .arr [.obj [("id", .int 1), ("title", .str "Ficciones"), ("author", .int 1)],
      .obj [("id", .int 2), ("title", .str "El Aleph"), ("author", .int 1)]])]

/-- The store with the authors and books of a data set. -/
def Shelf.storeOf (data : Json) : Store :=
  match Store.ofCatalog Shelf.catalog with
  | .ok s => (s.load data).1
  | .error _ => ⟨[], []⟩

/-- The store with these authors and books. -/
def Shelf.store : Store := Shelf.storeOf Shelf.data

/-- A search for authors. -/
def Shelf.search : Search := ⟨Shelf.catalog, "Author", .default, .none, .nested "author"⟩

theorem Shelf.filled_storeOf {data : Json} (hdata : data.isProper = true) :
    (Shelf.storeOf data).Filled Shelf.catalog := by
  have hempty : ∃ s, Store.ofCatalog Shelf.catalog = .ok s ∧ (s.load data).1 = Shelf.storeOf data :=
    ⟨_, rfl, rfl⟩
  obtain ⟨s, hs, hload⟩ := hempty
  rw [← hload]
  exact (Store.Filled.empty hs).load hdata

theorem Shelf.filled : Shelf.store.Filled Shelf.catalog := Shelf.filled_storeOf rfl

theorem Shelf.identified : Shelf.store.Identified Shelf.catalog := by
  decide

/-- Authors of a book with some letter in its title. -/
def Shelf.booksFilter : Json := .obj [("books", .obj [("title", .obj [("contains", .str "e")])])]

theorem Shelf.sound_of_read {tree : FilterTree}
    (hread : FilterReader.read Shelf.catalog "Author" Shelf.booksFilter = .ok (some tree)) :
    Request.Sound Shelf.catalog "Author" { Request.all with groups := [tree] } := by
  constructor
  · intro other hother
    rw [List.mem_singleton.mp hother]
    exact FilterReader.sound_of_read rfl hread
  · simp [Request.all]

/-- An author is counted once, also if the filter is true of two books. -/
theorem Search.count_matching_shelf :
    ∃ tree planned rows, FilterReader.read Shelf.catalog "Author" Shelf.booksFilter =
      .ok (some tree) ∧
      Shelf.search.planFor { Request.all with groups := [tree] } none = .ok planned ∧
      Shelf.search.matching Shelf.store { Request.all with groups := [tree] } = .ok rows ∧
      rows.length = 1 ∧
      (Shelf.search.count Shelf.store { Request.all with groups := [tree] } .never).1 = .ok 1 := by
  have hread : ∃ tree, FilterReader.read Shelf.catalog "Author" Shelf.booksFilter =
      .ok (some tree) ∧
      ∃ planned, Shelf.search.planFor { Request.all with groups := [tree] } none = .ok planned ∧
        ∃ rows, Shelf.search.matching Shelf.store { Request.all with groups := [tree] } = .ok rows ∧
          rows.length = 1 := ⟨_, rfl, _, rfl, _, rfl, rfl⟩
  obtain ⟨tree, hread, planned, hplan, rows, hrows, hlength⟩ := hread
  have hsound := Shelf.sound_of_read hread
  have haccepted : Catalog.of Shelf.catalog.entities none = .ok Shelf.search.catalog := rfl
  obtain ⟨found, hfound, hcount, -⟩ :=
    Search.count_matching haccepted (by decide) Shelf.filled Shelf.identified
      (by decide) rfl hsound hplan
  obtain rfl := Except.ok.inj (hrows.symm.trans hfound)
  exact ⟨tree, planned, rows, hread, hplan, hrows, hlength, by rw [hcount, hlength]⟩

end EntityQuery
