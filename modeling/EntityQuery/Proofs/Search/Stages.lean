import EntityQuery.Proofs.Flow.Overflow
import EntityQuery.Store.Fetch

/-!
# The stages of a plan

On top of its source a plan groups, picks columns, leaves out repeated rows, sorts and pages.  Each
of these stages can be built if the columns that it names are there, and what it shows is there for
the next one: groups and aggregates after grouping, the labels of the projection after picking.

## Main statements

* `exists_group`, `exists_project`, `exists_order` : the stages of a plan one by one
* `exists_shape` : the stages of a plan can be built and are safe
* `exists_runs_of_label`, `exists_fault_of_label` : the rows of a plan that sorts by a column, or
  its fault
-/

namespace EntityQuery

namespace Plan

variable {p : Plan} {input flow : Flow} {rows : List Row}

/-! ## Positions -/

theorem position_eq_ok_iff {schema : Schema} {name : String} {i : Nat} :
    position schema name = .ok i ↔ schema.position? name = some i := by
  unfold position
  cases schema.position? name <;> simp

theorem exists_position {schema : Schema} {name : String} (hname : name ∈ schema.names) :
    ∃ i, position schema name = .ok i ∧ i < schema.length := by
  obtain ⟨i, hi⟩ := Option.isSome_iff_exists.mp (List.isSome_idxOf?.mpr hname)
  have hposition : schema.position? name = some i := hi
  exact ⟨i, position_eq_ok_iff.mpr hposition, Schema.lt_of_position? hposition⟩

theorem exists_position_of_mem {schema : Schema} (hnodup : schema.names.Nodup) {column : Column}
    (hcolumn : column ∈ schema) :
    ∃ i, position schema column.name = .ok i ∧ schema[i]? = some column := by
  obtain ⟨i, hposition, hi⟩ := Schema.exists_position? hnodup hcolumn
  exact ⟨i, position_eq_ok_iff.mpr hposition, hi⟩

theorem exists_positions {schema : Schema} (hnodup : schema.names.Nodup) {names : List String}
    (hnames : ∀ name ∈ names, ∃ type, ⟨name, type⟩ ∈ schema) :
    ∃ columns, names.mapM (position schema) = .ok columns ∧ (∀ i ∈ columns, i < schema.length) ∧
      (Flow.pick schema columns).map Column.name = names := by
  induction names with
  | nil => exact ⟨[], rfl, by simp, rfl⟩
  | cons name names ih =>
      rw [List.forall_mem_cons] at hnames
      obtain ⟨⟨type, hcolumn⟩, hnames⟩ := hnames
      obtain ⟨i, hposition, hi⟩ := exists_position_of_mem hnodup hcolumn
      obtain ⟨columns, hcolumns, hlt, hpick⟩ := ih hnames
      refine ⟨i :: columns, by simp [hposition, hcolumns], ?_, ?_⟩
      · rw [List.forall_mem_cons]
        exact ⟨(List.getElem?_eq_some_iff.mp hi).choose, hlt⟩
      · rw [Flow.pick, List.filterMap_cons_some hi, List.map_cons, ← Flow.pick, hpick]

/-! ## Stages -/

/-- The rows of a plan can be grouped, and afterwards its groups and aggregates are there. -/
theorem exists_group (hruns : flow.Runs rows none) (hrows : ∀ row ∈ rows, row.Conforms flow.schema)
    (hnodup : flow.schema.names.Nodup)
    (hgroupBy : ∀ name ∈ p.groupBy, ∃ type, ⟨name, type⟩ ∈ flow.schema)
    (haggregates : ∀ item ∈ p.aggregates, ∃ type, ⟨item.column, type⟩ ∈ flow.schema ∧
      (item.fn.needsNumbers = true → type.isNumeric = true)) (haggregate : p.isAggregate = true) :
    ∃ grouped, p.group flow = .ok grouped ∧ grouped.OnlyOverflows ∧
      grouped.schema.names = p.groupBy ++ p.aggregates.map AggregateItem.label := by
  obtain ⟨columns, hcolumns, hlt, hpick⟩ := exists_positions hnodup hgroupBy
  set call : AggregateItem → Except FlowFault (AggregateCall × Option String) := fun item => do
    return (⟨item.fn, some (← position flow.schema item.column)⟩, some item.label) with hcall
  have hitem : ∀ item ∈ p.aggregates, ∃ made, call item = .ok made := by
    intro item hitem
    obtain ⟨type, hcolumn, -⟩ := haggregates item hitem
    obtain ⟨i, hposition, -⟩ := exists_position_of_mem hnodup hcolumn
    exact ⟨(⟨item.fn, some i⟩, some item.label), by simp [hcall, hposition]⟩
  obtain ⟨calls, hcalls⟩ := Outcome.exists_mapM_eq_ok hitem
  -- names are found once, so the column of a call is the one whose type has been checked
  have htakes : ∀ made ∈ calls, made.1.Takes flow.schema := by
    intro made hmade
    obtain ⟨item, hitem, hmade⟩ := Outcome.exists_of_mem_mapM hcalls hmade
    obtain ⟨type, hcolumn, hnumeric⟩ := haggregates item hitem
    obtain ⟨i, hposition, hi⟩ := exists_position_of_mem hnodup hcolumn
    have hposition : position flow.schema item.column = .ok i := hposition
    rw [hcall] at hmade
    dsimp only at hmade
    rw [hposition] at hmade
    obtain rfl := Except.ok.inj hmade
    exact ⟨_, hi, hnumeric⟩
  have hlabels : calls.map (fun made => made.2.getD (Flow.callName flow.schema made.1)) =
      p.aggregates.map AggregateItem.label := by
    refine Outcome.map_of_mapM (fun item _ {made} hmade => ?_) hcalls
    obtain ⟨i, -, hmade⟩ := Outcome.bind_eq_ok_iff.mp hmade
    obtain rfl := Except.ok.inj hmade
    rfl
  -- a grouping of nothing by nothing is refused
  have hany : columns ≠ [] ∨ calls ≠ [] := by
    by_contra hnone
    rw [not_or, not_not, not_not] at hnone
    obtain ⟨rfl, rfl⟩ := hnone
    rw [List.map_nil, eq_comm, List.map_eq_nil_iff] at hlabels
    simp [isAggregate, hlabels, ← hpick, Flow.pick] at haggregate
  obtain ⟨grouped, hgrouped, hsafe, hnames⟩ := Flow.exists_groupBy hruns hrows hlt htakes hany
  refine ⟨grouped, ?_, hsafe, by rw [hnames, hpick, hlabels]⟩
  rw [group, if_pos haggregate, hcolumns, Outcome.ok_bind]
  exact Outcome.bind_eq_ok_iff.mpr ⟨calls, hcalls, hgrouped⟩

theorem exists_columns {schema : Schema} {projection : List Projected}
    (hprojection : ∀ q ∈ projection, q.column ∈ schema.names) :
    ∃ columns : List (Nat × String),
      projection.mapM (fun item => do return (← position schema item.column, item.label)) =
        .ok columns ∧
      (∀ column ∈ columns, column.1 < schema.length) ∧
      columns.map (·.2) = projection.map Projected.label ∧
      ∀ row : Row, row.keyOf (columns.map (·.1)) = projection.map fun q =>
        row.cell schema.names q.column := by
  induction projection with
  | nil => exact ⟨[], rfl, by simp, rfl, fun _ => rfl⟩
  | cons q projection ih =>
      rw [List.forall_mem_cons] at hprojection
      obtain ⟨i, hposition, hlt⟩ := exists_position hprojection.1
      obtain ⟨columns, hcolumns, hall, hlabels, hrows⟩ := ih hprojection.2
      refine ⟨(i, q.label) :: columns, ?_, ?_, ?_, fun row => ?_⟩
      · simp only [List.mapM_cons, hposition, hcolumns, Outcome.ok_bind]
        rfl
      · exact List.forall_mem_cons.mpr ⟨hlt, hall⟩
      · rw [List.map_cons, List.map_cons, hlabels]
      · rw [List.map_cons, List.map_cons, ← hrows,
          Row.cell_eq_getD (position_eq_ok_iff.mp hposition)]
        rfl

/-- What a plan shows can be picked if its columns are there; the columns picked are named as the
plan says. -/
theorem exists_project (hprojection : ∀ q ∈ p.projection, q.column ∈ input.schema.names) :
    ∃ columns, p.project input = .ok (.project input columns false) ∧
      (p.projection ≠ [] → (Flow.project input columns false).schema.names =
        p.projection.map Projected.label ∧
        ∀ row : Row, row.keyOf (columns.map (·.1)) =
          p.projection.map fun q => row.cell input.schema.names q.column) := by
  unfold project
  split
  · next hempty =>
    have hall : ∀ column ∈ input.schema.names.mapIdx fun index name => (index, name),
        column.1 < input.schema.length := by
      intro column hcolumn
      obtain ⟨i, hi, rfl⟩ := List.mem_mapIdx.mp hcolumn
      simpa using hi
    refine ⟨_, Flow.select_eq_ok hall, fun hne => ?_⟩
    rw [List.isEmpty_iff] at hempty
    exact absurd hempty hne
  · obtain ⟨columns, hcolumns, hall, hlabels, hrows⟩ := exists_columns hprojection
    refine ⟨columns, Outcome.bind_eq_ok_iff.mpr ⟨columns, hcolumns, Flow.select_eq_ok hall⟩,
      fun _ => ⟨?_, hrows⟩⟩
    rw [Flow.names_project hall, hlabels]

@[simp] theorem schema_dedupe (p : Plan) (input : Flow) :
    (p.dedupe input).schema = input.schema := by
  unfold dedupe
  split <;> rfl

theorem runs_dedupe (p : Plan) {e : Option FlowFault} (hinput : input.Runs rows e) :
    (p.dedupe input).Runs (if p.distinct then Row.firsts [] [] rows else rows) e := by
  unfold dedupe
  split
  · exact Flow.runs_distinct hinput []
  · exact hinput

/-- The rows of a plan can be ordered by what is shown. -/
theorem exists_order (hinput : input.OnlyOverflows)
    (horder : ∀ item ∈ p.orderBy, item.label ∈ input.schema.names) :
    ∃ next, p.order input = .ok next ∧ next.OnlyOverflows := by
  unfold order
  split
  · exact ⟨input, rfl, hinput⟩
  · have hitem : ∀ item ∈ p.orderBy, ∃ key : SortKey,
        (do return SortKey.of (← position input.schema item.label) item.direction) = .ok key := by
      intro item hitem
      obtain ⟨i, hposition, -⟩ := exists_position (horder item hitem)
      exact ⟨_, by rw [hposition]; rfl⟩
    obtain ⟨keys, hkeys⟩ := Outcome.exists_mapM_eq_ok hitem
    have hall : ∀ key ∈ keys, key.column < input.schema.length := by
      intro key hkey
      obtain ⟨item, hitem, hkey⟩ := Outcome.exists_of_mem_mapM hkeys hkey
      obtain ⟨i, hposition, hlt⟩ := exists_position (horder item hitem)
      rw [hposition] at hkey
      obtain rfl := Except.ok.inj hkey
      exact hlt
    exact ⟨_, Outcome.bind_eq_ok_iff.mpr ⟨keys, hkeys, Flow.sortBy_eq_ok hall⟩, hinput.sort keys⟩

/-- The stages of a plan can be built on a source that has its columns, and fail with an overflow
only. -/
theorem exists_shape (hruns : flow.Runs rows none) (hrows : ∀ row ∈ rows, row.Conforms flow.schema)
    (hnodup : flow.schema.names.Nodup)
    (hgroupBy : ∀ name ∈ p.groupBy, ∃ type, ⟨name, type⟩ ∈ flow.schema)
    (haggregates : ∀ item ∈ p.aggregates, ∃ type, ⟨item.column, type⟩ ∈ flow.schema ∧
      (item.fn.needsNumbers = true → type.isNumeric = true))
    (hprojection : ∀ q ∈ p.projection,
      (p.groupBy = [] ∧ p.aggregates = [] ∧ q.column ∈ flow.schema.names) ∨
      q.column ∈ p.groupBy ∨ q.column ∈ p.aggregates.map AggregateItem.label)
    (horder : ∀ item ∈ p.orderBy, item.label ∈ p.projection.map Projected.label) :
    ∃ next, p.shape flow = .ok next ∧ next.OnlyOverflows := by
  -- grouped or not, what is shown is there
  have hgroup : ∃ grouped, p.group flow = .ok grouped ∧ grouped.OnlyOverflows ∧
      ∀ q ∈ p.projection, q.column ∈ grouped.schema.names := by
    cases haggregate : p.isAggregate with
    | true =>
        obtain ⟨grouped, hgrouped, hsafe, hnames⟩ :=
          exists_group hruns hrows hnodup hgroupBy haggregates haggregate
        refine ⟨grouped, hgrouped, hsafe, fun q hq => ?_⟩
        rw [hnames, List.mem_append]
        rcases hprojection q hq with ⟨hnone, hnone', -⟩ | hcolumn
        · simp [isAggregate, hnone, hnone'] at haggregate
        · exact hcolumn
    | false =>
        have hnone : p.aggregates = [] ∧ p.groupBy = [] := by simpa [isAggregate] using haggregate
        refine ⟨flow, by simp [group, haggregate], .of_runs hruns, fun q hq => ?_⟩
        rcases hprojection q hq with ⟨-, -, hcolumn⟩ | hcolumn | hcolumn
        · exact hcolumn
        · simp [hnone.2] at hcolumn
        · simp [hnone.1] at hcolumn
  obtain ⟨grouped, hgrouped, hsafe, hcolumns⟩ := hgroup
  obtain ⟨columns, hshown, hnames⟩ := exists_project hcolumns
  set shown := Flow.project grouped columns false
  have hdedupe : (p.dedupe shown).OnlyOverflows := by
    have hsafe := hsafe.project columns
    unfold dedupe
    split
    · exact hsafe.distinct []
    · exact hsafe
  -- what is ordered by is shown, so something is shown, and under these labels
  have hlabels : ∀ item ∈ p.orderBy, item.label ∈ (p.dedupe shown).schema.names := by
    intro item hitem
    have hlabel := horder item hitem
    have hne : p.projection ≠ [] := by
      rintro hnil
      simp [hnil] at hlabel
    rwa [schema_dedupe, (hnames hne).1]
  obtain ⟨ordered, hordered, hsafe⟩ := exists_order hdedupe hlabels
  refine ⟨p.paged ordered, by simp [shape, hgrouped, hshown, hordered], ?_⟩
  unfold paged
  split
  · exact hsafe.window _ _
  · exact hsafe

section

variable (haggregate : p.isAggregate = false) (hwindow : p.window = none) (hne : p.projection ≠ [])
  (hprojection : ∀ q ∈ p.projection, q.column ∈ flow.schema.names) {label : String}
  (horder : p.orderBy = [⟨label, .asc⟩]) {k : Nat}
  (hk : (p.projection.map Projected.label).idxOf? label = some k)

include haggregate hwindow hne hprojection horder hk

/-- The stages of a plan that neither groups nor pages and sorts by the label of a column that it
shows. -/
theorem exists_shape_of_label :
    ∃ columns, p.shape flow =
      .ok (.sort (p.dedupe (.project flow columns false)) [SortKey.of k .asc] [] false) ∧
      (Flow.project flow columns false).schema.names = p.projection.map Projected.label ∧
      ∀ row : Row, row.keyOf (columns.map (·.1)) =
        p.projection.map fun q => row.cell flow.schema.names q.column := by
  obtain ⟨columns, hproject, hnames⟩ := exists_project hprojection
  obtain ⟨hnames, hrows⟩ := hnames hne
  set shown := Flow.project flow columns false
  have hposition : (p.dedupe shown).schema.position? label = some k := by
    rw [schema_dedupe, Schema.position?, hnames, hk]
  have hsort : p.order (p.dedupe shown) =
      .ok (.sort (p.dedupe shown) [SortKey.of k .asc] [] false) := by
    have hlt := Schema.lt_of_position? hposition
    have hkeys : ∀ key ∈ [SortKey.of k .asc], key.column < (p.dedupe shown).schema.length := by
      simpa [SortKey.of] using hlt
    rw [order, horder]
    simp only [List.isEmpty_cons, List.mapM_cons, List.mapM_nil, position_eq_ok_iff.mpr hposition]
    exact Flow.sortBy_eq_ok hkeys
  refine ⟨columns, ?_, hnames, hrows⟩
  simp [shape, group, haggregate, hproject, hsort, paged, hwindow, shown]

/-- The rows of a plan that neither groups nor pages: the columns that it shows, each once if it
asks for that, sorted by the label of one of them. -/
theorem exists_runs_of_label (hruns : flow.Runs rows none) :
    ∃ next, p.shape flow = .ok next ∧ next.schema.names = p.projection.map Projected.label ∧
      next.Runs (Row.sorted [SortKey.of k .asc]
        (let shown := rows.map fun row => p.projection.map fun q =>
          row.cell flow.schema.names q.column
        if p.distinct then Row.firsts [] [] shown else shown)) none := by
  obtain ⟨columns, hshape, hnames, hrows⟩ :=
    exists_shape_of_label haggregate hwindow hne hprojection horder hk
  have hshown := Flow.runs_project hruns columns
  rw [List.map_congr_left fun row _ => hrows row] at hshown
  refine ⟨_, hshape, ?_, Flow.runs_sort (p.runs_dedupe hshown) _⟩
  rw [Flow.schema, schema_dedupe, hnames]

/-- A plan that sorts fails before its first row if its source fails. -/
theorem exists_fault_of_label {fault : FlowFault} (hruns : flow.Runs rows (some fault)) :
    ∃ next, p.shape flow = .ok next ∧ next.Runs [] (some fault) := by
  obtain ⟨columns, hshape, -, -⟩ :=
    exists_shape_of_label haggregate hwindow hne hprojection horder hk
  exact ⟨_, hshape, Flow.runs_sort_fault (p.runs_dedupe (Flow.runs_project hruns columns)) _⟩

end

end Plan

end EntityQuery
