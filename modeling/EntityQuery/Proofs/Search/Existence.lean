import EntityQuery.Proofs.Search.Answers

/-!
# Existence and count

A request has a result if its plan, cut down to one row, shows a row; it is counted by the rows of
the source of its plan, before anything is grouped, picked or sorted.  So the two agree if the
stages in between neither lose the last row nor make up a first one.  Picking columns, leaving out
repeated rows and sorting do neither.  Grouping does not where there is something to group by;
without that all rows make one group, even if there are no rows, and so there is a result although
nothing is counted.

The statement about a flow is kept by every stage: unless the flow fails before its first row, it
ends without a fault and yields rows exactly under some condition.  A sum that overflows fails
before the first group is handed out, so a search for existence cannot miss it.

## Main definitions

* `Request.makesOneGroup` : aggregates are asked for, and nothing to group by
* `Flow.HasRowsIff` : whether a flow yields rows

## Main statements

* `hasRowsIff_of_shape` : the stages of a plan show rows exactly if there are some, or one group is
  made of none
* `holds_iff_count` : a request has a result exactly if its count is not zero, or it makes one group
-/

namespace EntityQuery

variable {c : Catalog} {root marker : String} {input flow source : Flow}
  {rows shown : List Row} {P : Prop} {columns : List Nat} {r : Request} {p : Plan}

/-! ## Rows and groups -/

namespace Group

variable {calls : List AggregateCall} {groups collected : List Group}

theorem addRow_ne_nil (calls : List AggregateCall) (key : Key) (row : Row) (groups : List Group) :
    (addRow calls key row groups).1 ≠ [] := by
  cases groups with
  | nil => simp [addRow]
  | cons group groups =>
      rw [addRow]
      split <;> simp

/-- Rows are collected in groups, so there are groups exactly if there are rows. -/
theorem collect_eq_nil_iff (hcollect : collect calls columns groups rows = .ok collected) :
    collected = [] ↔ groups = [] ∧ rows = [] := by
  induction rows generalizing groups with
  | nil =>
      obtain rfl := Except.ok.inj hcollect
      simp
  | cons row rows ih =>
      have hadded := addRow_ne_nil calls (row.keyOf columns) row groups
      rw [collect] at hcollect
      split at hcollect
      · next added hadd =>
        rw [hadd] at hadded
        rw [ih hcollect]
        simp [show added ≠ [] from hadded]
      · simp at hcollect

end Group

/-! ## Flows that have rows -/

namespace Flow

/-- Unless it fails before its first row, the flow ends without a fault and yields rows exactly
under a condition. -/
def HasRowsIff (flow : Flow) (P : Prop) : Prop :=
  (∃ rows, flow.Runs rows none ∧ (rows ≠ [] ↔ P)) ∨ ∃ fault, flow.Runs [] (some fault)

theorem HasRowsIff.of_runs (hinput : input.Runs rows none) : input.HasRowsIff (rows ≠ []) :=
  .inl ⟨rows, hinput, .rfl⟩

theorem HasRowsIff.project (hinput : input.HasRowsIff P) (columns : List (Nat × String)) :
    (Flow.project input columns false).HasRowsIff P := by
  rcases hinput with ⟨rows, hruns, hrows⟩ | ⟨fault, hruns⟩
  · refine .inl ⟨_, runs_project hruns columns, ?_⟩
    rw [← hrows, ne_eq, List.map_eq_nil_iff]
  · exact .inr ⟨fault, runs_project hruns columns⟩

theorem HasRowsIff.distinct (hinput : input.HasRowsIff P) (columns : List Nat) :
    (Flow.distinct input columns [] false).HasRowsIff P := by
  rcases hinput with ⟨rows, hruns, hrows⟩ | ⟨fault, hruns⟩
  · refine .inl ⟨_, runs_distinct hruns columns, ?_⟩
    rw [← hrows, ne_eq, Row.firsts_eq_nil_iff]
  · exact .inr ⟨fault, runs_distinct hruns columns⟩

theorem HasRowsIff.sort (hinput : input.HasRowsIff P) (keys : List SortKey) :
    (Flow.sort input keys [] false).HasRowsIff P := by
  rcases hinput with ⟨rows, hruns, hrows⟩ | ⟨fault, hruns⟩
  · refine .inl ⟨_, runs_sort hruns keys, ?_⟩
    have hlength : (Row.sorted keys rows).length = rows.length :=
      (Row.sorted_perm keys rows).length_eq
    rw [← hrows, ne_eq, ← List.length_eq_zero_iff, hlength, List.length_eq_zero_iff]
  · exact .inr ⟨fault, runs_sort_fault hruns keys⟩

/-- Rows make groups, and without columns to group by there is one group even of no rows. -/
theorem HasRowsIff.aggregate (hinput : input.Runs rows none) (columns : List Nat)
    (calls : List (AggregateCall × String)) :
    (Flow.aggregate input columns calls [] false false).HasRowsIff (rows ≠ [] ∨ columns = []) := by
  have hruns := runs_aggregate hinput columns calls
  cases hcollect : Group.collect (calls.map (·.1)) columns [] rows with
  | error fault =>
      rw [hcollect] at hruns
      exact .inr ⟨_, hruns⟩
  | ok groups =>
      rw [hcollect] at hruns
      refine .inl ⟨_, hruns, ?_⟩
      have hgroups : groups = [] ↔ rows = [] := by simpa using Group.collect_eq_nil_iff hcollect
      rw [aggregateRows, groupRows, ne_eq, List.map_eq_nil_iff, completed]
      by_cases hrows : rows = [] <;> by_cases hcolumns : columns = [] <;>
        simp [hgroups, hrows, hcolumns]

theorem HasRowsIff.first (hflow : flow.HasRowsIff P)
    (hshown : (flow.window 0 (some 1)).Runs shown none) : shown ≠ [] ↔ P := by
  rcases hflow with ⟨rows, hruns, hrows⟩ | ⟨fault, hruns⟩
  · rw [((runs_window hruns 0 1).unique hshown).1, ← hrows]
    cases rows <;> simp
  · have hfault := ((runs_window_fault hruns 0 Nat.one_pos).unique hshown).2
    simp at hfault

end Flow

/-! ## Plans -/

/-- The stages of a plan show rows exactly if its source has some, or all of them make one group. -/
theorem Plan.hasRowsIff_of_shape (hshape : p.unpaged.shape source = .ok flow)
    (hsource : source.Runs rows none) :
    flow.HasRowsIff (rows ≠ [] ∨ (p.isAggregate = true ∧ p.groupBy = [])) := by
  obtain ⟨grouped, shown, ordered, hgroup, hproject, horder, rfl⟩ := Plan.shape_eq_ok hshape
  have hgrouped : grouped.HasRowsIff (rows ≠ [] ∨ (p.isAggregate = true ∧ p.groupBy = [])) := by
    rcases Plan.group_eq_ok hgroup with ⟨haggregate, rfl⟩
      | ⟨haggregate, columns, calls, rfl, hcolumns⟩
    · have hrows := Flow.HasRowsIff.of_runs hsource
      have hfalse : p.isAggregate = false := haggregate
      simpa [hfalse] using hrows
    · have hrows := Flow.HasRowsIff.aggregate hsource columns calls
      have htrue : p.isAggregate = true := haggregate
      have hempty : columns = [] ↔ p.groupBy = [] := hcolumns
      simpa [htrue, hempty] using hrows
  obtain ⟨picked, rfl⟩ := Plan.project_eq_ok hproject
  have hdeduped : (p.unpaged.dedupe (.project grouped picked false)).HasRowsIff
      (rows ≠ [] ∨ (p.isAggregate = true ∧ p.groupBy = [])) := by
    unfold Plan.dedupe
    split
    · exact (hgrouped.project picked).distinct []
    · exact hgrouped.project picked
  rcases Plan.order_eq_ok horder with rfl | ⟨keys, rfl⟩
  · exact hdeduped
  · exact hdeduped.sort keys

/-- All rows make one group: aggregates are asked for, and nothing to group by. -/
def Request.makesOneGroup (r : Request) : Bool :=
  r.aggregates.any fun a => a.hasFunctions && (a.groupBy.getD []).isEmpty

namespace Planner

theorem length_of_labelled {α β : Type} {make : α → Except SearchFault β} {label : β → String}
    {items : List α} {seen : List String} {made : List β}
    (hmade : labelled make label items seen = .ok made) : made.length = items.length :=
  (Outcome.mapM_eq_ok_iff.mp (mapM_of_labelled hmade)).length_eq.symm

theorem length_of_showAggregates {columns : List Selected} {a : Aggregates} {shown : Shown}
    (hshown : showAggregates c root marker columns a = .ok shown) :
    shown.groupBy.length = (a.groupBy.getD []).length ∧
    shown.aggregates.length = a.calls.length := by
  obtain ⟨groups, hgroups, hshown⟩ := Outcome.bind_eq_ok_iff.mp hshown
  obtain ⟨items, hitems, hshown⟩ := Outcome.bind_eq_ok_iff.mp hshown
  obtain rfl := Except.ok.inj hshown
  have hgroupBy : groups.length = (a.groupBy.getD []).length := length_of_labelled hgroups
  have haggregates : items.length = a.calls.length := length_of_labelled hitems
  exact ⟨by rw [List.length_map, hgroupBy], by rw [List.length_map, haggregates]⟩

/-- A plan makes one group of all rows if its request does. -/
theorem makesOneGroup_of_plan {hooks : FieldHooks} {window : Option Window} {planned : Planned}
    (hplan : plan c root marker hooks r window = .ok planned) :
    planned.plan.isAggregate = true ∧ planned.plan.groupBy = [] ↔ r.makesOneGroup = true := by
  obtain ⟨e, id, compiled, shown, shape, joins, -, -, -, hshown, -, rfl⟩ := plan_eq_ok hplan
  rcases shown_eq_ok hshown with
    ⟨-, ⟨-, hnone⟩, hentity⟩ | ⟨-, columns, -, ⟨a, ha, haggregated⟩ | ⟨hnone, hrows⟩⟩
  · -- whole entities are not grouped
    obtain ⟨-, -, -, -, -, -, rfl⟩ := showEntity_eq_ok hentity
    simp [Plan.isAggregate, Request.makesOneGroup, hnone]
  · obtain ⟨hgroupBy, hcalls⟩ := length_of_showAggregates haggregated
    have hgroupBy : shown.groupBy = [] ↔ a.groupBy.getD [] = [] := by
      rw [← List.length_eq_zero_iff, hgroupBy, List.length_eq_zero_iff]
    have hcalls : shown.aggregates = [] ↔ a.calls = [] := by
      rw [← List.length_eq_zero_iff, hcalls, List.length_eq_zero_iff]
    simp only [Plan.isAggregate, Request.makesOneGroup, ha, Aggregates.hasFunctions,
      Option.any_some, Bool.or_eq_true, Bool.and_eq_true, Bool.not_eq_true',
      List.isEmpty_eq_false_iff, List.isEmpty_iff, ne_eq, hgroupBy, hcalls]
    tauto
  · obtain ⟨-, -, hrows⟩ := Outcome.bind_eq_ok_iff.mp hrows
    obtain rfl := Except.ok.inj hrows
    simp [Plan.isAggregate, Request.makesOneGroup, hnone]

end Planner

/-! ## Searches -/

namespace Search

variable {search : Search} {store : Store} {signal other : Signal}

theorem exists_of_counted {n : Nat} (hcount : (search.count store r signal).1 = .ok n) :
    ∃ planned, search.planFor r none = .ok planned ∧ ∃ after,
      (store.count planned.plan after).1 = .ok n := by
  obtain ⟨planned, after, hplan, hcount⟩ := andThen_eq_ok hcount
  exact ⟨planned, given_eq_ok hplan, after, countOf_eq_ok hcount⟩

theorem exists_of_holds {b : Bool} (hholds : (search.holds store r signal).1 = .ok b) :
    ∃ planned, search.planFor r none = .ok planned ∧ ∃ records after,
      (store.fetch (planned.plan.limited 1) after).1 = .ok records ∧ b = !records.isEmpty := by
  obtain ⟨planned, after, hplan, hholds⟩ := andThen_eq_ok hholds
  obtain ⟨records, last, hfetch, hholds⟩ := andThen_eq_ok hholds
  refine ⟨planned, given_eq_ok hplan, records, after, fetch_eq_ok (by rw [hfetch]), ?_⟩
  exact (Except.ok.inj hholds).symm

/-- The joined rows that a request is about can be counted by a signed machine word; those of a
store in memory can. -/
def Countable (search : Search) (store : Store) (r : Request) : Prop :=
  ∀ planned ∈ (search.planFor r none).toOption, ∀ source ∈ (store.source planned.plan).toOption,
    (source.run .never).1.length < 2 ^ 63

instance : Decidable (search.Countable store r) :=
  inferInstanceAs (Decidable (∀ planned ∈ (search.planFor r none).toOption,
    ∀ source ∈ (store.source planned.plan).toOption, (source.run .never).1.length < 2 ^ 63))

theorem Countable.length_lt (hcountable : search.Countable store r) {planned : Planned}
    (hplan : search.planFor r none = .ok planned) (hsource : store.source planned.plan = .ok source)
    (hrows : source.Runs rows none) : rows.length < 2 ^ 63 := by
  obtain ⟨last, hrun⟩ := Flow.run_of_runs hrows
  have hlt :=
    hcountable planned (by simp [hplan, Except.toOption]) source
      (by simp [hsource, Except.toOption])
  rwa [hrun] at hlt

theorem ne_nil_of_fetch {p : Plan} {records : List Record} (hsource : store.source p = .ok source)
    (hrows : source.Runs rows none) (hfetch : (store.fetch (p.limited 1) signal).1 = .ok records) :
    records ≠ [] ↔ rows ≠ [] ∨ (p.isAggregate = true ∧ p.groupBy = []) := by
  obtain ⟨source', flow, shown, hsource', hshape, hshown, rfl⟩ := Store.exists_of_fetch hfetch
  obtain rfl : source = source' := Except.ok.inj (hsource.symm.trans hsource')
  obtain ⟨all, hall, rfl⟩ := Plan.shape_unpaged hshape
  have hiff : all.HasRowsIff (rows ≠ [] ∨ (p.isAggregate = true ∧ p.groupBy = [])) :=
    Plan.hasRowsIff_of_shape hall hrows
  rw [ne_eq, List.map_eq_nil_iff]
  exact hiff.first hshown

/-- A count is not zero if the source of the plan has rows. -/
theorem pos_of_count {p : Plan} {n : Nat} (hcount : (store.count p signal).1 = .ok n) :
    ∃ source rows, store.source p = .ok source ∧ source.Runs rows none ∧
      (rows.length < 2 ^ 63 → (0 < n ↔ rows ≠ [])) := by
  obtain ⟨source, rows, hsource, hrows, rfl, -⟩ := Store.exists_of_count hcount
  refine ⟨source, rows, hsource, hrows, fun hsmall => ?_⟩
  have hle : (p.countedRows source.schema rows).length ≤ rows.length := by
    unfold Plan.countedRows
    split
    · exact Row.length_firsts_le _ _ _
    · exact Nat.le_refl _
  have hnil : p.countedRows source.schema rows = [] ↔ rows = [] := by
    unfold Plan.countedRows
    split
    · exact Row.firsts_eq_nil_iff
    · exact Iff.rfl
  rw [Store.countOf_ofNat (Nat.lt_of_le_of_lt hle hsmall), List.length_pos_iff, ne_eq, hnil]

/-- A request has a result exactly if its count is not zero, except that a request that makes one
group of all rows has one even where nothing is counted. -/
theorem holds_iff_count (hcountable : search.Countable store r) {n : Nat}
    (hcount : (search.count store r signal).1 = .ok n) {b : Bool}
    (hholds : (search.holds store r other).1 = .ok b) :
    b = true ↔ 0 < n ∨ r.makesOneGroup = true := by
  obtain ⟨planned, hplan, after, hn⟩ := exists_of_counted hcount
  obtain ⟨planned', hplan', records, after', hfetch, rfl⟩ := exists_of_holds hholds
  obtain rfl : planned = planned' := Except.ok.inj (hplan.symm.trans hplan')
  obtain ⟨source, rows, hsource, hrows, hpos⟩ := pos_of_count hn
  calc (!records.isEmpty) = true
    _ ↔ records ≠ [] := by simp
    _ ↔ rows ≠ [] ∨ (planned.plan.isAggregate = true ∧ planned.plan.groupBy = []) :=
        ne_nil_of_fetch hsource hrows hfetch
    _ ↔ 0 < n ∨ r.makesOneGroup = true := by
        rw [hpos (hcountable.length_lt hplan hsource hrows), Planner.makesOneGroup_of_plan hplan]

end Search

/-- A request for the number of the authors of some name, grouped as said. -/
def Shelf.named (name : String) (groupBy : Option (List String)) : WireRequest :=
  { WireRequest.empty with
    filters := [.obj [("name", .obj [("eq", .str name)])]]
    aggregates := some { Aggregates.empty with count := ["id"], groupBy } }

/-- Where authors are grouped by name, none is there if none is counted. -/
theorem Search.holds_iff_count_shelf :
    ∃ r, Shelf.search.read (Shelf.named "Eco" (some ["name"])) = .ok r ∧
      Shelf.search.Countable Shelf.store r ∧
      (Shelf.search.count Shelf.store r .never).1 = .ok 0 ∧
      (Shelf.search.holds Shelf.store r .never).1 = .ok false := by
  have hrun : ((Shelf.search.read (Shelf.named "Eco" (some ["name"]))).toOption.any fun r =>
      decide (Shelf.search.Countable Shelf.store r) && !r.makesOneGroup &&
        (Shelf.search.count Shelf.store r .never).1.toOption == some 0 &&
        (Shelf.search.holds Shelf.store r .never).1.toOption.isSome) = true := by
    decide +kernel
  obtain ⟨r, hread, hrun⟩ := (Option.any_eq_true _ _).mp hrun
  simp only [Bool.and_eq_true, decide_eq_true_eq, beq_iff_eq, Bool.not_eq_true',
    Option.isSome_iff_exists, Outcome.toOption_eq_some_iff] at hrun
  obtain ⟨⟨⟨hcountable, hgroup⟩, hcount⟩, b, hholds⟩ := hrun
  have hiff := Search.holds_iff_count hcountable hcount hholds
  rw [hgroup] at hiff
  have hb : b = false := by simpa using hiff
  exact ⟨r, Outcome.toOption_eq_some_iff.mp hread, hcountable, hcount, hb ▸ hholds⟩

/-- Where there is nothing to group by, one group is there although no author is counted. -/
theorem Search.holds_of_nothing_counted :
    ∃ r, Shelf.search.read (Shelf.named "Eco" none) = .ok r ∧
      (Shelf.search.count Shelf.store r .never).1 = .ok 0 ∧
      (Shelf.search.holds Shelf.store r .never).1 = .ok true := by
  have hrun : ((Shelf.search.read (Shelf.named "Eco" none)).toOption.any fun r =>
      (Shelf.search.count Shelf.store r .never).1.toOption == some 0 &&
        (Shelf.search.holds Shelf.store r .never).1.toOption == some true) = true := by
    decide +kernel
  obtain ⟨r, hread, hrun⟩ := (Option.any_eq_true _ _).mp hrun
  simp only [Bool.and_eq_true, beq_iff_eq, Outcome.toOption_eq_some_iff] at hrun
  exact ⟨r, Outcome.toOption_eq_some_iff.mp hread, hrun.1, hrun.2⟩

end EntityQuery
