import EntityQuery.Proofs.Flow.Blocks
import EntityQuery.Proofs.Flow.Tallies
import EntityQuery.Proofs.Flow.TypedAnswers
import Mathlib.Algebra.Ring.Nat

/-!
# Rows in groups

An aggregation adds its rows one by one to groups that it finds by their keys, and keeps a tally for
every call of a group.  What comes out is the reference grouping: one row for each key in the order
in which the keys are first seen, and in it for each call the aggregate of the values of exactly the
rows of this key, in the order in which they are.

Whether the work succeeds is likewise a matter of the groups alone.  The tallies of different groups
do not touch each other, nor do those of the calls of a group, so all rows can be added exactly if
the sums of each group fit.

## Main definitions

* `Row.SumsFit` : no sum of a group leaves its range
* `Row.IsSummary` : the row of a group

## Main statements

* `exists_collect_iff` : groups can be collected exactly if their sums fit
* `grouped_of_groupBy` : an aggregation yields the groups of its rows
-/

namespace EntityQuery

namespace Row

/-- The sums of all groups fit their range at every row, for each call that makes sums. -/
def SumsFit (columns : List Nat) (calls : List AggregateCall) (rows : List Row) : Prop :=
  ∀ row ∈ rows, ∀ call ∈ calls, call.fn.needsNumbers = true →
    Value.SumsFit (call.taken (ofKey columns (row.keyOf columns) rows))

instance (columns : List Nat) (calls : List AggregateCall) (rows : List Row) :
    Decidable (SumsFit columns calls rows) :=
  inferInstanceAs (Decidable (∀ row ∈ rows, ∀ call ∈ calls, call.fn.needsNumbers = true →
    Value.SumsFit (call.taken (ofKey columns (row.keyOf columns) rows))))

/-- The row of a group has its key, and for each call the aggregate of the values that the call
takes from the group. -/
def IsSummary (schema : Schema) (calls : List AggregateCall) (group : Key × List Row)
    (row : Row) : Prop :=
  ∃ results, row = group.1 ++ results ∧ List.Forall₂ (fun call result =>
    call.fn.Summarizes (call.resultType schema) (call.taken group.2) result) calls results

/-- The sums of a group are those of the rows of its key. -/
theorem SumsFit.of_grouping {columns : List Nat} {calls : List AggregateCall} {rows : List Row}
    {groups : List (Key × List Row)} (hfit : SumsFit columns calls rows)
    (hgroups : IsGrouping columns rows groups) {group : Key × List Row} (hgroup : group ∈ groups)
    {call : AggregateCall} (hcall : call ∈ calls) (hneeds : call.fn.needsNumbers = true) :
    Value.SumsFit (call.taken group.2) := by
  have hall := hgroups.rows_eq group hgroup
  cases hmembers : group.2 with
  | nil => exact Value.sumsFit_nil
  | cons row rest =>
      have hkey := hgroups.key_eq group hgroup row (by rw [hmembers]; rfl)
      have hrow : row ∈ ofKey columns group.1 rows := by
        rw [← hall, hmembers]
        exact List.mem_cons_self
      rw [← hmembers, hall, hkey]
      exact hfit row (mem_ofKey_iff.mp hrow).1 call hcall hneeds

end Row

/-! ## Collecting groups -/

namespace Group

variable {schema : Schema} {calls : List AggregateCall} {columns : List Nat} {rows : List Row}

/-- If a row can be added to all tallies, it can be added to each. -/
theorem exists_of_addTo {row : Row} {before : AggregateCall → Tally}
    (hadd : (addTo row calls (calls.map before)).2 = none) :
    ∃ next : AggregateCall → Tally, addTo row calls (calls.map before) = (calls.map next, none) ∧
      ∀ call ∈ calls, (before call).add call.fn (call.value row) = .ok (next call) := by
  have hall : ∀ call ∈ calls, (before call).add call.fn (call.value row) =
      .ok (((before call).add call.fn (call.value row)).toOption.getD .empty) := by
    induction calls with
    | nil => exact List.forall_mem_nil _
    | cons call calls ih =>
        rw [List.map_cons, addTo] at hadd
        split at hadd
        · simp at hadd
        · next t ht => exact List.forall_mem_cons.mpr ⟨by rw [ht]; rfl, ih hadd⟩
  exact ⟨_, addTo_map hall, hall⟩

theorem collect_cons_eq_ok_iff {row : Row} {groups collected : List Group} :
    collect calls columns groups (row :: rows) = .ok collected ↔
      ∃ added, addRow calls (row.keyOf columns) row groups = (added, none) ∧
        collect calls columns added rows = .ok collected := by
  rw [collect]
  generalize addRow calls (row.keyOf columns) row groups = result
  obtain ⟨added, fault⟩ := result
  cases fault <;> simp

/-- If rows can be added to some groups, those of the first group can be added to it, and the others
to the rest. -/
theorem exists_of_collect_cons {key : Key} {before : AggregateCall → Tally}
    {groups collected : List Group}
    (hcollect : collect calls columns (⟨key, calls.map before⟩ :: groups) rows = .ok collected) :
    (∀ call ∈ calls, ∃ t, (before call).over call (Row.ofKey columns key rows) = .ok t) ∧
      ∃ others,
        collect calls columns groups (rows.filter fun row => !key.same (row.keyOf columns)) =
          .ok others := by
  induction rows generalizing before groups with
  | nil => exact ⟨fun call _ => ⟨before call, rfl⟩, groups, rfl⟩
  | cons row rows ih =>
      obtain ⟨added, hadd, hcollect⟩ := collect_cons_eq_ok_iff.mp hcollect
      rw [addRow] at hadd
      cases hkey : key.same (row.keyOf columns) with
      | true =>
          rw [if_pos hkey, Prod.mk.injEq] at hadd
          obtain ⟨rfl, hadd⟩ := hadd
          obtain ⟨next, hadded, hnext⟩ := exists_of_addTo hadd
          rw [hadded] at hcollect
          obtain ⟨hmine, hothers⟩ := ih hcollect
          rw [List.filter_cons_of_neg (by simp [hkey]), Row.ofKey_cons_of_same hkey]
          refine ⟨fun call hcall => ?_, hothers⟩
          obtain ⟨t, ht⟩ := hmine call hcall
          exact ⟨t, Outcome.bind_eq_ok_iff.mpr ⟨next call, hnext call hcall, ht⟩⟩
      | false =>
          rw [if_neg (by simp [hkey]), Prod.mk.injEq] at hadd
          obtain ⟨rfl, hadd⟩ := hadd
          obtain ⟨hmine, others, hothers⟩ := ih hcollect
          rw [List.filter_cons_of_pos (by simp [hkey]), Row.ofKey_cons_of_apart hkey]
          exact ⟨hmine, others, collect_cons_eq_ok_iff.mpr ⟨_, Prod.ext rfl hadd, hothers⟩⟩

/-- If groups can be collected, each block of rows can be added up. -/
theorem exists_over_of_collect {collected : List Group}
    (hcollect : collect calls columns [] rows = .ok collected) :
    ∀ block ∈ Row.blocks (Row.keyOf columns) rows, ∀ call ∈ calls, ∃ t,
      Tally.empty.over call block = .ok t := by
  induction rows using Row.blocks_induction columns generalizing collected with
  | nil => simp [Row.blocks]
  | cons row rest ih =>
      obtain ⟨added, hadd, hcollect⟩ := collect_cons_eq_ok_iff.mp hcollect
      rw [addRow, Prod.mk.injEq] at hadd
      obtain ⟨rfl, hadd⟩ := hadd
      have hadd : (addTo row calls (calls.map fun _ => Tally.empty)).2 = none := hadd
      obtain ⟨next, hadded, hnext⟩ := exists_of_addTo hadd
      rw [empty, hadded] at hcollect
      obtain ⟨hmine, others, hothers⟩ := exists_of_collect_cons hcollect
      rw [Row.blocks, List.forall_mem_cons]
      refine ⟨fun call hcall => ?_, ih hothers⟩
      obtain ⟨t, ht⟩ := hmine call hcall
      exact ⟨t, Outcome.bind_eq_ok_iff.mpr ⟨next call, hnext call hcall, ht⟩⟩

theorem exists_ofBlock {block : List Row}
    (hblock : ∀ call ∈ calls, ∃ t, Tally.empty.over call block = .ok t) :
    ∃ group, ofBlock calls columns block = .ok group := by
  obtain ⟨tallies, htallies⟩ := Outcome.exists_mapM_eq_ok hblock
  exact ⟨_, Outcome.bind_eq_ok_iff.mpr ⟨tallies, htallies, rfl⟩⟩

theorem exists_collect_iff_blocks (calls : List AggregateCall) (columns : List Nat)
    (rows : List Row) :
    (∃ collected, collect calls columns [] rows = .ok collected) ↔
      ∀ block ∈ Row.blocks (Row.keyOf columns) rows, ∀ call ∈ calls, ∃ t,
        Tally.empty.over call block = .ok t := by
  constructor
  · rintro ⟨collected, hcollect⟩
    exact exists_over_of_collect hcollect
  · intro hblocks
    obtain ⟨groups, hgroups⟩ :=
      Outcome.exists_mapM_eq_ok fun block hblock => exists_ofBlock (hblocks block hblock)
    exact ⟨groups, collect_of_blocks hgroups⟩

/-- Groups can be collected exactly if their sums fit. -/
theorem exists_collect_iff (hcalls : ∀ call ∈ calls, call.Takes schema)
    (hrows : ∀ row ∈ rows, row.Conforms schema) (columns : List Nat) :
    (∃ collected, collect calls columns [] rows = .ok collected) ↔
      Row.SumsFit columns calls rows := by
  have hkeyed := Row.KeyedBy.of_conforms hrows columns
  have hofKey (key : Key) : ∀ row ∈ Row.ofKey columns key rows, row.Conforms schema :=
    fun row hrow => hrows row (Row.mem_ofKey_iff.mp hrow).1
  rw [exists_collect_iff_blocks]
  constructor
  · intro hblocks row hrow call hcall
    obtain ⟨block, hblock, hmem⟩ :=
      List.mem_flatten.mp ((Row.flatten_blocks_perm columns rows).mem_iff.mpr hrow)
    obtain ⟨first, others, -, -, hall⟩ := Row.exists_of_mem_blocks hkeyed hblock
    rw [hall, Row.mem_ofKey_iff] at hmem
    have htally := hblocks block hblock call hcall
    rw [hall, Row.ofKey_congr hmem.2] at htally
    exact (AggregateCall.exists_over_iff (hcalls call hcall) (hofKey _)).mp htally
  · intro hfit block hblock call hcall
    obtain ⟨first, others, hfirst, -, hall⟩ := Row.exists_of_mem_blocks hkeyed hblock
    rw [hall]
    exact (AggregateCall.exists_over_iff (hcalls call hcall) (hofKey _)).mpr
      (hfit first hfirst call hcall)

/-- The groups of some rows have their keys, and tallies over their rows. -/
theorem exists_ofRows (hgroups : ∀ group ∈ Row.groupsOf columns rows, ∀ call ∈ calls,
    ∃ t, Tally.empty.over call group.2 = .ok t) :
    ∃ made, ofRows calls columns rows = .ok made ∧
      List.Forall₂ (fun group made => made.key = group.1 ∧
      List.Forall₂ (fun call t => Tally.empty.over call group.2 = .ok t) calls made.tallies)
      (Row.groupsOf columns rows) made := by
  unfold Row.groupsOf at hgroups ⊢
  unfold ofRows
  rw [List.forall_mem_map] at hgroups
  obtain ⟨made, hmade⟩ := Outcome.exists_mapM_eq_ok fun block hblock =>
    exists_ofBlock (hgroups block hblock)
  refine ⟨made, hmade,
    List.forall₂_map_left_iff.mpr
      ((Outcome.mapM_eq_ok_iff.mp hmade).imp fun block group hgroup => ?_)⟩
  obtain ⟨tallies, htallies, hgroup⟩ := Outcome.bind_eq_ok_iff.mp hgroup
  rw [← Except.ok.inj hgroup]
  exact ⟨rfl, Outcome.mapM_eq_ok_iff.mp htallies⟩

/-- The row of a group with tallies over some rows is a summary of them. -/
theorem isSummary_row {named : List (AggregateCall × String)}
    (hcalls : ∀ call ∈ named, call.1.Takes schema) (hrows : ∀ row ∈ rows, row.Conforms schema)
    {made : Group} (hmade : List.Forall₂
      (fun call t => Tally.empty.over call rows = .ok t) (named.map (·.1)) made.tallies) :
    Row.IsSummary schema (named.map (·.1)) (made.key, rows)
      (made.row (named.map (·.1)) (named.map fun call =>
        (Flow.aggregateColumn schema call).type)) := by
  obtain ⟨key, tallies⟩ := made
  refine ⟨_, rfl, ?_⟩
  rw [List.forall₂_map_left_iff] at hmade ⊢
  dsimp only at hmade ⊢
  induction hmade with
  | nil => exact .nil
  | cons htally _ ih =>
      rw [List.forall_mem_cons] at hcalls
      exact .cons (AggregateCall.summarizes_of_over hcalls.1 hrows htally _) (ih hcalls.2)

end Group

/-! ## Aggregations -/

namespace Flow

variable {input flow : Flow} {columns : List Nat} {calls : List (AggregateCall × Option String)}
  {rows : List Row}

theorem takes_of_checkCall {schema : Schema} {call : AggregateCall}
    (hcheck : checkCall schema call = .ok ()) : call.Takes schema := by
  obtain ⟨fn, place⟩ := call
  unfold checkCall at hcheck
  unfold AggregateCall.Takes
  cases place with
  | none => cases hneeds : fn.needsNumbers <;> simp_all
  | some i =>
      dsimp only at hcheck ⊢
      cases hcolumn : schema[i]? with
      | none => simp [hcolumn] at hcheck
      | some column =>
          refine ⟨column, rfl, fun hneeds => ?_⟩
          cases hnumeric : column.type.isNumeric with
          | true => rfl
          | false => simp [hcolumn, hneeds, hnumeric] at hcheck

theorem takes_of_groupBy (hflow : input.groupBy columns calls = .ok flow) :
    ∀ call ∈ calls, call.1.Takes input.schema := by
  unfold groupBy at hflow
  dsimp only at hflow
  split at hflow
  · simp at hflow
  · split at hflow
    · simp at hflow
    · obtain ⟨⟨⟩, hcalls, -⟩ := Outcome.bind_eq_ok_iff.mp hflow
      exact fun call hcall => takes_of_checkCall (Outcome.forM_eq_ok_iff.mp hcalls call hcall)

/-- The rows that an aggregation yields summarize the groups of its rows, if no sum of a group
leaves its range. -/
theorem exists_summaries (hflow : input.groupBy columns calls = .ok flow)
    (hinput : input.Runs rows none) (hrows : ∀ row ∈ rows, row.Conforms input.schema)
    (hfit : Row.SumsFit columns (calls.map (·.1)) rows) :
    ∃ shown, flow.Runs shown none ∧
      List.Forall₂ (Row.IsSummary input.schema (calls.map (·.1)))
        (Row.groupsOf columns rows) shown := by
  have htakes := takes_of_groupBy hflow
  obtain rfl := eq_of_groupBy hflow
  set named := calls.map fun call =>
    (call.1, call.2.getD (callName input.schema call.1)) with hnamed
  have hfst : calls.map (·.1) = named.map (·.1) := by
    rw [hnamed, List.map_map]
    rfl
  have htakes : ∀ call ∈ named, call.1.Takes input.schema := by rwa [hnamed, List.forall_mem_map]
  rw [hfst] at hfit ⊢
  have hgrouping := Row.isGrouping_groupsOf (Row.KeyedBy.of_conforms hrows columns)
  -- groups hold rows of the input, so every call has a tally of every group
  have hmembers : ∀ group ∈ Row.groupsOf columns rows, ∀ row ∈ group.2,
      row.Conforms input.schema := by
    intro group hgroup row hrow
    rw [hgrouping.rows_eq group hgroup] at hrow
    exact hrows row (Row.mem_ofKey_iff.mp hrow).1
  have htallies : ∀ group ∈ Row.groupsOf columns rows, ∀ call ∈ named.map (·.1),
      ∃ t, Tally.empty.over call group.2 = .ok t := by
    intro group hgroup call hcall
    obtain ⟨pair, hpair, rfl⟩ := List.mem_map.mp hcall
    refine (AggregateCall.exists_over_iff (htakes pair hpair) (hmembers group hgroup)).mpr
      fun hneeds => ?_
    exact hfit.of_grouping hgrouping hgroup hcall hneeds
  -- the groups as a function of the rows are those that are collected row by row
  obtain ⟨made, hofRows, hmade⟩ := Group.exists_ofRows htallies
  obtain ⟨collected, hcollect, hcompleted⟩ := Group.completed_of_ofRows hofRows
  have hruns := runs_aggregate hinput columns named
  rw [hcollect, aggregateRows, hcompleted, aggregateFault] at hruns
  refine ⟨_, hruns, ?_⟩
  rw [groupRows, List.forall₂_map_right_iff]
  refine ((List.forall₂_and_left _ _).mpr ⟨hmembers, hmade⟩).imp fun group made h => ?_
  obtain ⟨hrows, hkey, htallies⟩ := h
  have hsummary := Group.isSummary_row htakes hrows htallies
  rwa [hkey] at hsummary

/-- An aggregation fails with an overflow before its first row, if a sum of a group leaves its
range. -/
theorem runs_overflow (hflow : input.groupBy columns calls = .ok flow)
    (hinput : input.Runs rows none) (hrows : ∀ row ∈ rows, row.Conforms input.schema)
    (hfit : ¬ Row.SumsFit columns (calls.map (·.1)) rows) :
    flow.Runs [] (some (.tally .overflow)) := by
  have htakes : ∀ call ∈ calls.map (·.1), call.Takes input.schema := by
    rw [List.forall_mem_map]
    exact takes_of_groupBy hflow
  obtain rfl := eq_of_groupBy hflow
  have hruns :=
    runs_aggregate hinput columns (calls.map fun call =>
      (call.1, call.2.getD (callName input.schema call.1)))
  rw [List.map_map] at hruns
  change Runs _ (aggregateRows _ _ _ (Group.collect (calls.map (·.1)) columns [] rows) none)
    (aggregateFault (Group.collect (calls.map (·.1)) columns [] rows) none) at hruns
  cases hcollect : Group.collect (calls.map (·.1)) columns [] rows with
  | ok collected =>
      exact absurd ((Group.exists_collect_iff htakes hrows columns).mp ⟨collected, hcollect⟩) hfit
  | error fault =>
      rw [hcollect, Group.overflow_of_collect htakes hrows hcollect] at hruns
      exact hruns

/-- An aggregation yields the groups of its rows with their aggregates, if no sum of a group leaves
its range. -/
theorem grouped_of_groupBy (hflow : input.groupBy columns calls = .ok flow)
    (hinput : input.Runs rows none) (hrows : ∀ row ∈ rows, row.Conforms input.schema)
    (hfit : Row.SumsFit columns (calls.map (·.1)) rows) :
    ∃ groups shown, flow.Runs shown none ∧ Row.IsGrouping columns rows groups ∧
      List.Forall₂ (Row.IsSummary input.schema (calls.map (·.1))) groups shown ∧
      ∀ call : AggregateCall, call.column = none →
        (groups.map fun group => (call.taken group.2).length).sum = rows.length := by
  obtain ⟨shown, hruns, hsummaries⟩ := exists_summaries hflow hinput hrows hfit
  have hgrouping := Row.isGrouping_groupsOf (Row.KeyedBy.of_conforms hrows columns)
  refine ⟨_, shown, hruns, hgrouping, hsummaries, fun call hcall => ?_⟩
  simp only [AggregateCall.length_taken_of_rows hcall]
  rw [← hgrouping.perm.length_eq, List.length_flatMap]

/-- Books by their kinds, and their pages where these are known. -/
def bookLengths : List Row :=
  [[.text "novel", .int32 320], [.null, .int32 90], [.text "novel", .null],
    [.text "poems", .int32 120],
    [.null, .int32 110], [.text "novel", .int32 150]]

/-- The number of books of each kind, and what is known of their pages. -/
theorem grouped_of_groupBy_books :
    ∃ flow groups shown,
      (ofRows [⟨"kind", .text⟩, ⟨"pages", .int32⟩] bookLengths).groupBy [0]
        [(⟨.count, none⟩, none), (⟨.count, some 1⟩, none), (⟨.sum, some 1⟩, none),
          (⟨.min, some 1⟩, none)] =
          .ok flow ∧
      Row.IsGrouping [0] bookLengths groups ∧
      List.Forall₂ (Row.IsSummary [⟨"kind", .text⟩, ⟨"pages", .int32⟩]
        [⟨.count, none⟩, ⟨.count, some 1⟩, ⟨.sum, some 1⟩, ⟨.min, some 1⟩]) groups shown ∧
      (groups.map fun group => (AggregateCall.taken ⟨.count, none⟩ group.2).length).sum = 6 ∧
      shown = [[.text "novel", .int64 3, .int64 2, .int64 470, .int32 150],
        [.null, .int64 2, .int64 2, .int64 200, .int32 90],
        [.text "poems", .int64 1, .int64 1, .int64 120, .int32 120]] := by
  have hflow : ∃ flow, (ofRows [⟨"kind", .text⟩, ⟨"pages", .int32⟩] bookLengths).groupBy [0]
        [(⟨.count, none⟩, none), (⟨.count, some 1⟩, none), (⟨.sum, some 1⟩, none),
          (⟨.min, some 1⟩, none)] =
          .ok flow := ⟨_, rfl⟩
  obtain ⟨flow, hflow⟩ := hflow
  have hrows : ∀ row ∈ bookLengths, Row.Conforms [⟨"kind", .text⟩, ⟨"pages", .int32⟩] row := by
    simp [bookLengths, Row.Conforms, Value.conforms, Value.ofType, Value.type?, Value.isProper,
      Value.isNull]
  obtain ⟨groups, shown, hruns, hgroups, hsummary, hcount⟩ :=
    grouped_of_groupBy hflow (runs_ofRows _ _) hrows (by decide)
  refine ⟨flow, groups, shown, hflow, hgroups, hsummary, hcount _ rfl, ?_⟩
  obtain ⟨last, hrun⟩ := run_of_runs hruns
  obtain rfl := Except.ok.inj hflow
  exact (congrArg Prod.fst hrun).symm

end Flow

end EntityQuery
