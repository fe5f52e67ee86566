import EntityQuery.Proofs.Flow.Yield
import Mathlib.Tactic.Set

/-!
# What stages yield

Each stage turns the rows that its input yields into those that it yields itself.  A scan yields its
rows, a filter those of which its predicate holds, a projection the picked columns, a distinct stage
the first row of every key, a sort all rows in order, a join every row on the left with its matches.
A window may end before its input fails; all others pass a fault on.

Every statement about a started stage is by induction on what the input yields, and the statement
about the stage with its start follows.

## Main definitions

* `Row.firsts` : the first row of every key
* `Group.collect` : the groups of some rows
* `Flow.aggregateRows`, `Flow.aggregateFault` : what an aggregation yields

## Main statements

* `runs_filter`, `runs_project`, `runs_distinct`, `runs_sort`, `runs_window`, `runs_aggregate`,
  `runs_join`
-/

namespace EntityQuery

/-- The rows whose key is not among those seen before nor that of an earlier row; without columns
the whole row is the key. -/
def Row.firsts (columns : List Nat) : List Key → List Row → List Row
  | _, [] => []
  | seen, row :: rest =>
    let key := if columns.isEmpty then row else row.keyOf columns
    if seen.any (·.same key) then firsts columns seen rest
    else row :: firsts columns (key :: seen) rest

/-- The groups of some rows added to those of earlier rows, or the fault of the first row that
cannot be added. -/
def Group.collect (calls : List AggregateCall) (columns : List Nat) : List Group → List Row →
    Except TallyFault (List Group)
  | groups, [] => pure groups
  | groups, row :: rest =>
    match Group.addRow calls (row.keyOf columns) row groups with
    | (groups, none) => collect calls columns groups rest
    | (_, some fault) => throw fault

namespace Flow

variable {input left right next : Flow} {rows : List Row} {e : Option FlowFault}

/-! ## Scans -/

theorem yields_scan (schema : Schema) (rows unread : List Row) :
    Yields (.scan schema rows unread true) unread none := by
  induction unread with
  | nil => exact .done rfl
  | cons row unread ih => exact .row rfl ih

theorem runs_ofRows (schema : Schema) (rows : List Row) : Runs (ofRows schema rows) rows none :=
  .started rfl rfl (yields_scan schema rows rows)

/-! ## Filters -/

theorem yields_filter (hinput : Yields input rows e) {predicate : Expr} {keep : Row → Bool}
    (hkeep : ∀ row ∈ rows, predicate.holds row = .ok (keep row)) :
    Yields (.filter input predicate true) (rows.filter keep) e := by
  induction hinput with
  | done hstep => exact .done (by rw [step, hstep]; rfl)
  | fault hstep => exact .fault (by rw [step, hstep]; rfl)
  | again hstep _ ih => exact .again (by rw [step, hstep]; rfl) (ih hkeep)
  | @row _ _ row _ _ hstep _ ih =>
      rw [List.forall_mem_cons] at hkeep
      cases hrow : keep row with
      | true =>
          rw [List.filter_cons_of_pos hrow]
          refine .row ?_ (ih hkeep.2)
          simp [step, hstep, hkeep.1, hrow]
      | false =>
          rw [List.filter_cons_of_neg (by simp [hrow])]
          refine .again ?_ (ih hkeep.2)
          simp [step, hstep, hkeep.1, hrow]

/-- A filter yields the rows of which its predicate holds. -/
theorem runs_filter (hinput : Runs input rows none) {predicate : Expr} {keep : Row → Bool}
    (hkeep : ∀ row ∈ rows, predicate.holds row = .ok (keep row)) :
    Runs (.filter input predicate false) (rows.filter keep) none := by
  obtain ⟨next, hstart, hschema, hnext⟩ := hinput.exists_yields
  refine .started ?_ ?_ (yields_filter hnext hkeep)
  · simp [start, hstart]
  · exact hschema

/-- A filter fails at a row for which its predicate has no truth. -/
theorem yields_filter_fault (hinput : Yields input rows e) {predicate : Expr} {row : Row}
    (hrow : row ∈ rows) {fault : ExprFault} (hfault : predicate.holds row = .error fault) :
    ∃ shown fault, Yields (.filter input predicate true) shown (some fault) := by
  induction hinput with
  | done | fault => simp at hrow
  | again hstep _ ih =>
      obtain ⟨shown, fault, hnext⟩ := ih hrow
      exact ⟨shown, fault, .again (by rw [step, hstep]; rfl) hnext⟩
  | @row input next first rows e hstep _ ih =>
      cases hfirst : predicate.holds first with
      | error fault =>
          refine ⟨[], .expr fault, @Yields.fault _ (.filter next predicate true) _ ?_⟩
          simp [step, hstep, hfirst]
      | ok keep =>
          have hrest : row ∈ rows := by
            rcases List.mem_cons.mp hrow with rfl | hrest
            · simp [hfirst] at hfault
            · exact hrest
          obtain ⟨shown, fault, hnext⟩ := ih hrest
          cases keep with
          | true => exact ⟨first :: shown, fault, .row (by simp [step, hstep, hfirst]) hnext⟩
          | false => exact ⟨shown, fault, .again (by simp [step, hstep, hfirst]) hnext⟩

theorem runs_filter_fault (hinput : Runs input rows e) {predicate : Expr} {row : Row}
    (hrow : row ∈ rows) {fault : ExprFault} (hfault : predicate.holds row = .error fault) :
    ∃ shown fault, Runs (.filter input predicate false) shown (some fault) := by
  cases hinput with
  | started hstart hschema hnext =>
      obtain ⟨shown, fault, hshown⟩ := yields_filter_fault hnext hrow hfault
      refine ⟨shown, fault, .started ?_ ?_ hshown⟩
      · simp [start, hstart]
      · exact hschema
  | failed => simp at hrow

/-! ## Projections -/

theorem yields_project (hinput : Yields input rows e) (columns : List (Nat × String)) :
    Yields (.project input columns true) (rows.map (Row.keyOf (columns.map (·.1)))) e := by
  induction hinput with
  | done hstep => exact .done (by rw [step, hstep]; rfl)
  | fault hstep => exact .fault (by rw [step, hstep]; rfl)
  | again hstep _ ih => exact .again (by rw [step, hstep]; rfl) ih
  | row hstep _ ih => exact .row (by rw [step, hstep]; rfl) ih

/-- A projection yields the picked columns of every row. -/
theorem runs_project (hinput : Runs input rows e) (columns : List (Nat × String)) :
    Runs (.project input columns false) (rows.map (Row.keyOf (columns.map (·.1)))) e := by
  cases hinput with
  | started hstart hschema hnext =>
      refine .started ?_ ?_ (yields_project hnext columns)
      · simp [start, hstart]
      · simp [schema, hschema]
  | failed hstart => exact .failed (by rw [start, hstart]; rfl)

/-! ## Distinct rows -/

theorem yields_distinct (hinput : Yields input rows e) (columns : List Nat) (seen : List Key) :
    Yields (.distinct input columns seen true) (Row.firsts columns seen rows) e := by
  induction hinput generalizing seen with
  | done hstep => exact .done (by rw [step, hstep]; rfl)
  | fault hstep => exact .fault (by rw [step, hstep]; rfl)
  | again hstep _ ih => exact .again (by rw [step, hstep]; rfl) (ih seen)
  | @row flow next row _ _ hstep _ ih =>
      rw [Row.firsts]
      set key := if columns.isEmpty then row else row.keyOf columns with hkey
      by_cases hseen : seen.any (·.same key) = true
      · rw [if_pos hseen]
        refine .again ?_ (ih seen)
        simp only [step, hstep, ← hkey, hseen]
        rfl
      · rw [if_neg hseen]
        refine .row ?_ (ih _)
        simp only [step, hstep, ← hkey, hseen]
        rfl

/-- A distinct stage yields the first row of every key. -/
theorem runs_distinct (hinput : Runs input rows e) (columns : List Nat) :
    Runs (.distinct input columns [] false) (Row.firsts columns [] rows) e := by
  cases hinput with
  | started hstart hschema hnext =>
      refine .started ?_ ?_ (yields_distinct hnext columns [])
      · simp [start, hstart]
      · exact hschema
  | failed hstart => exact .failed (by rw [start, hstart]; rfl)

/-! ## Sorts -/

theorem yields_sort (input : Flow) (keys : List SortKey) (unread : List Row) :
    Yields (.sort input keys unread true) unread none := by
  induction unread with
  | nil => exact .done rfl
  | cons row unread ih => exact .row rfl ih

/-- A sort yields all rows in order. -/
theorem runs_sort (hinput : Runs input rows none) (keys : List SortKey) :
    Runs (.sort input keys [] false) (Row.sorted keys rows) none := by
  obtain ⟨next, hstart, hschema, hnext⟩ := hinput.exists_yields
  obtain ⟨last, hdrain, hlast⟩ := drain_of_yields hnext
  refine .started ?_ ?_ (yields_sort last keys _)
  · simp [start, hstart, hdrain]
  · exact hlast.trans hschema

theorem runs_sort_fault {fault : FlowFault} (hinput : Runs input rows (some fault))
    (keys : List SortKey) : Runs (.sort input keys [] false) [] (some fault) := by
  cases hinput with
  | started hstart hschema hnext =>
      obtain ⟨last, hdrain, -⟩ := drain_of_yields hnext
      refine @Runs.failed _ (.sort last keys [] false) _ ?_
      simp [start, hstart, hdrain]
  | @failed next _ hstart =>
      refine @Runs.failed _ (.sort next keys [] false) _ ?_
      simp [start, hstart]

/-! ## Windows -/

/-- The rows that a window shows of those behind its offset, when so many have been returned. -/
def windowed (most : Option Nat) (returned : Nat) (rows : List Row) : List Row :=
  match most with
  | some n => rows.take (n - returned)
  | none => rows

@[simp] theorem windowed_nil (most : Option Nat) (returned : Nat) :
    windowed most returned [] = [] := by
  cases most <;> simp [windowed]

/-- A window yields rows until it is full or its input ends; once it is full its input may fail
unnoticed. -/
theorem yields_limit (hinput : Yields input rows e) (most : Option Nat)
    (offset skipped returned : Nat) :
    Yields (.limit input most offset skipped returned true)
      (windowed most returned (rows.drop (offset - skipped)))
      (if most.any (· ≤ returned + (rows.drop (offset - skipped)).length) then none else e) := by
  -- a window that is full ends whatever its input does
  have hfull (input : Flow) (skipped returned : Nat) (rest : List Row) (e : Option FlowFault)
      (hmost : most.any (· ≤ returned) = true) :
      Yields (.limit input most offset skipped returned true) (windowed most returned rest)
        (if most.any (· ≤ returned + rest.length) then none else e) := by
    cases most with
    | none => simp at hmost
    | some n =>
        have hn : n ≤ returned := by simpa using hmost
        rw [windowed, Nat.sub_eq_zero_of_le hn, List.take_zero, if_pos (by simp; omega)]
        refine @Yields.done _ (.limit input (some n) offset skipped returned true) ?_
        simp [step, hn]
  -- on the rows of the input; what has been skipped and returned is counted on the way
  induction hinput generalizing skipped returned with
  | @done input next hstep =>
      by_cases hmost : most.any (· ≤ returned) = true
      · exact hfull _ _ _ _ _ hmost
      · rw [List.drop_nil, List.length_nil, Nat.add_zero, if_neg hmost, windowed_nil]
        refine @Yields.done _ (.limit next most offset skipped returned true) ?_
        simp [step, hmost, hstep]
  | @fault input next fault hstep =>
      by_cases hmost : most.any (· ≤ returned) = true
      · exact hfull _ _ _ _ _ hmost
      · rw [List.drop_nil, List.length_nil, Nat.add_zero, if_neg hmost, windowed_nil]
        refine @Yields.fault _ (.limit next most offset skipped returned true) _ ?_
        simp [step, hmost, hstep]
  | @again input next rows e hstep _ ih =>
      by_cases hmost : most.any (· ≤ returned) = true
      · exact hfull _ _ _ _ _ hmost
      · refine .again ?_ (ih skipped returned)
        simp [step, hmost, hstep]
  | @row input next row rows e hstep _ ih =>
      by_cases hmost : most.any (· ≤ returned) = true
      · exact hfull _ _ _ _ _ hmost
      · by_cases hskip : skipped < offset
        -- the row is one of those that are skipped
        · have hoffset : offset - skipped = offset - (skipped + 1) + 1 := by omega
          rw [hoffset, List.drop_succ_cons]
          refine .again ?_ (ih (skipped + 1) returned)
          simp [step, hmost, hstep, hskip]
        · have hrest := ih skipped (returned + 1)
          rw [Nat.sub_eq_zero_of_le (Nat.le_of_not_lt hskip), List.drop_zero] at hrest ⊢
          have hshown : windowed most returned (row :: rows) =
              row :: windowed most (returned + 1) rows := by
            cases most with
            | none => rfl
            | some n =>
                have hn : n - returned = n - (returned + 1) + 1 := by simp at hmost; omega
                rw [windowed, hn, List.take_succ_cons, windowed]
          rw [hshown, List.length_cons, Nat.add_comm rows.length, ← Nat.add_assoc]
          refine .row ?_ hrest
          simp [step, hmost, hstep, hskip]

/-- A window fails only as its input does. -/
theorem runs_limit (hinput : Runs input rows e) (most : Option Nat) (offset : Nat) :
    ∃ shown fault, Runs (.limit input most offset 0 0 false) shown fault ∧
      (fault = none ∨ fault = e) := by
  cases hinput with
  | started hstart hschema hnext =>
      refine ⟨_, _, .started ?_ ?_ (yields_limit hnext most offset 0 0), ?_⟩
      · simp [start, hstart]
      · exact hschema
      · split
        · exact .inl rfl
        · exact .inr rfl
  | @failed _ fault hstart => exact ⟨[], some fault, .failed (by rw [start, hstart]; rfl), .inr rfl⟩

/-- A window yields the rows behind its offset, up to its size. -/
theorem runs_window (hinput : Runs input rows none) (offset n : Nat) :
    Runs (input.window offset (some n)) ((rows.drop offset).take n) none := by
  obtain ⟨next, hstart, hschema, hnext⟩ := hinput.exists_yields
  have hshown := yields_limit hnext (some n) offset 0 0
  rw [ite_self, windowed, Nat.sub_zero, Nat.sub_zero] at hshown
  refine .started ?_ ?_ hshown
  · simp [window, start, hstart]
  · exact hschema

/-- A window that is not empty fails before its first row if its input does. -/
theorem runs_window_fault {fault : FlowFault} (hinput : Runs input [] (some fault)) (offset : Nat)
    {n : Nat} (hn : 0 < n) :
    Runs (input.window offset (some n)) [] (some fault) := by
  cases hinput with
  | started hstart hschema hnext =>
      have hshown := yields_limit hnext (some n) offset 0 0
      have hopen : ¬ (some n).any (fun n => decide (n ≤ 0 + ([] : List Row).length)) = true := by
        simpa using Nat.pos_iff_ne_zero.mp hn
      rw [List.drop_nil, windowed_nil, if_neg hopen] at hshown
      refine .started ?_ ?_ hshown
      · simp [window, start, hstart]
      · exact hschema
  | failed hstart => exact .failed (by rw [window, start, hstart]; rfl)

/-! ## Groups -/

/-- The rows that are handed out for some groups. -/
def groupRows (schema : Schema) (calls : List (AggregateCall × String))
    (groups : List Group) : List Row :=
  groups.map
    (Group.row (calls.map (·.1)) (calls.map fun call => (aggregateColumn schema call).type))

theorem yields_complete (input : Flow) (columns : List Nat) (calls : List (AggregateCall × String))
    (groups : List Group) :
    Yields (.aggregate input columns calls groups true true)
      (groupRows input.schema calls groups) none := by
  induction groups with
  | nil => exact .done rfl
  | cons group groups ih => exact .row rfl ih

/-- What an aggregation hands out: the rows of the groups, if all rows of its input can be added to
their groups. -/
def aggregateRows (schema : Schema) (columns : List Nat) (calls : List (AggregateCall × String)) :
    Except TallyFault (List Group) → Option FlowFault → List Row
  | .ok groups, none => groupRows schema calls (completed columns calls groups)
  | _, _ => []

/-- What an aggregation ends with: the fault of the first row that cannot be added to its group, or
that of its input. -/
def aggregateFault (collected : Except TallyFault (List Group)) (e : Option FlowFault) :
    Option FlowFault :=
  match collected with
  | .ok _ => e
  | .error fault => some (.tally fault)

/-- An aggregation hands out the groups of all rows, or fails before the first. -/
theorem yields_aggregate (hinput : Yields input rows e) (columns : List Nat)
    (calls : List (AggregateCall × String)) (groups : List Group) :
    Yields (.aggregate input columns calls groups false true)
      (aggregateRows input.schema columns calls
        (Group.collect (calls.map (·.1)) columns groups rows) e)
      (aggregateFault (Group.collect (calls.map (·.1)) columns groups rows) e) := by
  induction hinput generalizing groups with
  | @done input next hstep =>
      have hschema := schema_step input .never
      rw [hstep] at hschema
      rw [← hschema]
      refine .again ?_ (yields_complete next columns calls (completed columns calls groups))
      simp [step, hstep]
  | @fault input next fault hstep =>
      refine @Yields.fault _ (.aggregate next columns calls groups false true) _ ?_
      simp [step, hstep]
  | @again input next rows e hstep _ ih =>
      have hschema := schema_step input .never
      rw [hstep] at hschema
      rw [← hschema]
      refine .again ?_ (ih groups)
      simp [step, hstep]
  | @row input next row rows e hstep _ ih =>
      have hschema := schema_step input .never
      rw [hstep] at hschema
      rw [← hschema]
      -- a row that cannot be added ends the run before any group is handed out
      cases hadd : Group.addRow (calls.map (·.1)) (row.keyOf columns) row groups with
      | mk added fault =>
          rw [Group.collect, hadd]
          cases fault with
          | none =>
              refine .again ?_ (ih added)
              simp [step, hstep, hadd]
          | some fault =>
              refine @Yields.fault _ (.aggregate next columns calls added false true) _ ?_
              simp [step, hstep, hadd]

theorem runs_aggregate (hinput : Runs input rows e) (columns : List Nat)
    (calls : List (AggregateCall × String)) :
    Runs (.aggregate input columns calls [] false false)
      (aggregateRows input.schema columns calls (Group.collect (calls.map (·.1)) columns [] rows) e)
      (aggregateFault (Group.collect (calls.map (·.1)) columns [] rows) e) := by
  cases hinput with
  | started hstart hschema hnext =>
      rw [← hschema]
      refine .started ?_ ?_ (yields_aggregate hnext columns calls [])
      · simp [start, hstart]
      · simp [schema, hschema]
  | failed hstart => exact .failed (by rw [start, hstart]; rfl)

/-! ## Joins -/

theorem yields_join (hleft : Yields left rows e) (right : Flow) (leftKey rightKey : Nat)
    (table : MatchTable) (ready : List Row) :
    Yields (.join left right leftKey rightKey table ready true)
      (ready ++ rows.flatMap fun row =>
        joined right.schema.length row (table.rowsOf (row.getD leftKey .null))) e := by
  -- rows that are ready are handed out before the left side is asked
  have hready (left : Flow) {rest : List Row} {e : Option FlowFault}
      (hrest : Yields (.join left right leftKey rightKey table [] true) rest e) (ready : List Row) :
      Yields (.join left right leftKey rightKey table ready true) (ready ++ rest) e := by
    induction ready with
    | nil => exact hrest
    | cons row ready ih => exact .row rfl ih
  induction hleft generalizing ready with
  | done hstep => exact hready _ (.done (by rw [step, hstep]; rfl)) ready
  | fault hstep => exact hready _ (.fault (by rw [step, hstep]; rfl)) ready
  | again hstep _ ih => exact hready _ (.again (by rw [step, hstep]; rfl) (ih [])) ready
  | row hstep _ ih =>
      rw [List.flatMap_cons]
      exact hready _ (.again (by rw [step, hstep]; rfl) (ih _)) ready

/-- A join yields every row on the left with its matches on the right, and ends as its left input
does. -/
theorem runs_join (hleft : Runs left rows e) {rights : List Row} (hright : Runs right rights none)
    (leftKey rightKey : Nat) :
    Runs (.join left right leftKey rightKey .empty [] false)
      (rows.flatMap fun row =>
        joined right.schema.length row
          ((MatchTable.ofRows rightKey rights).rowsOf (row.getD leftKey .null)))
      e := by
  obtain ⟨nextRight, hstartRight, hschemaRight, hnextRight⟩ := hright.exists_yields
  obtain ⟨last, hdrain, hlast⟩ := drain_of_yields hnextRight
  have hschema : last.schema = right.schema := hlast.trans hschemaRight
  cases hleft with
  | started hstartLeft hschemaLeft hnextLeft =>
      rw [← hschema]
      refine .started ?_ ?_
        (yields_join hnextLeft last leftKey rightKey (.ofRows rightKey rights) [])
      · simp [start, hstartLeft, hstartRight, hdrain]
      · simp [schema, hschemaLeft, hschema]
  | failed hstart => exact .failed (by rw [start, hstart]; rfl)

end Flow

end EntityQuery
