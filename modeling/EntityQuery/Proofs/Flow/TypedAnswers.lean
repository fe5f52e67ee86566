import EntityQuery.Proofs.Flow.Calls
import EntityQuery.Proofs.Flow.TypedRows

/-!
# Answers of the types of their columns

A flow declares the types of its columns when it is built, and computes the values when it is asked
for them.  The two agree: over tables whose rows are typed, every row that is handed out holds null
or a value of the declared type in each of the declared columns.

There is one exception.  The least or the greatest of whole rows can be asked for; its column is
declared to hold whole numbers, but its value is the truth value by which whole rows are counted,
see `min_of_rows_untyped`.

## Strategy

`WellTyped` is what a flow may have in store at any time: rows that are still to come, groups that
are being collected, rows to join with.  Every step keeps it and yields a typed row if it yields
one, and so does starting the flow, which drains the inputs of sorts and joins.

## Main definitions

* `Flow.ScansTyped`, `Flow.NoRowExtremes` : tables with typed rows, aggregates other than extremes
  of whole rows
* `Flow.WellTyped` : all that a flow has in store is typed

## Main statements

* `Built.wellTyped` : what has been built over typed rows is well typed
* `wellTyped_step`, `wellTyped_start` : steps and starts keep flows well typed
* `typed_of_answers` : all rows that a flow answers with are typed
-/

namespace EntityQuery

namespace Flow

variable {flow input left right : Flow}

/-! ## What a flow has in store -/

/-- Every scan is of rows that are typed for its columns. -/
def ScansTyped : Flow → Prop
  | .scan schema rows _ _ => ∀ row ∈ rows, row.Typed schema
  | .filter input _ _ | .project input _ _ | .distinct input _ _ _ | .sort input _ _ _
  | .limit input _ _ _ _ _ | .aggregate input _ _ _ _ _ => input.ScansTyped
  | .join left right _ _ _ _ _ => left.ScansTyped ∧ right.ScansTyped

/-- No aggregate asks for the least or the greatest of whole rows. -/
def NoRowExtremes : Flow → Prop
  | .scan _ _ _ _ => True
  | .filter input _ _ | .project input _ _ | .distinct input _ _ _ | .sort input _ _ _
  | .limit input _ _ _ _ _ => input.NoRowExtremes
  | .aggregate input _ calls _ _ _ =>
    input.NoRowExtremes ∧ ∀ call ∈ calls, call.1.isRowExtreme = false
  | .join left right _ _ _ _ _ => left.NoRowExtremes ∧ right.NoRowExtremes

/-- All that a flow has in store is typed: the rows that are still to come, the groups that have
been collected and the rows to join with; and the columns that stages name are there. -/
def WellTyped : Flow → Prop
  | .scan schema rows unread _ =>
      (∀ row ∈ rows, row.Typed schema) ∧ ∀ row ∈ unread, row.Typed schema
  | .filter input _ _ | .distinct input _ _ _ | .limit input _ _ _ _ _ => input.WellTyped
  | .project input columns _ => input.WellTyped ∧ ∀ i ∈ columns.map (·.1), i < input.schema.length
  | .sort input _ unread _ => input.WellTyped ∧ ∀ row ∈ unread, row.Typed input.schema
  | .aggregate input columns calls groups _ _ =>
    input.WellTyped ∧ (∀ i ∈ columns, i < input.schema.length) ∧
      (∀ call ∈ calls.map (·.1), call.Reads input.schema) ∧
      ∀ group ∈ groups, group.Typed input.schema columns (calls.map (·.1))
  | .join left right _ _ table ready _ =>
    left.WellTyped ∧ right.WellTyped ∧ (∀ key, ∀ row ∈ table.rowsOf key, row.Typed right.schema) ∧
      ∀ row ∈ ready, Row.Typed (left.schema ++ right.schema) row

/-- The row that a step yields, if any, is typed. -/
def Yielded (schema : Schema) : Step → Prop
  | .row row => row.Typed schema
  | .again | .done | .fault _ => True

/-! ## Steps -/

theorem types_project (input : Flow) (columns : List (Nat × String)) (started : Bool) :
    (project input columns started).schema.types =
      (pick input.schema (columns.map (·.1))).types := by
  rw [schema, pick, Schema.types, Schema.types, List.map_filterMap, List.map_filterMap,
    List.filterMap_map]
  congr 1
  funext column
  rw [Option.map_map]
  rfl

theorem typed_of_mem_joined {schema other : Schema} {row : Row} (hrow : row.Typed schema)
    {rights : List Row} (hrights : ∀ right ∈ rights, right.Typed other) :
    ∀ full ∈ joined other.length row rights, Row.Typed (schema ++ other) full := by
  intro full hfull
  unfold joined at hfull
  split at hfull
  · obtain rfl := List.mem_singleton.mp hfull
    exact hrow.append (Row.typed_nulls other)
  · obtain ⟨right, hright, rfl⟩ := List.mem_map.mp hfull
    exact hrow.append (hrights right hright)

theorem typed_of_mem_completed {schema : Schema} {columns : List Nat}
    {calls : List (AggregateCall × String)} {groups : List Group}
    (hgroups : ∀ group ∈ groups, group.Typed schema columns (calls.map (·.1))) :
    ∀ group ∈ completed columns calls groups, group.Typed schema columns (calls.map (·.1)) := by
  unfold completed
  split
  · next hempty =>
    -- without columns to group by the key is empty
    obtain rfl : columns = [] := List.isEmpty_iff.mp (Bool.and_eq_true_iff.mp hempty).2
    exact List.forall_mem_singleton.mpr (Group.typed_empty _ .nil)
  · exact hgroups

theorem wellTyped_step_aggregate {columns : List Nat} {calls : List (AggregateCall × String)}
    {groups : List Group} {complete started : Bool}
    (hflow : (aggregate input columns calls groups complete started).WellTyped) {signal : Signal}
    (hinput : Yielded input.schema (input.step signal).1 ∧ (input.step signal).2.1.WellTyped) :
    Yielded (aggregate input columns calls groups complete started).schema
        ((aggregate input columns calls groups complete started).step signal).1 ∧
      ((aggregate input columns calls groups complete started).step signal).2.1.WellTyped := by
  have hschema := schema_step input signal
  have hstays := hflow
  obtain ⟨hbefore, hcolumns, hcalls, hgroups⟩ := hflow
  unfold step
  generalize input.step signal = result at hinput hschema
  obtain ⟨result, next, after⟩ := result
  obtain ⟨hyielded, hnext⟩ := hinput
  -- what is in store after the input has moved on
  have hmoved (groups : List Group) (complete started : Bool)
      (hgroups : ∀ group ∈ groups, group.Typed input.schema columns (calls.map (·.1))) :
      (aggregate next columns calls groups complete started).WellTyped := by
    refine ⟨hnext, ?_⟩
    dsimp only at hschema
    rw [hschema]
    exact ⟨hcolumns, hcalls, hgroups⟩
  cases started with
  | false => exact ⟨trivial, hstays⟩
  | true =>
      cases complete with
      | true =>
          cases groups with
          | nil => exact ⟨trivial, hstays⟩
          | cons group rest =>
              rw [List.forall_mem_cons] at hgroups
              exact ⟨Group.typed_row hgroups.1, hbefore, hcolumns, hcalls, hgroups.2⟩
      | false =>
          cases result with
          | again => exact ⟨trivial, hmoved groups false true hgroups⟩
          | fault fault => exact ⟨trivial, hmoved groups false true hgroups⟩
          | done => exact ⟨trivial, hmoved _ true true (typed_of_mem_completed hgroups)⟩
          | row row =>
              refine ⟨?_, hmoved _ false true (Group.typed_addRow hcalls hcolumns hyielded hgroups)⟩
              dsimp only
              cases (Group.addRow (calls.map (·.1)) (row.keyOf columns) row groups).2 <;> trivial

theorem wellTyped_step_join {leftKey rightKey : Nat} {table : MatchTable} {ready : List Row}
    {started : Bool} (hflow : (join left right leftKey rightKey table ready started).WellTyped)
    {signal : Signal}
    (hleft : Yielded left.schema (left.step signal).1 ∧ (left.step signal).2.1.WellTyped) :
    Yielded (join left right leftKey rightKey table ready started).schema
        ((join left right leftKey rightKey table ready started).step signal).1 ∧
      ((join left right leftKey rightKey table ready started).step signal).2.1.WellTyped := by
  have hschema := schema_step left signal
  have hstays := hflow
  obtain ⟨hbefore, hright, htable, hready⟩ := hflow
  unfold step
  generalize left.step signal = result at hleft hschema
  obtain ⟨result, next, after⟩ := result
  obtain ⟨hyielded, hnext⟩ := hleft
  -- what is in store after the left input has moved on
  have hmoved (ready : List Row) (hready : ∀ row ∈ ready,
      Row.Typed (left.schema ++ right.schema) row) :
      (join next right leftKey rightKey table ready true).WellTyped := by
    refine ⟨hnext, hright, htable, ?_⟩
    dsimp only at hschema
    rwa [hschema]
  cases started with
  | false => exact ⟨trivial, hstays⟩
  | true =>
      cases ready with
      | cons row rest =>
          -- rows that wait are typed, and those that are made next match typed rows
          rw [List.forall_mem_cons] at hready
          exact ⟨hready.1, hbefore, hright, htable, hready.2⟩
      | nil =>
          cases result with
          | row row => exact ⟨trivial, hmoved _ (typed_of_mem_joined hyielded (htable _))⟩
          | again | done | fault => exact ⟨trivial, hmoved [] hready⟩

/-- A step keeps a flow well typed, and the row that it yields is typed. -/
theorem wellTyped_step (hflow : flow.WellTyped) (signal : Signal) :
    Yielded flow.schema (flow.step signal).1 ∧ (flow.step signal).2.1.WellTyped := by
  -- on the stages: each answers for its own row, and its input by the induction hypothesis
  induction flow generalizing signal with
  | scan schema rows unread started =>
      unfold step
      cases started with
      | false => exact ⟨trivial, hflow⟩
      | true =>
          cases hset : signal.isSet with
          | true => exact ⟨trivial, hflow⟩
          | false =>
              cases unread with
              | nil => exact ⟨trivial, hflow⟩
              | cons row rest =>
                  obtain ⟨hrows, hunread⟩ := hflow
                  rw [List.forall_mem_cons] at hunread
                  exact ⟨hunread.1, hrows, hunread.2⟩
  | filter input predicate started ih =>
      have hinput := ih hflow signal
      unfold step
      generalize input.step signal = result at hinput
      obtain ⟨result, next, after⟩ := result
      cases started with
      | false => exact ⟨trivial, hflow⟩
      | true =>
          -- the input has moved on whatever becomes of its row
          refine ⟨?_, hinput.2⟩
          cases result with
          | row row =>
              simp only [Bool.not_true, Bool.false_eq_true, if_false]
              cases predicate.holds row with
              | error fault => trivial
              | ok kept =>
                  cases kept with
                  | true => exact hinput.1
                  | false => trivial
          | again | done | fault => trivial
  | project input columns started ih =>
      have hinput := ih hflow.1 signal
      have hschema := schema_step input signal
      unfold step
      generalize input.step signal = result at hinput hschema
      obtain ⟨result, next, after⟩ := result
      cases started with
      | false => exact ⟨trivial, hflow⟩
      | true =>
          refine ⟨?_, hinput.2, hschema ▸ hflow.2⟩
          cases result with
          | row row =>
              exact (hinput.1.keyOf hflow.2).of_types_eq (types_project input columns true).symm
          | again | done | fault => trivial
  | distinct input columns seen started ih =>
      have hinput := ih hflow signal
      unfold step
      generalize input.step signal = result at hinput
      obtain ⟨result, next, after⟩ := result
      cases started with
      | false => exact ⟨trivial, hflow⟩
      | true =>
          cases result with
          | row row =>
              simp only [Bool.not_true, Bool.false_eq_true, if_false]
              -- whether the row is new makes no difference to its type
              generalize (if columns.isEmpty then row else row.keyOf columns) = key
              split
              · exact ⟨trivial, hinput.2⟩
              · exact hinput
          | again | done | fault => exact ⟨trivial, hinput.2⟩
  | sort input keys unread started ih =>
      unfold step
      cases started with
      | false => exact ⟨trivial, hflow⟩
      | true =>
          cases unread with
          | nil => exact ⟨trivial, hflow⟩
          | cons row rest =>
              -- the rows have been read and typed when the sort was started
              obtain ⟨hinput, hunread⟩ := hflow
              rw [List.forall_mem_cons] at hunread
              exact ⟨hunread.1, hinput, hunread.2⟩
  | limit input most offset skipped returned started ih =>
      have hinput := ih hflow signal
      unfold step
      generalize input.step signal = result at hinput
      obtain ⟨result, next, after⟩ := result
      cases started with
      | false => exact ⟨trivial, hflow⟩
      | true =>
          simp only [Bool.not_true, Bool.false_eq_true, if_false]
          split
          · exact ⟨trivial, hflow⟩
          · cases result with
            | row row =>
                dsimp only
                split
                · exact ⟨trivial, hinput.2⟩
                · exact hinput
            | again | done | fault => exact ⟨trivial, hinput.2⟩
  | aggregate input columns calls groups complete started ih =>
      exact wellTyped_step_aggregate hflow (ih hflow.1 signal)
  | join left right leftKey rightKey table ready started ihleft _ =>
      exact wellTyped_step_join hflow (ihleft hflow.1 signal)

/-! ## Rows that are left -/

theorem wellTyped_nextWithin (hflow : flow.WellTyped) (steps : Nat) (signal : Signal) :
    (∀ row, (nextWithin steps flow signal).1 = .ok (some row) → row.Typed flow.schema) ∧
      (nextWithin steps flow signal).2.1.schema = flow.schema ∧
      (nextWithin steps flow signal).2.1.WellTyped := by
  induction steps generalizing flow signal with
  | zero => exact ⟨fun row hrow => by simp [nextWithin] at hrow, rfl, hflow⟩
  | succ steps ih =>
      have hstep := wellTyped_step hflow signal
      have hschema := schema_step flow signal
      unfold nextWithin
      generalize flow.step signal = result at hstep hschema
      obtain ⟨result, next, after⟩ := result
      obtain ⟨hyielded, hnext⟩ := hstep
      cases result with
      | again =>
          dsimp only at hschema hnext ⊢
          rw [← hschema]
          exact ih hnext after
      | row row =>
          refine ⟨fun other hother => ?_, hschema, hnext⟩
          obtain rfl := Option.some.inj (Except.ok.inj hother)
          exact hyielded
      | done => exact ⟨fun row hrow => by simp at hrow, hschema, hnext⟩
      | fault fault => exact ⟨fun row hrow => by simp at hrow, hschema, hnext⟩

theorem wellTyped_drainWithin (hflow : flow.WellTyped) (steps : Nat) {before : List Row}
    (hbefore : ∀ row ∈ before, row.Typed flow.schema) (signal : Signal) :
    (∀ row ∈ (drainWithin steps before flow signal).1, row.Typed flow.schema) ∧
      (drainWithin steps before flow signal).2.2.1.schema = flow.schema ∧
      (drainWithin steps before flow signal).2.2.1.WellTyped := by
  have hreverse : ∀ row ∈ before.reverse, row.Typed flow.schema := fun row hrow =>
    hbefore row (List.mem_reverse.mp hrow)
  -- on the steps; the rows drained so far stand in reverse, and the schema stays that of the flow
  induction steps generalizing flow before signal with
  | zero => exact ⟨hreverse, rfl, hflow⟩
  | succ steps ih =>
      have hstep := wellTyped_step hflow signal
      have hschema := schema_step flow signal
      unfold drainWithin
      generalize flow.step signal = result at hstep hschema
      obtain ⟨result, next, after⟩ := result
      obtain ⟨hyielded, hnext⟩ := hstep
      cases result with
      | again =>
          dsimp only at hschema hnext ⊢
          rw [← hschema] at hbefore hreverse ⊢
          exact ih hnext hbefore after hreverse
      | row row =>
          have hrows : ∀ other ∈ row :: before, other.Typed flow.schema :=
            List.forall_mem_cons.mpr ⟨hyielded, hbefore⟩
          dsimp only at hschema hnext ⊢
          rw [← hschema] at hrows ⊢
          exact ih hnext hrows after fun other hother => hrows other (List.mem_reverse.mp hother)
      | done => exact ⟨hreverse, hschema, hnext⟩
      | fault fault => exact ⟨hreverse, hschema, hnext⟩

theorem wellTyped_drain (hflow : flow.WellTyped) (signal : Signal) :
    (∀ row ∈ (flow.drain signal).1, row.Typed flow.schema) ∧
      (flow.drain signal).2.2.1.schema = flow.schema ∧ (flow.drain signal).2.2.1.WellTyped :=
  wellTyped_drainWithin hflow _ (List.forall_mem_nil _) signal

/-! ## Starting -/

theorem wellTyped_run
    (hstart : ∀ signal, (flow.start signal).2.1.schema = flow.schema ∧
      (flow.start signal).2.1.WellTyped)
    (signal : Signal) :
    (∀ row ∈ (flow.run signal).1, row.Typed flow.schema) ∧
      (flow.run signal).2.2.1.schema = flow.schema ∧ (flow.run signal).2.2.1.WellTyped := by
  have hready := hstart signal
  unfold run
  generalize flow.start signal = result at hready
  obtain ⟨fault, next, after⟩ := result
  obtain ⟨hschema, hnext⟩ := hready
  cases fault with
  | some fault => exact ⟨List.forall_mem_nil _, hschema, hnext⟩
  | none =>
      dsimp only at hschema hnext ⊢
      rw [← hschema]
      exact wellTyped_drain hnext after

/-- A sort that starts runs its input, and holds the rows of it. -/
theorem wellTyped_start_sort {keys : List SortKey} {unread : List Row}
    (hflow : (sort input keys unread false).WellTyped)
    (hinput : ∀ signal, (input.start signal).2.1.schema = input.schema ∧
      (input.start signal).2.1.WellTyped)
    (signal : Signal) :
    ((sort input keys unread false).start signal).2.1.schema =
      (sort input keys unread false).schema ∧
      ((sort input keys unread false).start signal).2.1.WellTyped := by
  have hrun := wellTyped_run hinput signal
  rw [start_sort]
  generalize input.run signal = result at hrun
  obtain ⟨rows, fault, next, after⟩ := result
  obtain ⟨hrows, hschema, hnext⟩ := hrun
  dsimp only at hrows hschema hnext
  cases fault with
  | some fault => exact ⟨hschema, hnext, hschema.symm ▸ hflow.2⟩
  | none =>
      refine ⟨hschema, hnext, fun row hrow => ?_⟩
      rw [hschema]
      exact hrows row ((Row.sorted_perm keys rows).mem_iff.mp hrow)

/-- A join that starts runs its right input, and matches the rows of it. -/
theorem wellTyped_start_join {leftKey rightKey : Nat} {table : MatchTable} {ready : List Row}
    (hflow : (join left right leftKey rightKey table ready false).WellTyped)
    (hleft : ∀ signal, (left.start signal).2.1.schema = left.schema ∧
      (left.start signal).2.1.WellTyped)
    (hright : ∀ signal, (right.start signal).2.1.schema = right.schema ∧
      (right.start signal).2.1.WellTyped)
    (signal : Signal) :
    ((join left right leftKey rightKey table ready false).start signal).2.1.schema =
        (join left right leftKey rightKey table ready false).schema ∧
      ((join left right leftKey rightKey table ready false).start signal).2.1.WellTyped := by
  obtain ⟨-, hrightTyped, htable, hready⟩ := hflow
  have hstart := hleft signal
  rw [start_join]
  generalize left.start signal = result at hstart
  obtain ⟨fault, next, after⟩ := result
  obtain ⟨hschema, hnext⟩ := hstart
  dsimp only at hschema hnext
  cases fault with
  | some fault =>
      exact ⟨by rw [schema, hschema, schema], hnext, hrightTyped, htable, hschema.symm ▸ hready⟩
  | none =>
      have hrun := wellTyped_run hright after
      dsimp only
      generalize right.run after = result at hrun
      obtain ⟨rows, fault, last, after⟩ := result
      obtain ⟨hrows, hother, hlast⟩ := hrun
      dsimp only at hrows hother hlast
      cases fault with
      | some fault =>
          refine ⟨by rw [schema, hschema, hother, schema], hnext, hlast, ?_⟩
          rw [hschema, hother]
          exact ⟨htable, hready⟩
      | none =>
          refine ⟨by rw [schema, hschema, hother, schema], hnext, hlast, fun key row hrow => ?_, ?_⟩
          -- the table holds rows of the right input, which are typed
          · rw [MatchTable.rowsOf_ofRows] at hrow
            rw [hother]
            exact hrows row (List.mem_of_mem_filter hrow)
          · rwa [hschema, hother]

/-- Starting keeps a flow well typed, whether or not it comes to an end. -/
theorem wellTyped_start (hflow : flow.WellTyped) (signal : Signal) :
    (flow.start signal).2.1.schema = flow.schema ∧ (flow.start signal).2.1.WellTyped := by
  -- on the stages: starting resets a stage and starts its input, only a sort and a join read rows
  induction flow generalizing signal with
  | scan schema rows unread started => exact ⟨rfl, hflow.1, hflow.1⟩
  | filter input predicate started ih =>
      cases started with
      | true => exact ⟨rfl, hflow⟩
      | false => exact ih hflow signal
  | project input columns started ih =>
      cases started with
      | true => exact ⟨rfl, hflow⟩
      | false =>
          obtain ⟨hschema, hnext⟩ := ih hflow.1 signal
          refine ⟨?_, hnext, hschema.symm ▸ hflow.2⟩
          change (project (input.start signal).2.1 columns _).schema = _
          rw [schema, hschema, schema]
  | distinct input columns seen started ih =>
      cases started with
      | true => exact ⟨rfl, hflow⟩
      | false => exact ih hflow signal
  | sort input keys unread started ih =>
      cases started with
      | true => exact ⟨rfl, hflow⟩
      | false => exact wellTyped_start_sort hflow (ih hflow.1) signal
  | limit input most offset skipped returned started ih =>
      cases started with
      | true => exact ⟨rfl, hflow⟩
      | false => exact ih hflow signal
  | aggregate input columns calls groups complete started ih =>
      cases started with
      | true => exact ⟨rfl, hflow⟩
      | false =>
          obtain ⟨hschema, hnext⟩ := ih hflow.1 signal
          refine ⟨?_, hnext, hschema.symm ▸ hflow.2.1, hschema.symm ▸ hflow.2.2.1,
            List.forall_mem_nil _⟩
          change (aggregate (input.start signal).2.1 columns calls _ _ _).schema = _
          rw [schema, hschema, schema]
  | join left right leftKey rightKey table ready started ihleft ihright =>
      cases started with
      | true => exact ⟨rfl, hflow⟩
      | false => exact wellTyped_start_join hflow (ihleft hflow.1) (ihright hflow.2.1) signal

/-! ## Flows that have been built -/

theorem lt_of_select {columns : List (Nat × String)} (hselect : input.select columns = .ok flow) :
    ∀ i ∈ columns.map (·.1), i < input.schema.length := by
  unfold select at hselect
  dsimp only at hselect
  split at hselect
  · simp at hselect
  · next hnone =>
    intro i hi
    obtain ⟨column, hcolumn, rfl⟩ := List.mem_map.mp hi
    have hwide := List.find?_eq_none.mp hnone column hcolumn
    simpa using hwide

theorem reads_of_checkCall {schema : Schema} {call : AggregateCall}
    (hcheck : checkCall schema call = .ok ()) (hextreme : call.isRowExtreme = false) :
    call.Reads schema := by
  refine ⟨fun i hi => ?_, hextreme⟩
  unfold checkCall at hcheck
  rw [hi] at hcheck
  dsimp only at hcheck
  split at hcheck
  · simp at hcheck
  · next column hcolumn => exact (List.getElem?_eq_some_iff.mp hcolumn).1

theorem reads_of_groupBy {columns : List Nat} {calls : List (AggregateCall × Option String)}
    (hgroup : input.groupBy columns calls = .ok flow)
    (hextremes : ∀ call ∈ calls, call.1.isRowExtreme = false) :
    (∀ i ∈ columns, i < input.schema.length) ∧ ∀ call ∈ calls, call.1.Reads input.schema := by
  unfold groupBy at hgroup
  dsimp only at hgroup
  split at hgroup
  · simp at hgroup
  · split at hgroup
    · simp at hgroup
    · next hnone =>
      obtain ⟨⟨⟩, hcalls, -⟩ := Outcome.bind_eq_ok_iff.mp hgroup
      refine ⟨fun i hi => ?_, fun call hcall => ?_⟩
      · have hwide := List.find?_eq_none.mp hnone i hi
        simpa using hwide
      · exact reads_of_checkCall (Outcome.forM_eq_ok_iff.mp hcalls call hcall)
          (hextremes call hcall)

/-- What has been built over typed rows is well typed, if no aggregate asks for an extreme of whole
rows. -/
theorem Built.wellTyped (hflow : flow.Built) (hscans : flow.ScansTyped)
    (hextremes : flow.NoRowExtremes) : flow.WellTyped := by
  induction hflow with
  | ofRows schema rows => exact ⟨hscans, hscans⟩
  | whereHolds _ hflow ih =>
      obtain ⟨bound, rfl⟩ := exists_of_whereHolds hflow
      exact ih hscans hextremes
  | select _ hflow ih =>
      have hcolumns := lt_of_select hflow
      obtain rfl := eq_of_select hflow
      exact ⟨ih hscans hextremes, hcolumns⟩
  | distinctOn _ hflow ih =>
      obtain rfl := eq_of_distinctOn hflow
      exact ih hscans hextremes
  | sortBy _ hflow ih =>
      obtain rfl := eq_of_sortBy hflow
      exact ⟨ih hscans hextremes, List.forall_mem_nil _⟩
  | window _ _ _ ih => exact ih hscans hextremes
  | @groupBy input flow columns calls _ hflow ih =>
      have hform := eq_of_groupBy hflow
      subst hform
      -- no group has been collected yet, so only the calls are to be looked at
      obtain ⟨hinput, hcalls⟩ := hextremes
      rw [List.forall_mem_map] at hcalls
      obtain ⟨hcolumns, hreads⟩ := reads_of_groupBy hflow hcalls
      refine ⟨ih hscans hinput, hcolumns, ?_, List.forall_mem_nil _⟩
      rw [List.forall_mem_map, List.forall_mem_map]
      exact hreads
  | leftJoin _ _ hflow ihleft ihright =>
      obtain ⟨i, k, rfl⟩ := exists_of_leftJoin hflow
      -- the table of a join is filled when it is started, until then it finds nothing
      have hempty (key : Value) : MatchTable.empty.rowsOf key = [] := by
        simp [MatchTable.rowsOf, MatchTable.empty]
      refine ⟨ihleft hscans.1 hextremes.1, ihright hscans.2 hextremes.2, fun key => ?_,
        List.forall_mem_nil _⟩
      rw [hempty]
      exact List.forall_mem_nil _

/-! ## Answers -/

/-- A call keeps a flow well typed, and answers with a typed row if it answers with one. -/
theorem wellTyped_answer (hflow : flow.WellTyped) (signal : Signal) (call : Call) :
    (∀ row, (flow.answer signal call).1 = .ok (some row) → row.Typed flow.schema) ∧
      (flow.answer signal call).2.1.schema = flow.schema ∧
      (flow.answer signal call).2.1.WellTyped := by
  cases call with
  | next => exact wellTyped_nextWithin hflow _ signal
  | start =>
      have hstart := wellTyped_start hflow signal
      unfold answer
      dsimp only
      generalize flow.start signal = result at hstart
      obtain ⟨fault, next, after⟩ := result
      cases fault with
      | some fault => exact ⟨fun row hrow => by simp at hrow, hstart⟩
      | none => exact ⟨fun row hrow => by simp at hrow, hstart⟩

theorem WellTyped.typed_of_mem_answers (hflow : flow.WellTyped) {signal : Signal}
    {calls : List Call} {row : Row} (hrow : .ok (some row) ∈ flow.answers signal calls) :
    row.Typed flow.schema := by
  induction calls generalizing flow signal with
  | nil => simp [answers] at hrow
  | cons call calls ih =>
      have hanswer := wellTyped_answer hflow signal call
      rw [answers] at hrow
      generalize flow.answer signal call = result at hanswer hrow
      obtain ⟨answer, next, after⟩ := result
      obtain ⟨htyped, hschema, hnext⟩ := hanswer
      rcases List.mem_cons.mp hrow with hnow | hlater
      · exact htyped row hnow.symm
      · exact hschema ▸ ih hnext hlater

/-- All rows that a flow answers with are typed for its columns: whenever it is started and asked
for rows, and whenever it is cancelled. -/
theorem typed_of_answers (hflow : flow.Built) (hscans : flow.ScansTyped)
    (hextremes : flow.NoRowExtremes) (signal : Signal) (calls : List Call) {row : Row}
    (hrow : .ok (some row) ∈ flow.answers signal calls) : row.Typed flow.schema :=
  (hflow.wellTyped hscans hextremes).typed_of_mem_answers hrow

/-- The number of books of each author and the greatest title, authors without books being counted
with nulls. -/
theorem typed_of_answers_books :
    ∃ joined grouped : Flow,
      (ofRows [⟨"name", .text⟩, ⟨"id", .int32⟩]
          [[.text "Borges", .int32 1], [.text "Eco", .int32 2]]).leftJoin
        (ofRows [⟨"title", .text⟩, ⟨"author", .int32⟩]
          [[.text "Ficciones", .int32 1], [.text "El Aleph", .int32 1]]) "id" "author" =
            .ok joined ∧
        joined.groupBy [0] [(⟨.count, some 2⟩, none), (⟨.max, some 2⟩, some "last")] = .ok grouped ∧
        .ok (some [.text "Eco", .int64 0, .null]) ∈ grouped.answers .never [.start, .next, .next] ∧
        Row.Typed grouped.schema [.text "Eco", .int64 0, .null] := by
  obtain ⟨joined, grouped, hjoined, hgrouped, hscans, hextremes, hrow⟩ : ∃ joined grouped : Flow,
      (ofRows [⟨"name", .text⟩, ⟨"id", .int32⟩]
          [[.text "Borges", .int32 1], [.text "Eco", .int32 2]]).leftJoin
        (ofRows [⟨"title", .text⟩, ⟨"author", .int32⟩]
          [[.text "Ficciones", .int32 1], [.text "El Aleph", .int32 1]]) "id" "author" =
            .ok joined ∧
        joined.groupBy [0] [(⟨.count, some 2⟩, none), (⟨.max, some 2⟩, some "last")] = .ok grouped ∧
        grouped.ScansTyped ∧ grouped.NoRowExtremes ∧
        .ok (some [.text "Eco", .int64 0, .null]) ∈
          grouped.answers .never [.start, .next, .next] := by
    refine ⟨_, _, rfl, rfl, ?_, ?_, ?_⟩
    · simp [ScansTyped, ofRows, Row.Typed, Value.hasType, Value.isNull, Value.type?]
    · simp [NoRowExtremes, ofRows, AggregateCall.isRowExtreme]
    · exact List.mem_of_getElem? (i := 2) rfl
  have hbuilt : grouped.Built := .groupBy (.leftJoin (.ofRows _ _) (.ofRows _ _) hjoined) hgrouped
  exact ⟨joined, grouped, hjoined, hgrouped, hrow,
    typed_of_answers hbuilt hscans hextremes .never _ hrow⟩

/-- The least of whole rows is accepted, and its value is not of the type that is declared for
it. -/
theorem min_of_rows_untyped :
    ∃ flow : Flow,
      (ofRows [⟨"id", .int64⟩] [[.int64 1]]).groupBy [] [(⟨.min, none⟩, none)] = .ok flow ∧
      flow.Built ∧ flow.ScansTyped ∧
      .ok (some [.boolean true]) ∈ flow.answers .never [.start, .next] ∧
      ¬ Row.Typed flow.schema [.boolean true] := by
  have hflow : (ofRows [⟨"id", .int64⟩] [[.int64 1]]).groupBy [] [(⟨.min, none⟩, none)] = .ok _ :=
    rfl
  refine ⟨_, hflow, .groupBy (.ofRows _ _) hflow, ?_, List.mem_of_getElem? (i := 1) rfl, ?_⟩
  · simp [ScansTyped, ofRows, Row.Typed, Value.hasType, Value.isNull, Value.type?]
  · -- the column is declared to hold whole numbers
    change ¬ Row.Typed [⟨"min(*)", .int64⟩] _
    simp [Row.Typed, Value.hasType, Value.isNull, Value.type?]

end Flow

end EntityQuery
