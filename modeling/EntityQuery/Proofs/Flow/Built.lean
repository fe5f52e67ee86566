import EntityQuery.Flow.Pull
import EntityQuery.Proofs.Outcome

/-!
# Flows that are built

A stage is put on a flow after the columns that it names have been checked.  What comes of that has
one form for each kind of stage, and nothing has been remembered in it yet.  Such flows answer only
after they have been started, and a stage that has been started stays so.

## Main definitions

* `Flow.Built` : a flow of scans and stages on them that has not been started
* `Flow.isStage` : a flow that is more than a scan
* `Flow.isStarted` : a flow that may be asked for rows

## Main statements

* `eq_of_select`, `eq_of_distinctOn`, `eq_of_sortBy`, `eq_of_groupBy`, `exists_of_whereHolds`,
  `exists_of_leftJoin` : the form of a stage that has been put on a flow
* `Built.isStarted_eq` : what has been built has not been started
* `start_of_isStarted`, `step_of_not_isStarted` : starting a stage again does nothing, and a stage
  that has not been started has no rows
-/

namespace EntityQuery.Flow

variable {input left right flow next : Flow} {signal after : Signal}

/-! ## Stages that have been put on a flow -/

theorem exists_of_whereHolds {predicate : Expr} (hfilter : input.whereHolds predicate = .ok flow) :
    ∃ bound, flow = .filter input bound false := by
  obtain ⟨bound, -, hfilter⟩ := Outcome.bind_eq_ok_iff.mp hfilter
  obtain ⟨-, -, hfilter⟩ := Outcome.bind_eq_ok_iff.mp hfilter
  exact ⟨bound, (Except.ok.inj hfilter).symm⟩

theorem eq_of_select {columns : List (Nat × String)} (hselect : input.select columns = .ok flow) :
    flow = .project input columns false := by
  unfold select at hselect
  dsimp only at hselect
  split at hselect
  · simp at hselect
  · exact (Except.ok.inj hselect).symm

theorem eq_of_distinctOn {columns : List Nat} (hdistinct : input.distinctOn columns = .ok flow) :
    flow = .distinct input columns [] false := by
  unfold distinctOn at hdistinct
  split at hdistinct
  · simp at hdistinct
  · exact (Except.ok.inj hdistinct).symm

theorem eq_of_sortBy {keys : List SortKey} (hsort : input.sortBy keys = .ok flow) :
    flow = .sort input keys [] false := by
  unfold sortBy at hsort
  dsimp only at hsort
  split at hsort
  · simp at hsort
  · exact (Except.ok.inj hsort).symm

theorem eq_of_groupBy {columns : List Nat} {calls : List (AggregateCall × Option String)}
    (hgroup : input.groupBy columns calls = .ok flow) :
    flow = .aggregate input columns
      (calls.map fun call => (call.1, call.2.getD (callName input.schema call.1)))
        [] false false := by
  unfold groupBy at hgroup
  dsimp only at hgroup
  split at hgroup
  · simp at hgroup
  · split at hgroup
    · simp at hgroup
    · obtain ⟨-, -, hgroup⟩ := Outcome.bind_eq_ok_iff.mp hgroup
      exact (Except.ok.inj hgroup).symm

theorem exists_of_leftJoin {leftKey rightKey : String}
    (hjoin : left.leftJoin right leftKey rightKey = .ok flow) :
    ∃ i k, flow = .join left right i k .empty [] false := by
  unfold leftJoin at hjoin
  split at hjoin
  · simp at hjoin
  · simp at hjoin
  · next i k _ _ =>
    split at hjoin
    · split at hjoin
      · exact ⟨i, k, (Except.ok.inj hjoin).symm⟩
      · simp at hjoin
    · simp at hjoin

/-! ## Flows of scans and stages -/

/-- A flow of scans and stages on them that has not been started. -/
inductive Built : Flow → Prop
  | ofRows (schema : Schema) (rows : List Row) : Built (ofRows schema rows)
  | whereHolds {input flow : Flow} {predicate : Expr} (hinput : Built input)
      (hflow : input.whereHolds predicate = .ok flow) : Built flow
  | select {input flow : Flow} {columns : List (Nat × String)} (hinput : Built input)
      (hflow : input.select columns = .ok flow) : Built flow
  | distinctOn {input flow : Flow} {columns : List Nat} (hinput : Built input)
      (hflow : input.distinctOn columns = .ok flow) : Built flow
  | sortBy {input flow : Flow} {keys : List SortKey} (hinput : Built input)
      (hflow : input.sortBy keys = .ok flow) : Built flow
  | window {input : Flow} (hinput : Built input) (offset : Nat) (most : Option Nat) :
      Built (input.window offset most)
  | groupBy {input flow : Flow} {columns : List Nat} {calls : List (AggregateCall × Option String)}
      (hinput : Built input) (hflow : input.groupBy columns calls = .ok flow) : Built flow
  | leftJoin {left right flow : Flow} {leftKey rightKey : String} (hleft : Built left)
      (hright : Built right) (hflow : left.leftJoin right leftKey rightKey = .ok flow) : Built flow

/-- The flow is more than a scan. -/
def isStage : Flow → Bool
  | .scan .. => false
  | _ => true

/-- The flow has been started. -/
def isStarted : Flow → Bool
  | .scan _ _ _ started | .filter _ _ started | .project _ _ started
  | .distinct _ _ _ started | .sort _ _ _ started | .limit _ _ _ _ _ started
  | .aggregate _ _ _ _ _ started | .join _ _ _ _ _ _ started => started

theorem Built.isStarted_eq (hflow : flow.Built) : flow.isStarted = false := by
  cases hflow with
  | ofRows | window => rfl
  | whereHolds _ hflow =>
      obtain ⟨bound, rfl⟩ := exists_of_whereHolds hflow
      rfl
  | select _ hflow =>
      obtain rfl := eq_of_select hflow
      rfl
  | distinctOn _ hflow =>
      obtain rfl := eq_of_distinctOn hflow
      rfl
  | sortBy _ hflow =>
      obtain rfl := eq_of_sortBy hflow
      rfl
  | groupBy _ hflow =>
      obtain rfl := eq_of_groupBy hflow
      rfl
  | leftJoin _ _ hflow =>
      obtain ⟨i, k, rfl⟩ := exists_of_leftJoin hflow
      rfl

/-! ## Started stages -/

theorem step_of_not_isStarted (hflow : flow.isStarted = false) (signal : Signal) :
    flow.step signal = (.fault .notStarted, flow, signal) := by
  cases flow <;> simp_all [isStarted, step]

/-- Starting a stage again does nothing. -/
theorem start_of_isStarted (hstage : flow.isStage = true) (hstarted : flow.isStarted = true)
    (signal : Signal) : flow.start signal = (none, flow, signal) := by
  cases flow <;> simp_all [isStage, isStarted, start]

theorem isStage_step (flow : Flow) (signal : Signal) :
    (flow.step signal).2.1.isStage = flow.isStage := by
  cases flow <;> simp only [step] <;> repeat' split
  all_goals rfl

theorem isStarted_step (flow : Flow) (signal : Signal) :
    (flow.step signal).2.1.isStarted = flow.isStarted := by
  cases flow <;> simp only [step] <;> repeat' split
  all_goals rfl

theorem isStage_start (flow : Flow) (signal : Signal) :
    (flow.start signal).2.1.isStage = flow.isStage := by
  cases flow <;> unfold start <;> repeat' split
  all_goals rfl

theorem isStarted_start (flow : Flow) (signal : Signal) :
    (flow.start signal).2.1.isStarted = (flow.start signal).1.isNone := by
  cases flow <;> unfold start <;> repeat' split
  all_goals simp_all [isStarted]

end EntityQuery.Flow
