import EntityQuery.Flow.Pull
import EntityQuery.Proofs.Flow.Rows

/-!
# What a flow yields

A flow is pulled step by step, and each stage keeps what it has to remember.  Seen from outside, a
flow that is never cancelled yields some rows and then ends, or fails.  `Flow.Yields` describes that
for a flow that has been started, by the steps that it takes; `Flow.Runs` describes a flow that is
yet to be started.

## Strategy

Every step that yields a row or has to go on makes `Flow.work` smaller.  So the bound on the number
of steps with which a flow is drained is never reached, and draining a flow gives what it yields.

What a stage yields is then proved by induction on what its input yields, one case for each result
of a step.  No proof about a stage looks at the stages below it.

## Main definitions

* `Flow.Yields` : the rows that a started flow yields, and the fault that ends them
* `Flow.Runs` : the rows of a flow that is started first

## Main statements

* `work_step_lt` : steps use up work
* `drain_of_yields`, `run_of_runs` : draining and running a flow give what it yields
-/

namespace EntityQuery

/-- The flow may yield more after the step. -/
def Step.goesOn : Step → Bool
  | .again | .row _ => true
  | .done | .fault _ => false

namespace MatchTable

theorem length_rowsOf_le (table : MatchTable) (key : Value) :
    (table.rowsOf key).length ≤ table.size := by
  have hbucket : ∀ buckets : List (Value × List Row), ∀ bucket ∈ buckets,
      bucket.2.length ≤ buckets.foldr (fun other total => other.2.length + total) 0 := by
    intro buckets
    induction buckets with
    | nil => simp
    | cons first buckets ih =>
        rw [List.forall_mem_cons, List.foldr_cons]
        refine ⟨Nat.le_add_right _ _, fun bucket hbucket => ?_⟩
        exact Nat.le_trans (ih bucket hbucket) (Nat.le_add_left _ _)
  unfold rowsOf
  split
  · exact Nat.zero_le _
  · split
    · next found hfound => exact hbucket table.buckets _ (List.mem_of_find?_eq_some hfound)
    · exact Nat.zero_le _

end MatchTable

namespace Flow

/-! ## Steps -/

theorem length_joined_le (width : Nat) (left : Row) (rights : List Row) :
    (joined width left rights).length ≤ rights.length + 1 := by
  unfold joined
  split <;> simp

theorem length_completed_le (columns : List Nat) (calls : List (AggregateCall × String))
    (groups : List Group) : (completed columns calls groups).length ≤ groups.length + 1 := by
  unfold completed
  split <;> simp

theorem length_addRow_le (calls : List AggregateCall) (key : Key) (row : Row)
    (groups : List Group) : (Group.addRow calls key row groups).1.length ≤ groups.length + 1 := by
  induction groups with
  | nil => simp [Group.addRow]
  | cons group groups ih =>
      rw [Group.addRow]
      split
      · simp
      · simpa using ih

theorem work_step_limit_lt {input : Flow} {most : Option Nat} {offset skipped returned : Nat}
    {started : Bool} {signal : Signal}
    (hinput : (input.step signal).1.goesOn = true → (input.step signal).2.1.work < input.work)
    (hstep : ((limit input most offset skipped returned started).step signal).1.goesOn = true) :
    ((limit input most offset skipped returned started).step signal).2.1.work <
      (limit input most offset skipped returned started).work := by
  unfold step at hstep ⊢
  generalize input.step signal = result at hinput hstep ⊢
  obtain ⟨result, next, signal'⟩ := result
  cases started with
  | false => simp [Step.goesOn] at hstep
  | true =>
      simp only [Bool.not_true, Bool.false_eq_true, if_false] at hstep ⊢
      split at hstep
      · simp [Step.goesOn] at hstep
      · next hmost =>
        rw [if_neg hmost]
        cases result with
        | row row => dsimp only at hstep ⊢; split <;> exact hinput rfl
        | _ => simp_all [Step.goesOn, work]

theorem work_step_aggregate_lt {input : Flow} {columns : List Nat}
    {calls : List (AggregateCall × String)} {groups : List Group} {complete started : Bool}
    {signal : Signal}
    (hinput : (input.step signal).1.goesOn = true → (input.step signal).2.1.work < input.work)
    (hstep : ((aggregate input columns calls groups complete started).step signal).1.goesOn =
      true) :
    ((aggregate input columns calls groups complete started).step signal).2.1.work <
      (aggregate input columns calls groups complete started).work := by
  unfold step at hstep ⊢
  generalize input.step signal = result at hinput hstep ⊢
  obtain ⟨result, next, signal'⟩ := result
  cases started with
  | false => simp [Step.goesOn] at hstep
  | true =>
      cases complete with
      | true => cases groups <;> simp_all [Step.goesOn, work]
      | false =>
          simp only [Bool.not_true, Bool.false_eq_true, if_false] at hstep ⊢
          cases result with
          | again =>
              have := hinput rfl
              simp only [work, Bool.false_eq_true, if_false] at this ⊢
              omega
          | row row =>
              -- a row may open a group, which the work of the row pays for
              have := length_addRow_le (calls.map (·.1)) (row.keyOf columns) row groups
              have := hinput rfl
              simp only [work, Bool.false_eq_true, if_false] at this ⊢
              omega
          | done =>
              -- without columns to group by there is one group even of no rows
              have := length_completed_le columns calls groups
              simp only [work, Bool.false_eq_true, if_true, if_false]
              omega
          | fault e => simp [Step.goesOn] at hstep

/-- A step of a join uses up work if one of its left side does: a row of the left side makes at most
as many rows as the table has, and one more. -/
theorem work_step_join_lt {left right : Flow} {leftKey rightKey : Nat} {table : MatchTable}
    {ready : List Row} {started : Bool} {signal : Signal}
    (hleft : (left.step signal).1.goesOn = true → (left.step signal).2.1.work < left.work)
    (hstep : ((join left right leftKey rightKey table ready started).step signal).1.goesOn = true) :
    ((join left right leftKey rightKey table ready started).step signal).2.1.work <
      (join left right leftKey rightKey table ready started).work := by
  unfold step at hstep ⊢
  generalize left.step signal = result at hleft hstep ⊢
  obtain ⟨result, next, signal'⟩ := result
  cases started with
  | false => simp [Step.goesOn] at hstep
  | true =>
      cases ready with
      | cons row rest => simp [work]
      | nil =>
          simp only [Bool.not_true, Bool.false_eq_true, if_false] at hstep ⊢
          cases result with
          | again =>
              have hlt : next.work + 1 ≤ left.work := hleft rfl
              -- the row that is used up pays for itself and for all rows that it makes
              have := Nat.mul_le_mul_right (table.size + 2) hlt
              rw [Nat.succ_mul] at this
              simp only [work, List.length_nil]
              omega
          | row row =>
              have :=
                length_joined_le right.schema.length row (table.rowsOf (row.getD leftKey .null))
              have := table.length_rowsOf_le (row.getD leftKey .null)
              have hlt : next.work + 1 ≤ left.work := hleft rfl
              have := Nat.mul_le_mul_right (table.size + 2) hlt
              rw [Nat.succ_mul] at this
              simp only [work, List.length_nil]
              omega
          | done => simp [Step.goesOn] at hstep
          | fault e => simp [Step.goesOn] at hstep

/-- Steps use up work. -/
theorem work_step_lt (flow : Flow) (signal : Signal) (hstep : (flow.step signal).1.goesOn = true) :
    (flow.step signal).2.1.work < flow.work := by
  -- on the stages: a step that goes on is one of the input, or hands out what is in store
  induction flow generalizing signal with
  | scan schema rows unread started =>
      unfold step at hstep ⊢
      cases started with
      | false => simp [Step.goesOn] at hstep
      | true =>
          simp only [Bool.not_true, Bool.false_eq_true, if_false] at hstep ⊢
          cases hset : signal.isSet with
          | true => simp [hset, Step.goesOn] at hstep
          | false => cases unread <;> simp_all [Step.goesOn, work]
  | filter input predicate started ih =>
      have hinput := ih signal
      unfold step at hstep ⊢
      generalize input.step signal = result at hinput hstep ⊢
      obtain ⟨result, next, signal'⟩ := result
      cases started with
      | false => simp [Step.goesOn] at hstep
      | true => cases result <;> simp_all [Step.goesOn, work]
  | project input columns started ih =>
      have hinput := ih signal
      unfold step at hstep ⊢
      generalize input.step signal = result at hinput hstep ⊢
      obtain ⟨result, next, signal'⟩ := result
      cases started with
      | false => simp [Step.goesOn] at hstep
      | true => cases result <;> simp_all [Step.goesOn, work]
  | distinct input columns seen started ih =>
      have hinput := ih signal
      unfold step at hstep ⊢
      generalize input.step signal = result at hinput hstep ⊢
      obtain ⟨result, next, signal'⟩ := result
      cases started with
      | false => simp [Step.goesOn] at hstep
      | true =>
          cases result with
          | row row =>
              -- whether the row goes on or is left out, its input has moved
              simp only [Bool.not_true, Bool.false_eq_true, if_false] at hstep ⊢
              have hlt : next.work < input.work := hinput rfl
              repeat' split
              all_goals exact hlt
          | _ => simp_all [Step.goesOn, work]
  | sort input keys unread started ih =>
      unfold step at hstep ⊢
      cases started <;> cases unread <;> simp_all [Step.goesOn, work]
  | limit input most offset skipped returned started ih =>
      exact work_step_limit_lt (ih signal) hstep
  | aggregate input columns calls groups complete started ih =>
      exact work_step_aggregate_lt (ih signal) hstep
  | join left right leftKey rightKey table ready started ihleft ihright =>
      exact work_step_join_lt (ihleft signal) hstep

/-- A step leaves the schema as it is. -/
@[simp] theorem schema_step (flow : Flow) (signal : Signal) :
    (flow.step signal).2.1.schema = flow.schema := by
  -- no step touches the columns of a stage, only its input and what is in store
  induction flow generalizing signal with
  | scan schema rows unread started =>
      unfold step
      cases started <;> cases signal.isSet <;> cases unread <;> simp [Flow.schema]
  | filter input predicate started ih =>
      have hinput := ih signal
      unfold step
      cases started <;> simp [Flow.schema, hinput]
  | project input columns started ih =>
      have hinput := ih signal
      unfold step
      cases started <;> simp [Flow.schema, hinput]
  | distinct input columns seen started ih =>
      have hinput := ih signal
      unfold step
      generalize input.step signal = result at hinput
      obtain ⟨result, next, signal'⟩ := result
      cases started with
      | false => rfl
      | true =>
          simp only [Bool.not_true, Bool.false_eq_true, if_false]
          cases result with
          | row row =>
              dsimp only
              repeat' split
              all_goals exact hinput
          | _ => exact hinput
  | sort input keys unread started ih =>
      unfold step
      cases started <;> cases unread <;> simp [Flow.schema]
  | limit input most offset skipped returned started ih =>
      have hinput := ih signal
      unfold step
      generalize input.step signal = result at hinput
      obtain ⟨result, next, signal'⟩ := result
      cases started with
      | false => simp
      | true =>
          simp only [Bool.not_true, Bool.false_eq_true, if_false]
          split
          · rfl
          · cases result with
            | row row => dsimp only; split <;> exact hinput
            | _ => exact hinput
  | aggregate input columns calls groups complete started ih =>
      have hinput := ih signal
      unfold step
      generalize input.step signal = result at hinput
      obtain ⟨result, next, signal'⟩ := result
      cases started <;> cases complete <;> cases groups <;> cases result <;> simp_all [Flow.schema]
  | join left right leftKey rightKey table ready started ihleft ihright =>
      have hleft := ihleft signal
      unfold step
      generalize left.step signal = result at hleft
      obtain ⟨result, next, signal'⟩ := result
      cases started <;> cases ready <;> cases result <;> simp_all [Flow.schema]

/-! ## Yielding -/

/-- A started flow that is never cancelled yields some rows, and then a fault or nothing more. -/
inductive Yields : Flow → List Row → Option FlowFault → Prop
  | done {flow next : Flow} (hstep : flow.step .never = (.done, next, .never)) : Yields flow [] none
  | fault {flow next : Flow} {e : FlowFault} (hstep : flow.step .never = (.fault e, next, .never)) :
      Yields flow [] (some e)
  | again {flow next : Flow} {rows : List Row} {e : Option FlowFault}
      (hstep : flow.step .never = (.again, next, .never)) (hnext : Yields next rows e) :
      Yields flow rows e
  | row {flow next : Flow} {row : Row} {rows : List Row} {e : Option FlowFault}
      (hstep : flow.step .never = (.row row, next, .never)) (hnext : Yields next rows e) :
      Yields flow (row :: rows) e

theorem drainWithin_of_yields {flow : Flow} {rows : List Row} {e : Option FlowFault}
    (hflow : Yields flow rows e) {steps : Nat} (hsteps : flow.work < steps) (before : List Row) :
    ∃ last, drainWithin steps before flow .never = (before.reverse ++ rows, e, last, .never) ∧
      last.schema = flow.schema := by
  -- on the way in which the rows come; every step leaves less work than steps
  induction hflow generalizing steps before with
  | @done flow next hstep =>
      obtain ⟨steps, rfl⟩ := Nat.exists_eq_add_one.mpr (Nat.zero_lt_of_lt hsteps)
      refine ⟨next, by simp [drainWithin, hstep], ?_⟩
      rw [← schema_step flow .never, hstep]
  | @fault flow next e hstep =>
      obtain ⟨steps, rfl⟩ := Nat.exists_eq_add_one.mpr (Nat.zero_lt_of_lt hsteps)
      refine ⟨next, by simp [drainWithin, hstep], ?_⟩
      rw [← schema_step flow .never, hstep]
  | @again flow next rows e hstep _ ih =>
      obtain ⟨steps, rfl⟩ := Nat.exists_eq_add_one.mpr (Nat.zero_lt_of_lt hsteps)
      have hwork := work_step_lt flow .never (by rw [hstep]; rfl)
      have hschema := schema_step flow .never
      rw [hstep] at hwork hschema
      have hless : next.work < steps := Nat.lt_of_lt_of_le hwork (Nat.le_of_lt_succ hsteps)
      obtain ⟨last, hdrain, hlast⟩ := ih hless before
      exact ⟨last, by simp [drainWithin, hstep, hdrain], hlast.trans hschema⟩
  | @row flow next row rows e hstep _ ih =>
      obtain ⟨steps, rfl⟩ := Nat.exists_eq_add_one.mpr (Nat.zero_lt_of_lt hsteps)
      have hwork := work_step_lt flow .never (by rw [hstep]; rfl)
      have hschema := schema_step flow .never
      rw [hstep] at hwork hschema
      have hless : next.work < steps := Nat.lt_of_lt_of_le hwork (Nat.le_of_lt_succ hsteps)
      obtain ⟨last, hdrain, hlast⟩ := ih hless (row :: before)
      exact ⟨last, by simp [drainWithin, hstep, hdrain], hlast.trans hschema⟩

/-- Draining a flow gives what it yields. -/
theorem drain_of_yields {flow : Flow} {rows : List Row} {e : Option FlowFault}
    (hflow : Yields flow rows e) :
    ∃ last, flow.drain .never = (rows, e, last, .never) ∧ last.schema = flow.schema :=
  drainWithin_of_yields hflow (Nat.lt_succ_self _) []

/-- A flow that is started and never cancelled yields some rows, and then a fault or nothing more; a
fault may come before the first row. -/
inductive Runs (flow : Flow) : List Row → Option FlowFault → Prop
  | started {next : Flow} {rows : List Row} {e : Option FlowFault}
      (hstart : flow.start .never = (none, next, .never)) (hschema : next.schema = flow.schema)
      (hnext : Yields next rows e) : Runs flow rows e
  | failed {next : Flow} {e : FlowFault} (hstart : flow.start .never = (some e, next, .never)) :
      Runs flow [] (some e)

theorem run_of_runs {flow : Flow} {rows : List Row} {e : Option FlowFault}
    (hflow : Runs flow rows e) : ∃ last, flow.run .never = (rows, e, last, .never) := by
  unfold run
  cases hflow with
  | started hstart _ hnext =>
      obtain ⟨last, hdrain, -⟩ := drain_of_yields hnext
      exact ⟨last, by rw [hstart]; exact hdrain⟩
  | @failed next e hstart => exact ⟨next, by rw [hstart]⟩

theorem Runs.exists_yields {flow : Flow} {rows : List Row} (hflow : Runs flow rows none) :
    ∃ next, flow.start .never = (none, next, .never) ∧ next.schema = flow.schema ∧
      Yields next rows none := by
  cases hflow with
  | started hstart hschema hnext => exact ⟨_, hstart, hschema, hnext⟩

end Flow

end EntityQuery
