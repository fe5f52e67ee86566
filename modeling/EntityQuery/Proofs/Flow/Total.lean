import EntityQuery.Proofs.Flow.Yield

/-!
# Every flow runs

Draining a flow always ends, so every flow runs: it yields some rows, and then a fault or nothing
more.  What it yields is determined by the flow alone.

A signal can do no more than cut a run short.  A step that finds the signal set fails, and every
stage passes that failure on; any other step is the one that is made when the signal is never set.
So a run that ends without a fault has read all rows, whatever the signal.

The statements about steps and about starting a flow are by induction on the flow, those about
draining by induction on the number of steps.

## Main statements

* `exists_runs`, `Runs.unique` : every flow yields some rows, which are determined by it
* `runs_of_run` : a run that ends without a fault is that of a flow which is never cancelled
-/

namespace EntityQuery.Flow

variable {flow next last : Flow} {rows others : List Row} {e f : Option FlowFault}
  {signal after : Signal}

/-! ## Steps -/

/-- A signal that is never set stays so. -/
@[simp] theorem signal_step_never (flow : Flow) : (flow.step .never).2.2 = .never := by
  -- only a scan asks the signal, all other stages hand it on from their input
  induction flow with
  | scan schema rows unread started => cases started <;> cases unread <;> simp [step]
  | filter input predicate started ih => cases started <;> simp [step, ih]
  | project input columns started ih => cases started <;> simp [step, ih]
  | distinct input columns seen started ih =>
      unfold step
      generalize input.step .never = result at ih ⊢
      obtain ⟨result, next, signal⟩ := result
      cases started with
      | false => rfl
      | true =>
          simp only [Bool.not_true, Bool.false_eq_true, if_false]
          cases result with
          | row row =>
              dsimp only
              repeat' split
              all_goals exact ih
          | _ => exact ih
  | sort input keys unread started ih => cases started <;> cases unread <;> simp [step]
  | limit input most offset skipped returned started ih =>
      unfold step
      generalize input.step .never = result at ih ⊢
      obtain ⟨result, next, signal⟩ := result
      cases started with
      | false => rfl
      | true =>
          simp only [Bool.not_true, Bool.false_eq_true, if_false]
          split
          · rfl
          · cases result with
            | row row => dsimp only; split <;> exact ih
            | _ => exact ih
  | aggregate input columns calls groups complete started ih =>
      unfold step
      generalize input.step .never = result at ih ⊢
      obtain ⟨result, next, signal⟩ := result
      cases started <;> cases complete <;> cases groups <;> cases result <;> simp_all
  | join left right leftKey rightKey table ready started ihleft ihright =>
      unfold step
      generalize left.step .never = result at ihleft ⊢
      obtain ⟨result, next, signal⟩ := result
      cases started <;> cases ready <;> cases result <;> simp_all

/-- A step fails for the signal, or is the one that is made when the signal is never set. -/
theorem step_of_signal (flow : Flow) (signal : Signal) :
    (flow.step signal).1 = .fault .cancelled ∨
      ((flow.step signal).1 = (flow.step .never).1 ∧
        (flow.step signal).2.1 = (flow.step .never).2.1) := by
  -- on the stages: either the step of the input fails for the signal, and so does this one, or both
  -- make the same step, and go on with the same result
  induction flow with
  | scan schema rows unread started =>
      cases started with
      | false => simp [step]
      | true => cases hset : signal.isSet <;> cases unread <;> simp [step, hset]
  | filter input predicate started ih | project input columns started ih =>
      cases started with
      | false => exact .inr ⟨rfl, rfl⟩
      | true => rcases ih with h | ⟨h, hnext⟩ <;> simp [step, *]
  | distinct input columns seen started ih =>
      unfold step
      generalize input.step signal = result, input.step .never = other at ih ⊢
      obtain ⟨⟨result, next, after⟩, other, next', after'⟩ := result, other
      cases started with
      | false => exact .inr ⟨rfl, rfl⟩
      | true =>
          obtain rfl | ⟨rfl, rfl⟩ := ih
          · exact .inl rfl
          · refine .inr ?_
            simp only [Bool.not_true, Bool.false_eq_true, if_false]
            cases result with
            | row row =>
                dsimp only
                repeat' split
                all_goals exact ⟨rfl, rfl⟩
            | _ => exact ⟨rfl, rfl⟩
  | sort input keys unread started ih => cases started <;> cases unread <;> simp [step]
  | limit input most offset skipped returned started ih =>
      unfold step
      generalize input.step signal = result, input.step .never = other at ih ⊢
      obtain ⟨⟨result, next, after⟩, other, next', after'⟩ := result, other
      cases started with
      | false => exact .inr ⟨rfl, rfl⟩
      | true =>
          simp only [Bool.not_true, Bool.false_eq_true, if_false]
          split
          · exact .inr ⟨rfl, rfl⟩
          · obtain rfl | ⟨rfl, rfl⟩ := ih
            · exact .inl rfl
            · refine .inr ?_
              cases result with
              | row row =>
                  dsimp only
                  split <;> exact ⟨rfl, rfl⟩
              | _ => exact ⟨rfl, rfl⟩
  | aggregate input columns calls groups complete started ih =>
      unfold step
      generalize input.step signal = result, input.step .never = other at ih ⊢
      obtain ⟨⟨result, next, after⟩, other, next', after'⟩ := result, other
      cases started with
      | false => exact .inr ⟨rfl, rfl⟩
      | true =>
          cases complete with
          | true => cases groups <;> exact .inr ⟨rfl, rfl⟩
          | false =>
              obtain rfl | ⟨rfl, rfl⟩ := ih
              · exact .inl rfl
              · cases result <;> exact .inr ⟨rfl, rfl⟩
  | join left right leftKey rightKey table ready started ih _ =>
      unfold step
      generalize left.step signal = result, left.step .never = other at ih ⊢
      obtain ⟨⟨result, next, after⟩, other, next', after'⟩ := result, other
      cases started with
      | false => exact .inr ⟨rfl, rfl⟩
      | true =>
          cases ready with
          | cons row ready => exact .inr ⟨rfl, rfl⟩
          | nil =>
              obtain rfl | ⟨rfl, rfl⟩ := ih
              · exact .inl rfl
              · cases result <;> exact .inr ⟨rfl, rfl⟩

/-! ## Draining -/

/-- Every started flow yields some rows, and then a fault or nothing more. -/
theorem exists_yields (flow : Flow) : ∃ rows e, Yields flow rows e := by
  induction hwork : flow.work using Nat.strongRecOn generalizing flow with
  | _ work ih =>
      subst hwork
      have hlt := work_step_lt flow .never
      have hnever := signal_step_never flow
      generalize hstep : flow.step .never = result at hlt hnever
      obtain ⟨result, next, signal⟩ := result
      obtain rfl : signal = .never := hnever
      cases result with
      | again =>
          obtain ⟨rows, e, hnext⟩ := ih _ (hlt rfl) next rfl
          exact ⟨rows, e, .again hstep hnext⟩
      | row row =>
          obtain ⟨rows, e, hnext⟩ := ih _ (hlt rfl) next rfl
          exact ⟨row :: rows, e, .row hstep hnext⟩
      | done => exact ⟨[], none, .done hstep⟩
      | fault e => exact ⟨[], some e, .fault hstep⟩

/-- Draining a flow fails for the signal, or gives what it would if the signal were never set. -/
theorem drainWithin_of_signal (steps : Nat) (before : List Row) (flow : Flow) (signal : Signal) :
    (∃ rows last after, drainWithin steps before flow signal =
      (rows, some .cancelled, last, after)) ∨
      ∃ after, drainWithin steps before flow signal =
        ((drainWithin steps before flow .never).1, (drainWithin steps before flow .never).2.1,
          (drainWithin steps before flow .never).2.2.1, after) := by
  induction steps generalizing before flow signal with
  | zero => exact .inr ⟨signal, rfl⟩
  | succ steps ih =>
      have hsame := step_of_signal flow signal
      have hnever := signal_step_never flow
      unfold drainWithin
      generalize flow.step signal = result, flow.step .never = other at hsame hnever ⊢
      obtain ⟨⟨result, next, after⟩, other, next', after'⟩ := result, other
      obtain rfl : after' = .never := hnever
      obtain rfl | ⟨rfl, rfl⟩ := hsame
      · exact .inl ⟨before.reverse, next, after, rfl⟩
      · cases result with
        | again => exact ih before next after
        | row row => exact ih (row :: before) next after
        | done => exact .inr ⟨after, rfl⟩
        | fault e => exact .inr ⟨after, rfl⟩

theorem exists_drain (flow : Flow) :
    ∃ rows e last, flow.drain .never = (rows, e, last, .never) ∧ last.schema = flow.schema := by
  obtain ⟨rows, e, hflow⟩ := exists_yields flow
  obtain ⟨last, hdrain, hschema⟩ := drain_of_yields hflow
  exact ⟨rows, e, last, hdrain, hschema⟩

/-! ## Starting -/

/-- Starting a flow leaves its schema as it is.  It fails for the signal, or gives what it would if
the signal were never set. -/
structure Starts (flow : Flow) (fault : Option FlowFault) (next : Flow) : Prop where
  never : flow.start .never = (fault, next, .never)
  schema : next.schema = flow.schema
  signal : ∀ signal, (∃ last after, flow.start signal = (some .cancelled, last, after)) ∨
    ∃ after, flow.start signal = (fault, next, after)

/-- So does a run that starts so. -/
theorem Starts.exists_run {fault : Option FlowFault} (hflow : flow.Starts fault next) :
    ∃ rows e last, flow.run .never = (rows, e, last, .never) ∧ last.schema = flow.schema ∧
      ∀ signal, (∃ rows last after, flow.run signal = (rows, some .cancelled, last, after)) ∨
        ∃ after, flow.run signal = (rows, e, last, after) := by
  cases fault with
  | some fault =>
      refine ⟨[], some fault, next, by rw [run, hflow.never], hflow.schema, fun signal => ?_⟩
      rcases hflow.signal signal with ⟨last, after, h⟩ | ⟨after, h⟩
      · exact .inl ⟨[], last, after, by rw [run, h]⟩
      · exact .inr ⟨after, by rw [run, h]⟩
  | none =>
      obtain ⟨rows, e, last, hdrain, hlast⟩ := exists_drain next
      refine ⟨rows, e, last, by rw [run, hflow.never]; exact hdrain, hlast.trans hflow.schema,
        fun signal => ?_⟩
      rcases hflow.signal signal with ⟨last, after, h⟩ | ⟨after, h⟩
      · exact .inl ⟨[], last, after, by rw [run, h]⟩
      · have hsame := drainWithin_of_signal (next.work + 1) [] next after
        rw [← drain, ← drain, hdrain] at hsame
        rw [run, h]
        exact hsame

theorem start_sort (input : Flow) (keys : List SortKey) (unread : List Row) (signal : Signal) :
    (sort input keys unread false).start signal =
      match input.run signal with
      | (_, some fault, input, signal) => (some fault, .sort input keys unread false, signal)
      | (rows, none, input, signal) =>
          (none, .sort input keys (Row.sorted keys rows) true, signal) := by
  rw [start, run]
  generalize input.start signal = result
  obtain ⟨fault, next, after⟩ := result
  cases fault <;> rfl

theorem start_join (left right : Flow) (leftKey rightKey : Nat) (table : MatchTable)
    (ready : List Row) (signal : Signal) :
    (join left right leftKey rightKey table ready false).start signal =
      match left.start signal with
      | (some fault, left, signal) =>
          (some fault, .join left right leftKey rightKey table ready false, signal)
      | (none, left, signal) =>
        match right.run signal with
        | (_, some fault, right, signal) =>
          (some fault, .join left right leftKey rightKey table ready false, signal)
        | (rows, none, right, signal) =>
          (none, .join left right leftKey rightKey (.ofRows rightKey rows) ready true, signal) := by
  rw [start]
  generalize left.start signal = result
  obtain ⟨fault, next, after⟩ := result
  cases fault with
  | some fault => rfl
  | none =>
      simp only [Bool.false_eq_true, if_false, run]
      generalize right.start after = result
      obtain ⟨fault, next, after⟩ := result
      cases fault <;> rfl

theorem Starts.of_eq (h : ∀ signal, flow.start signal = (none, flow, signal)) :
    flow.Starts none flow :=
  ⟨h _, rfl, fun signal => .inr ⟨signal, h signal⟩⟩

theorem Starts.exists_sort {input : Flow} {fault : Option FlowFault}
    (hinput : input.Starts fault next) (keys : List SortKey) (unread : List Row) :
    ∃ fault next, (sort input keys unread false).Starts fault next := by
  obtain ⟨rows, e, last, hnever, hlast, hsame⟩ := hinput.exists_run
  cases e with
  | some fault =>
      refine ⟨some fault, .sort last keys unread false, by rw [start_sort, hnever], hlast,
        fun signal => ?_⟩
      rcases hsame signal with ⟨rows, last, after, h⟩ | ⟨after, h⟩ <;> simp [start_sort, h]
  | none =>
      refine ⟨none, .sort last keys (Row.sorted keys rows) true, by rw [start_sort, hnever], hlast,
        ?_⟩
      intro signal
      rcases hsame signal with ⟨rows, last, after, h⟩ | ⟨after, h⟩ <;> simp [start_sort, h]

/-- A join starts its left input, and then runs the right one. -/
theorem Starts.exists_join {left right nextLeft nextRight : Flow} {fault other : Option FlowFault}
    (hleft : left.Starts fault nextLeft) (hright : right.Starts other nextRight)
    (leftKey rightKey : Nat) (table : MatchTable) (ready : List Row) :
    ∃ fault next, (join left right leftKey rightKey table ready false).Starts fault next := by
  obtain ⟨rows, e, last, hnever, hlast, hsame⟩ := hright.exists_run
  cases fault with
  | some fault =>
      refine ⟨some fault, .join nextLeft right leftKey rightKey table ready false,
        by rw [start_join, hleft.never], by rw [Flow.schema, hleft.schema, Flow.schema],
        fun signal => ?_⟩
      rcases hleft.signal signal with ⟨last, after, h⟩ | ⟨after, h⟩ <;> simp [start_join, h]
  | none =>
      cases e with
      | some fault =>
          refine ⟨some fault, .join nextLeft last leftKey rightKey table ready false,
            by rw [start_join, hleft.never]; simp [hnever],
            by rw [Flow.schema, hleft.schema, hlast, Flow.schema], fun signal => ?_⟩
          rcases hleft.signal signal with ⟨last, after, h⟩ | ⟨after, h⟩
          · simp [start_join, h]
          · rcases hsame after with ⟨rows, last, after, hrun⟩ | ⟨after, hrun⟩ <;>
              simp [start_join, h, hrun]
      | none =>
          refine ⟨none, .join nextLeft last leftKey rightKey (.ofRows rightKey rows) ready true,
            by rw [start_join, hleft.never]; simp [hnever],
            by rw [Flow.schema, hleft.schema, hlast, Flow.schema], fun signal => ?_⟩
          rcases hleft.signal signal with ⟨last, after, h⟩ | ⟨after, h⟩
          · simp [start_join, h]
          · rcases hsame after with ⟨rows, last, after, hrun⟩ | ⟨after, hrun⟩ <;>
              simp [start_join, h, hrun]

theorem exists_starts (flow : Flow) : ∃ fault next, flow.Starts fault next := by
  -- a stage is started if its input could be started, whatever the signal is
  induction flow with
  | scan schema rows unread started =>
      exact ⟨none, .scan schema rows rows true, rfl, rfl, fun signal => .inr ⟨signal, rfl⟩⟩
  | filter input predicate started ih =>
      cases started with
      | true => exact ⟨none, _, .of_eq fun _ => rfl⟩
      | false =>
          obtain ⟨fault, next, hinput⟩ := ih
          refine ⟨fault, .filter next predicate fault.isNone, by simp [start, hinput.never],
            hinput.schema, ?_⟩
          intro signal
          rcases hinput.signal signal with ⟨last, after, h⟩ | ⟨after, h⟩ <;> simp [start, h]
  | project input columns started ih =>
      cases started with
      | true => exact ⟨none, _, .of_eq fun _ => rfl⟩
      | false =>
          obtain ⟨fault, next, hinput⟩ := ih
          refine ⟨fault, .project next columns fault.isNone, by simp [start, hinput.never], ?_,
            fun signal => ?_⟩
          · rw [Flow.schema, hinput.schema, Flow.schema]
          · rcases hinput.signal signal with ⟨last, after, h⟩ | ⟨after, h⟩ <;> simp [start, h]
  | distinct input columns seen started ih =>
      cases started with
      | true => exact ⟨none, _, .of_eq fun _ => rfl⟩
      | false =>
          obtain ⟨fault, next, hinput⟩ := ih
          refine ⟨fault, .distinct next columns [] fault.isNone, by simp [start, hinput.never],
            hinput.schema, ?_⟩
          intro signal
          rcases hinput.signal signal with ⟨last, after, h⟩ | ⟨after, h⟩ <;> simp [start, h]
  | sort input keys unread started ih =>
      cases started with
      | true => exact ⟨none, _, .of_eq fun _ => rfl⟩
      | false =>
          obtain ⟨fault, next, hinput⟩ := ih
          exact hinput.exists_sort keys unread
  | limit input most offset skipped returned started ih =>
      cases started with
      | true => exact ⟨none, _, .of_eq fun _ => rfl⟩
      | false =>
          obtain ⟨fault, next, hinput⟩ := ih
          refine ⟨fault, .limit next most offset 0 0 fault.isNone, by simp [start, hinput.never],
            hinput.schema, ?_⟩
          intro signal
          rcases hinput.signal signal with ⟨last, after, h⟩ | ⟨after, h⟩ <;> simp [start, h]
  | aggregate input columns calls groups complete started ih =>
      cases started with
      | true => exact ⟨none, _, .of_eq fun _ => rfl⟩
      | false =>
          obtain ⟨fault, next, hinput⟩ := ih
          refine ⟨fault, .aggregate next columns calls [] false fault.isNone,
            by simp [start, hinput.never], ?_, ?_⟩
          · rw [Flow.schema, hinput.schema, Flow.schema]
          · intro signal
            rcases hinput.signal signal with ⟨last, after, h⟩ | ⟨after, h⟩ <;> simp [start, h]
  | join left right leftKey rightKey table ready started ihleft ihright =>
      cases started with
      | true => exact ⟨none, _, .of_eq fun _ => rfl⟩
      | false =>
          obtain ⟨fault, nextLeft, hleft⟩ := ihleft
          obtain ⟨other, nextRight, hright⟩ := ihright
          exact hleft.exists_join hright leftKey rightKey table ready

/-! ## Running -/

/-- Every flow yields some rows, and then a fault or nothing more. -/
theorem exists_runs (flow : Flow) : ∃ rows e, flow.Runs rows e := by
  obtain ⟨fault, next, hflow⟩ := exists_starts flow
  cases fault with
  | some fault => exact ⟨[], some fault, .failed hflow.never⟩
  | none =>
      obtain ⟨rows, e, hnext⟩ := exists_yields next
      exact ⟨rows, e, .started hflow.never hflow.schema hnext⟩

/-- What a flow yields is determined by it. -/
theorem Runs.unique (hflow : flow.Runs rows e) (hother : flow.Runs others f) :
    others = rows ∧ f = e := by
  obtain ⟨last, hrun⟩ := run_of_runs hflow
  obtain ⟨last', hrun'⟩ := run_of_runs hother
  rw [hrun, Prod.mk.injEq, Prod.mk.injEq] at hrun'
  exact ⟨hrun'.1.symm, hrun'.2.1.symm⟩

/-- A run that ends without a fault is that of a flow which is never cancelled. -/
theorem runs_of_run (hrun : flow.run signal = (rows, none, last, after)) : flow.Runs rows none := by
  obtain ⟨others, f, hruns⟩ := exists_runs flow
  obtain ⟨last', hnever⟩ := run_of_runs hruns
  obtain ⟨fault, next, hflow⟩ := exists_starts flow
  obtain ⟨rows', e, last'', hnever', -, hsame⟩ := hflow.exists_run
  rw [hnever', Prod.mk.injEq, Prod.mk.injEq] at hnever
  obtain ⟨rfl, rfl, -⟩ := hnever
  rcases hsame signal with ⟨rows', last', after', h⟩ | ⟨after', h⟩
  · simp [hrun] at h
  · rw [hrun, Prod.mk.injEq, Prod.mk.injEq] at h
    rwa [h.1, h.2.1]

end EntityQuery.Flow
