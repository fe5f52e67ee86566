import EntityQuery.Proofs.Flow.Calls
import EntityQuery.Store.Fetch

/-!
# Cancellation is all or nothing

A signal may be set between any two looks at it.  A store that is asked for records or for a count
looks at it before it begins, and then at every read of a table.  Whenever it is set, the answer is
either that the run was cancelled or the one that is given when the signal is never set: there are
no records of half a run, and no smaller count.  A flow that is pulled row by row may have answered
some rows by then; these are the first rows of those that it answers when the signal is never set,
and no other row follows.

## Strategy

Only a scan looks at the signal, and it does so before it reads.  So a step that finds the signal
set leaves the flow as it was, and fails again when it is repeated (`step_of_cancelled`).  All other
steps are those of a flow that is never cancelled (`step_of_signal`).  The same is then proved of
starting a flow, where a stage may drain its input: what has failed for the signal fails for it
again (`start_of_cancelled`), by induction on the flow.  A flow of which either is known is
`Stopped`, and stays so whatever calls are made.

## Main definitions

* `Answer.row?` : the row of an answer
* `Flow.Stopped` : a flow that has been cancelled
* `Store.AllOrNothing` : an answer that is either whole or is that the run was cancelled

## Main statements

* `Stopped.row?_eq_none` : a flow that has been cancelled answers no row
* `answers_of_signal` : what a flow answers before it is cancelled
* `cancelled_or_same` : cancellation is all or nothing
-/

namespace EntityQuery

/-- The row of an answer. -/
def Answer.row? : Answer → Option Row
  | .ok row => row
  | .error _ => none

namespace Flow

variable {flow input next last : Flow} {rows before : List Row} {signal after : Signal}
  {steps : Nat}

/-! ## Steps that are cancelled -/

/-- A step fails for the signal only if that is set, leaves the flow as it is, and fails again. -/
theorem step_of_cancelled (hstep : (flow.step signal).1 = .fault .cancelled) :
    signal = .raised ∧ flow.step .raised = (.fault .cancelled, flow, .raised) := by
  -- on the stages: only a scan fails for the signal, all others fail because their input does
  induction flow with
  | scan schema rows unread started =>
      -- a signal that is set finds no look unset any more
      have hraised : signal.isSet = true → signal = .raised := by
        obtain ⟨looks⟩ := signal
        simp [Signal.isSet, Signal.raised]
      cases started <;> cases hset : signal.isSet <;> cases unread <;> simp [step, hset] at hstep
      all_goals exact ⟨hraised hset, rfl⟩
  | filter input predicate started ih =>
      unfold step at hstep
      generalize hinput : input.step signal = result at hstep ih
      obtain ⟨result, next, after⟩ := result
      cases started <;> cases result <;> simp at hstep
      case true.row => split at hstep <;> simp at hstep
      case true.fault =>
        subst hstep
        obtain ⟨hset, hagain⟩ := ih rfl
        exact ⟨hset, by rw [step, hagain]; rfl⟩
  | project input columns started ih =>
      unfold step at hstep
      generalize hinput : input.step signal = result at hstep ih
      obtain ⟨result, next, after⟩ := result
      cases started <;> cases result <;> simp at hstep
      subst hstep
      obtain ⟨hset, hagain⟩ := ih rfl
      exact ⟨hset, by rw [step, hagain]; rfl⟩
  | distinct input columns seen started ih =>
      unfold step at hstep
      generalize hinput : input.step signal = result at hstep ih
      obtain ⟨result, next, after⟩ := result
      cases started <;> cases result <;> simp at hstep
      case true.row => simp [apply_ite Prod.fst, ite_eq_iff] at hstep
      case true.fault =>
        subst hstep
        obtain ⟨hset, hagain⟩ := ih rfl
        exact ⟨hset, by rw [step, hagain]; rfl⟩
  | sort input keys unread started ih => cases started <;> cases unread <;> simp [step] at hstep
  | limit input most offset skipped returned started ih =>
      unfold step at hstep
      generalize hinput : input.step signal = result at hstep ih
      obtain ⟨result, next, after⟩ := result
      by_cases hmost : most.any (· ≤ returned) = true
      · cases started <;> simp [hmost] at hstep
      · cases started <;> cases result <;> simp [hmost] at hstep
        case true.row => split at hstep <;> simp at hstep
        case true.fault =>
          subst hstep
          obtain ⟨hset, hagain⟩ := ih rfl
          exact ⟨hset, by simp [step, hmost, hagain]⟩
  | aggregate input columns calls groups complete started ih =>
      unfold step at hstep
      generalize hinput : input.step signal = result at hstep ih
      obtain ⟨result, next, after⟩ := result
      cases started <;> cases complete <;> cases groups <;> cases result <;> simp at hstep
      case true.false.nil.row | true.false.cons.row => split at hstep <;> simp at hstep
      all_goals
        subst hstep
        obtain ⟨hset, hagain⟩ := ih rfl
        exact ⟨hset, by rw [step, hagain]; rfl⟩
  | join left right leftKey rightKey table ready started ih =>
      unfold step at hstep
      generalize hleft : left.step signal = result at hstep ih
      obtain ⟨result, next, after⟩ := result
      cases started <;> cases ready <;> cases result <;> simp at hstep
      subst hstep
      obtain ⟨hset, hagain⟩ := ih rfl
      exact ⟨hset, by rw [step, hagain]; rfl⟩

/-! ## Rows that are cancelled -/

/-- The next row is the one that there is when the signal is never set, unless it is cancelled. -/
theorem nextWithin_of_signal (steps : Nat) (flow : Flow) (signal : Signal) :
    (∃ next, nextWithin steps flow signal = (.error .cancelled, next, .raised) ∧
        next.step .raised = (.fault .cancelled, next, .raised)) ∨
      ∃ after, nextWithin steps flow signal =
        ((nextWithin steps flow .never).1, (nextWithin steps flow .never).2.1, after) := by
  induction steps generalizing flow signal with
  | zero => exact .inr ⟨signal, rfl⟩
  | succ steps ih =>
      have hsame := step_of_signal flow signal
      have hnever := signal_step_never flow
      unfold nextWithin
      rcases hsame with hcancelled | ⟨hresult, hnext⟩
      · obtain ⟨rfl, hstep⟩ := step_of_cancelled hcancelled
        exact .inl ⟨flow, by rw [hstep], hstep⟩
      · generalize flow.step signal = result, flow.step .never = other at hresult hnext hnever
        obtain ⟨⟨result, next, after⟩, other, next', after'⟩ := result, other
        obtain rfl : after' = .never := hnever
        obtain rfl : result = other := hresult
        obtain rfl : next = next' := hnext
        cases result with
        | again => exact ih next after
        | row | done | fault => exact .inr ⟨after, rfl⟩

/-- Draining a flow fails for the signal at a step that fails for it again. -/
theorem drainWithin_of_cancelled
    (hdrain : drainWithin steps before flow signal = (rows, some .cancelled, last, after)) :
    after = .raised ∧ last.step .raised = (.fault .cancelled, last, .raised) := by
  induction steps generalizing before flow signal with
  | zero => simp [drainWithin] at hdrain
  | succ steps ih =>
      unfold drainWithin at hdrain
      by_cases hcancelled : (flow.step signal).1 = .fault .cancelled
      · obtain ⟨rfl, hstep⟩ := step_of_cancelled hcancelled
        rw [hstep] at hdrain
        obtain ⟨-, -, rfl, rfl⟩ : before.reverse = rows ∧ True ∧ flow = last ∧
            Signal.raised = after := by
          simpa using hdrain
        exact ⟨rfl, hstep⟩
      · generalize flow.step signal = result at hdrain hcancelled
        obtain ⟨result, next, middle⟩ := result
        cases result with
        | again | row => exact ih hdrain
        | done => simp at hdrain
        | fault fault =>
            obtain ⟨-, rfl, -⟩ : before.reverse = rows ∧ fault = .cancelled ∧ _ := by
              simpa using hdrain
            simp at hcancelled

theorem isStarted_of_cancelled (hstep : (flow.step signal).1 = .fault .cancelled) :
    flow.isStarted = true := by
  by_contra hflow
  rw [step_of_not_isStarted (Bool.not_eq_true _ ▸ hflow)] at hstep
  simp at hstep

/-! ## Starts that are cancelled -/

theorem start_of_started (hflow : flow.isStarted = true) (signal : Signal) :
    ∃ next, flow.start signal = (none, next, signal) := by
  cases flow <;> simp_all [isStarted, start]

/-- A flow that is cancelled at a step can be started again, and is cancelled then. -/
theorem start_of_cancelled_step (hstep : (flow.step .raised).1 = .fault .cancelled) :
    ∃ next, flow.start .raised = (none, next, .raised) ∧
      next.step .raised = (.fault .cancelled, next, .raised) := by
  have hflow := isStarted_of_cancelled hstep
  obtain ⟨next, hstart⟩ := start_of_started hflow .raised
  have hnext : (next.step .raised).1 = .fault .cancelled := by
    -- a scan begins anew, and all other flows stay as they are
    cases flow with
    | scan schema unread rows started =>
        obtain rfl : scan schema unread unread true = next := by simpa [start] using hstart
        rfl
    | _ =>
        rw [start_of_isStarted rfl hflow] at hstart
        obtain rfl : _ = next := by simpa using hstart
        exact hstep
  exact ⟨next, hstart, (step_of_cancelled hnext).2⟩

theorem run_of_cancelled_step (hstep : (flow.step .raised).1 = .fault .cancelled) :
    ∃ rows last after, flow.run .raised = (rows, some .cancelled, last, after) := by
  obtain ⟨next, hstart, hnext⟩ := start_of_cancelled_step hstep
  exact ⟨[], next, .raised, by rw [run, hstart]; simp [drain, drainWithin, hnext]⟩

/-- Starting the flow fails again for the signal, once it has failed for it. -/
def FailsAgain (flow : Flow) : Prop :=
  ∀ signal next after, flow.start signal = (some .cancelled, next, after) →
    after = .raised ∧ ∃ last after, next.start .raised = (some .cancelled, last, after)

/-- So does a run of the flow. -/
theorem FailsAgain.run (hflow : flow.FailsAgain) {next : Flow}
    (hrun : flow.run signal = (rows, some .cancelled, next, after)) :
    after = .raised ∧ ∃ rows last after,
      next.run .raised = (rows, some .cancelled, last, after) := by
  unfold Flow.run at hrun
  generalize hstart : flow.start signal = result at hrun
  obtain ⟨fault, middle, between⟩ := result
  cases fault with
  | some fault =>
      obtain ⟨-, rfl, rfl, rfl⟩ : [] = rows ∧ fault = .cancelled ∧ middle = next ∧
          between = after := by
        simpa using hrun
      obtain ⟨hafter, last, after, hagain⟩ := hflow _ _ _ hstart
      exact ⟨hafter, [], last, after, by rw [Flow.run, hagain]⟩
  | none =>
      obtain ⟨hafter, hstep⟩ := drainWithin_of_cancelled hrun
      exact ⟨hafter, run_of_cancelled_step (by rw [hstep])⟩

/-- Starting a flow fails again for the signal, once it has failed for it. -/
theorem failsAgain (flow : Flow) : flow.FailsAgain := by
  induction flow with
  | scan schema rows unread started =>
      intro signal next after hstart
      simp [start] at hstart
  | filter input predicate started ih | project input columns started ih
  | distinct input columns seen started ih
  | limit input most offset skipped returned started ih
  | aggregate input columns calls groups complete started ih =>
      intro signal next after hstart
      unfold start at hstart
      generalize hinput : input.start signal = result at hstart
      obtain ⟨fault, next, middle⟩ := result
      cases started <;> simp at hstart
      obtain ⟨rfl, rfl, rfl⟩ := hstart
      obtain ⟨hafter, last, after, hagain⟩ := ih _ _ _ hinput
      exact ⟨hafter, _, after, by simp [start, hagain]; rfl⟩
  | sort input keys unread started ih =>
      intro signal next after hstart
      cases started with
      | true => simp [start] at hstart
      | false =>
          rw [start_sort] at hstart
          generalize hinput : input.run signal = result at hstart
          obtain ⟨rows, fault, next, middle⟩ := result
          cases fault <;> simp at hstart
          obtain ⟨rfl, rfl, rfl⟩ := hstart
          -- what has been read is given up, the next start reads again
          obtain ⟨hafter, rows, last, after, hagain⟩ := ih.run hinput
          exact ⟨hafter, .sort last keys unread false, after, by rw [start_sort, hagain]⟩
  | join left right leftKey rightKey table ready started ihleft ihright =>
      intro signal next after hstart
      cases started with
      | true => simp [start] at hstart
      | false =>
          rw [start_join] at hstart
          have hready := isStarted_start left signal
          generalize hleft : left.start signal = result at hstart hready
          obtain ⟨fault, nextLeft, middle⟩ := result
          cases fault with
          | some fault =>
              simp at hstart
              obtain ⟨rfl, rfl, rfl⟩ := hstart
              obtain ⟨hafter, last, after, hagain⟩ := ihleft _ _ _ hleft
              exact ⟨hafter, _, after, by rw [start_join, hagain]⟩
          | none =>
              dsimp only at hstart
              generalize hright : right.run middle = result at hstart
              obtain ⟨rows, fault, nextRight, last⟩ := result
              cases fault <;> simp at hstart
              obtain ⟨rfl, rfl, rfl⟩ := hstart
              obtain ⟨hafter, rows, last, after, hagain⟩ := ihright.run hright
              -- the left input has been started by then, which does nothing the second time
              obtain ⟨again, hstarted⟩ := start_of_started hready .raised
              exact ⟨hafter, _, after, by rw [start_join, hstarted]; simp [hagain]; rfl⟩

/-! ## Flows that have been cancelled -/

/-- The flow has been cancelled: it fails for the signal at its next step, or else when it is
started. -/
structure Stopped (flow : Flow) : Prop where
  step : flow.isStarted = true → flow.step .raised = (.fault .cancelled, flow, .raised)
  start : flow.isStarted = false → ∃ next after, flow.start .raised = (some .cancelled, next, after)

theorem Stopped.of_step (hstep : flow.step .raised = (.fault .cancelled, flow, .raised)) :
    flow.Stopped := by
  have hstarted : flow.isStarted = true := isStarted_of_cancelled (by rw [hstep])
  exact ⟨fun _ => hstep, by simp [hstarted]⟩

/-- A flow that has been cancelled answers no row, and remains cancelled. -/
theorem Stopped.exists_answer (hflow : flow.Stopped) (call : Call) :
    ∃ answer next, flow.answer .raised call = (answer, next, .raised) ∧ Answer.row? answer = none ∧
      next.Stopped := by
  cases hstarted : flow.isStarted with
  | true =>
      have hstep := hflow.step hstarted
      cases call with
      | next =>
          exact ⟨.error .cancelled, flow, by simp [answer, next, nextWithin, hstep], rfl, hflow⟩
      | start =>
          obtain ⟨next, hstart, hnext⟩ := start_of_cancelled_step (by rw [hstep])
          exact ⟨.ok none, next, by rw [answer, hstart], rfl, .of_step hnext⟩
  | false =>
      cases call with
      | next => exact ⟨.error .notStarted, flow, next_of_not_isStarted hstarted .raised, rfl, hflow⟩
      | start =>
          obtain ⟨next, after, hstart⟩ := hflow.start hstarted
          obtain ⟨rfl, hagain⟩ := failsAgain flow _ _ _ hstart
          have hready := isStarted_start flow .raised
          rw [hstart] at hready
          refine ⟨.error .cancelled, next, by rw [answer, hstart], rfl, ?_, fun _ => hagain⟩
          rw [hready]
          simp

/-- A flow that has been cancelled answers no row. -/
theorem Stopped.row?_eq_none (hflow : flow.Stopped) {calls : List Call} {answer : Answer}
    (hanswer : answer ∈ flow.answers .raised calls) : answer.row? = none := by
  induction calls generalizing flow with
  | nil => simp [answers] at hanswer
  | cons call calls ih =>
      obtain ⟨first, next, hfirst, hnone, hnext⟩ := hflow.exists_answer call
      rw [answers, hfirst] at hanswer
      rcases List.mem_cons.mp hanswer with rfl | hrest
      · exact hnone
      · exact ih hnext hrest

/-! ## Answers -/

/-- An answer is the one that is given when the signal is never set, unless it is that the flow was
cancelled. -/
theorem answer_of_signal (flow : Flow) (signal : Signal) (call : Call) :
    (∃ next, flow.answer signal call = (.error .cancelled, next, .raised) ∧ next.Stopped) ∨
      ∃ after, flow.answer signal call =
        ((flow.answer .never call).1, (flow.answer .never call).2.1, after) := by
  cases call with
  | next =>
      rcases nextWithin_of_signal (flow.work + 1) flow signal with ⟨next, hnext, hstep⟩ | hsame
      · exact .inl ⟨next, hnext, .of_step hstep⟩
      · exact .inr hsame
  | start =>
      obtain ⟨fault, next, hstarts⟩ := exists_starts flow
      rcases hstarts.signal signal with ⟨last, after, hstart⟩ | ⟨after, hstart⟩
      · obtain ⟨rfl, hagain⟩ := failsAgain flow _ _ _ hstart
        have hready := isStarted_start flow signal
        rw [hstart] at hready
        refine .inl ⟨last, by rw [answer, hstart], ?_, fun _ => hagain⟩
        simp [hready]
      · refine .inr ⟨after, ?_⟩
        rw [answer, answer, hstart, hstarts.never]
        cases fault <;> rfl

theorem signal_answer_never (flow : Flow) (call : Call) :
    (flow.answer .never call).2.2 = .never := by
  cases call with
  | start =>
      obtain ⟨fault, next, hstarts⟩ := exists_starts flow
      rw [answer, hstarts.never]
      cases fault <;> rfl
  | next =>
      rw [answer, Flow.next]
      generalize flow.work + 1 = steps
      induction steps generalizing flow with
      | zero => rfl
      | succ steps ih =>
          have hnever := signal_step_never flow
          unfold nextWithin
          generalize flow.step .never = result at hnever
          obtain ⟨result, next, after⟩ := result
          obtain rfl : after = .never := hnever
          cases result with
          | again => exact ih next
          | row | done | fault => rfl

/-- Whatever is answered before the flow is cancelled is answered when the signal is never set, and
no row is answered after that. -/
theorem answers_of_signal (flow : Flow) (signal : Signal) (calls : List Call) :
    flow.answers signal calls = flow.answers .never calls ∨
      ∃ before rest, flow.answers signal calls = before ++ .error .cancelled :: rest ∧
        before <+: flow.answers .never calls ∧ ∀ answer ∈ rest, Answer.row? answer = none := by
  induction calls generalizing flow signal with
  | nil => exact .inl rfl
  | cons call calls ih =>
      have hnever := signal_answer_never flow call
      rw [answers, answers]
      rcases answer_of_signal flow signal call with ⟨next, hanswer, hnext⟩ | ⟨after, hanswer⟩
      · rw [hanswer]
        exact .inr ⟨[], next.answers .raised calls, rfl, List.nil_prefix,
          fun _ => hnext.row?_eq_none⟩
      · rw [hanswer]
        generalize flow.answer .never call = result at hnever
        obtain ⟨first, next, after'⟩ := result
        obtain rfl : after' = .never := hnever
        rcases ih next after with hsame | ⟨before, rest, hsame, hprefix, hrest⟩
        · exact .inl (congrArg (first :: ·) hsame)
        · exact .inr ⟨first :: before, rest, congrArg (first :: ·) hsame,
            List.cons_prefix_cons.mpr ⟨rfl, hprefix⟩, hrest⟩

theorem rows_prefix (flow : Flow) (signal : Signal) (calls : List Call) :
    (flow.answers signal calls).filterMap Answer.row? <+:
      (flow.answers .never calls).filterMap Answer.row? := by
  rcases answers_of_signal flow signal calls with hsame | ⟨before, rest, hbefore, hprefix, hrest⟩
  · exact hsame ▸ List.prefix_rfl
  · rw [hbefore, List.filterMap_append, List.filterMap_cons_none rfl,
      List.filterMap_eq_nil_iff.mpr hrest, List.append_nil]
    exact hprefix.filterMap Answer.row?

end Flow

/-! ## Stores -/

namespace Store

variable {α : Type}

/-- An answer that is either given when the signal is never set, or is that the run was
cancelled. -/
def AllOrNothing (run : Signal → Except StoreFault α × Signal) : Prop :=
  ∀ signal, (run signal).1 = .error (.flow .cancelled) ∨ (run signal).1 = (run .never).1

theorem allOrNothing_runAll (flow : Flow) : AllOrNothing (runAll flow) := by
  intro signal
  obtain ⟨fault, next, hstarts⟩ := Flow.exists_starts flow
  obtain ⟨rows, e, last, hnever, -, hsame⟩ := hstarts.exists_run
  rcases hsame signal with ⟨rows, last, after, hrun⟩ | ⟨after, hrun⟩
  · exact .inl (by rw [runAll, hrun])
  · refine .inr ?_
    rw [runAll, runAll, hrun, hnever]
    cases e <;> rfl

theorem AllOrNothing.unlessCancelled {run : Signal → Except StoreFault α × Signal}
    (hrun : AllOrNothing run) : AllOrNothing fun signal => unlessCancelled signal run := by
  intro signal
  dsimp only
  rw [Store.unlessCancelled]
  split
  · exact .inl rfl
  · exact hrun signal.look

/-- What is made of all rows of a flow, if that can be built. -/
theorem allOrNothing_of_built (built : Except StoreFault Flow) (f : Flow → List Row → α) :
    AllOrNothing fun signal =>
      match built with
      | .error fault => (.error fault, signal)
      | .ok flow =>
        let (rows, signal) := runAll flow signal
        (rows.map (f flow), signal) := by
  intro signal
  cases built with
  | error fault => exact .inr rfl
  | ok flow =>
      rcases allOrNothing_runAll flow signal with hcancelled | hsame
      · exact .inl (by simp [hcancelled, Except.map])
      · exact .inr (by simp [hsame])

/-- Cancellation is all or nothing.  Records that are fetched, and a count, are those of the run
that is never cancelled, unless the answer is that the run was cancelled.  The rows that any flow
answers to some calls are the first of those that it answers when it is never cancelled; and all its
answers are these, unless one is that it was cancelled. -/
theorem cancelled_or_same (s : Store) (p : Plan) (flow : Flow) (calls : List Call)
    (signal : Signal) :
    ((s.fetch p signal).1 = .error (.flow .cancelled) ∨
      (s.fetch p signal).1 = (s.fetch p .never).1) ∧
      ((s.count p signal).1 = .error (.flow .cancelled) ∨
        (s.count p signal).1 = (s.count p .never).1) ∧
      (flow.answers signal calls).filterMap Answer.row? <+:
        (flow.answers .never calls).filterMap Answer.row? ∧
      (.error .cancelled ∈ flow.answers signal calls ∨
        flow.answers signal calls = flow.answers .never calls) := by
  refine ⟨?_, ?_, flow.rows_prefix signal calls, ?_⟩
  · exact (allOrNothing_of_built _ fun flow rows =>
      rows.map (Record.zip flow.schema.names)).unlessCancelled signal
  · exact (allOrNothing_of_built _ fun _ => countOf).unlessCancelled signal
  · rcases Flow.answers_of_signal flow signal calls with hsame | ⟨before, rest, hbefore, -⟩
    · exact .inr hsame
    · exact .inl (hbefore ▸ List.mem_append_right _ List.mem_cons_self)

end Store

end EntityQuery
