import EntityQuery.Proofs.Flow.Listed
import EntityQuery.Proofs.Flow.Stable
import EntityQuery.Proofs.Flow.Total

/-!
# Calls of a flow

A flow is started and asked for rows by calls, in any order and as often as one likes.  Calls for
rows are refused until the flow has been started; from then on they answer one row of its list after
the other, and nothing once the list has been read.  Starting a stage again does not begin anew.

## Strategy

The invariant of a started flow is `Yields`: what it yields is what is left of its list.  A call for
a row takes the first of these rows off.  At the end of the list it takes a lemma that a flow which
has found no row left finds none later either, `exists_step_of_done`; this is by induction on the
flow, since every stage has to ask its input again.

## Main definitions

* `Call` : a call of a flow
* `Flow.answers` : what a flow answers to some calls
* `Row.pulled` : what a list of rows answers when it is read row by row

## Main statements

* `next_of_yields` : the next row is the first that is left
* `answers_of_listed` : a flow answers as its list does
-/

namespace EntityQuery

/-! ## Calls -/

/-- A call of a flow. -/
inductive Call where
  /-- The flow is started. -/
  | start
  /-- The flow is asked for its next row. -/
  | next
  deriving DecidableEq, Repr

/-- The answer to a call: a row or none, or a fault.  A flow that has been started answers none to
that call. -/
abbrev Answer := Except FlowFault (Option Row)

namespace Flow

/-- The answer to a call, and the flow and the signal afterwards. -/
def answer (flow : Flow) (signal : Signal) : Call → Answer × Flow × Signal
  | .start =>
    match flow.start signal with
    | (some fault, flow, signal) => (.error fault, flow, signal)
    | (none, flow, signal) => (.ok none, flow, signal)
  | .next => flow.next signal

/-- The answers to some calls, one after the other. -/
def answers (flow : Flow) (signal : Signal) : List Call → List Answer
  | [] => []
  | call :: calls =>
    match flow.answer signal call with
    | (answer, flow, signal) => answer :: flow.answers signal calls

end Flow

/-- What a list of rows answers that is read row by row, when so many rows have been asked for; none
of them if reading has not begun. -/
def Row.pulled (rows : List Row) : Option Nat → List Call → List Answer
  | _, [] => []
  | none, .next :: calls => .error .notStarted :: pulled rows none calls
  | none, .start :: calls => .ok none :: pulled rows (some 0) calls
  | some k, .start :: calls => .ok none :: pulled rows (some k) calls
  | some k, .next :: calls => .ok rows[k]? :: pulled rows (some (k + 1)) calls

namespace Flow

variable {flow next : Flow} {rows : List Row} {signal : Signal} {steps : Nat}

/-! ## The next row -/

/-- A flow that has no row left has none at the next step either. -/
theorem exists_step_of_done (hstep : flow.step .never = (.done, next, .never)) :
    ∃ last, next.step .never = (.done, last, .never) := by
  -- on the stages: one that is done has an input that is done, or has nothing left in store
  induction flow generalizing next with
  | scan schema rows unread started =>
      cases started <;> cases unread <;> simp [step] at hstep
      subst hstep
      exact ⟨_, rfl⟩
  | filter input predicate started ih =>
      unfold step at hstep
      generalize hinput : input.step .never = result at hstep
      obtain ⟨result, after, signal⟩ := result
      cases started <;> cases result <;> simp at hstep
      case true.row => split at hstep <;> simp at hstep
      case true.done =>
        obtain ⟨rfl, rfl⟩ := hstep
        obtain ⟨last, hlast⟩ := ih hinput
        exact ⟨_, by rw [step, hlast]; rfl⟩
  | project input columns started ih =>
      unfold step at hstep
      generalize hinput : input.step .never = result at hstep
      obtain ⟨result, after, signal⟩ := result
      cases started <;> cases result <;> simp at hstep
      obtain ⟨rfl, rfl⟩ := hstep
      obtain ⟨last, hlast⟩ := ih hinput
      exact ⟨_, by rw [step, hlast]; rfl⟩
  | distinct input columns seen started ih =>
      unfold step at hstep
      generalize hinput : input.step .never = result at hstep
      obtain ⟨result, after, signal⟩ := result
      cases started <;> cases result <;> simp at hstep
      case true.row => simp [ite_eq_iff] at hstep
      case true.done =>
        obtain ⟨rfl, rfl⟩ := hstep
        obtain ⟨last, hlast⟩ := ih hinput
        exact ⟨_, by rw [step, hlast]; rfl⟩
  | sort input keys unread started ih =>
      cases started <;> cases unread <;> simp [step] at hstep
      subst hstep
      exact ⟨_, rfl⟩
  | limit input most offset skipped returned started ih =>
      unfold step at hstep
      generalize hinput : input.step .never = result at hstep
      obtain ⟨result, after, signal⟩ := result
      -- a window that is full is done without its input
      by_cases hmost : most.any (· ≤ returned) = true
      · cases started <;> simp [hmost] at hstep
        subst hstep
        exact ⟨_, by simp [step, hmost]; rfl⟩
      · cases started <;> cases result <;> simp [hmost] at hstep
        case true.row => simp [ite_eq_iff] at hstep
        case true.done =>
          obtain ⟨rfl, rfl⟩ := hstep
          obtain ⟨last, hlast⟩ := ih hinput
          exact ⟨_, by simp [step, hmost, hlast]; rfl⟩
  | aggregate input columns calls groups complete started ih =>
      unfold step at hstep
      generalize hinput : input.step .never = result at hstep
      obtain ⟨result, after, signal⟩ := result
      cases started <;> cases complete <;> cases groups <;> cases result <;> simp at hstep
      case true.false.nil.row | true.false.cons.row => split at hstep <;> simp at hstep
      -- all groups have been handed out
      all_goals
        subst hstep
        exact ⟨_, rfl⟩
  | join left right leftKey rightKey table ready started ih =>
      unfold step at hstep
      generalize hleft : left.step .never = result at hstep
      obtain ⟨result, after, signal⟩ := result
      cases started <;> cases ready <;> cases result <;> simp at hstep
      obtain ⟨rfl, rfl⟩ := hstep
      obtain ⟨last, hlast⟩ := ih hleft
      exact ⟨_, by rw [step, hlast]; rfl⟩

/-- The next row is the first that is left, and leaves the others. -/
theorem next_of_yields (hflow : flow.Yields rows none) :
    ∃ next, flow.next .never = (.ok rows.head?, next, .never) ∧ next.Yields rows.tail none := by
  -- more steps than there is work are never needed
  suffices h : ∀ steps, flow.work < steps →
      ∃ next, nextWithin steps flow .never = (.ok rows.head?, next, .never) ∧
        next.Yields rows.tail none from
    h (flow.work + 1) (Nat.lt_succ_self _)
  generalize he : (none : Option FlowFault) = e at hflow
  induction hflow with
  | @done flow next hstep =>
      intro steps hsteps
      obtain ⟨steps, rfl⟩ := Nat.exists_eq_add_one.mpr (Nat.zero_lt_of_lt hsteps)
      obtain ⟨last, hlast⟩ := exists_step_of_done hstep
      exact ⟨next, by simp [nextWithin, hstep], .done hlast⟩
  | fault => simp at he
  | @again flow next rows e hstep _ ih =>
      intro steps hsteps
      obtain ⟨steps, rfl⟩ := Nat.exists_eq_add_one.mpr (Nat.zero_lt_of_lt hsteps)
      -- the step has used up some work, so the steps that are left are enough
      have hwork := work_step_lt flow .never (by rw [hstep]; rfl)
      rw [hstep] at hwork
      have hless : next.work < steps := Nat.lt_of_lt_of_le hwork (Nat.le_of_lt_succ hsteps)
      obtain ⟨last, hnext, hlast⟩ := ih he steps hless
      exact ⟨last, by simp [nextWithin, hstep, hnext], hlast⟩
  | @row flow next row rows e hstep hnext _ =>
      intro steps hsteps
      obtain ⟨steps, rfl⟩ := Nat.exists_eq_add_one.mpr (Nat.zero_lt_of_lt hsteps)
      subst he
      exact ⟨next, by simp [nextWithin, hstep], hnext⟩

/-- What every step keeps is kept until the next row. -/
theorem next_induction {motive : Flow → Prop}
    (hstep : ∀ flow signal, motive flow → motive (flow.step signal).2.1) (hflow : motive flow)
    (signal : Signal) : motive (flow.next signal).2.1 := by
  unfold next
  generalize flow.work + 1 = steps
  induction steps generalizing flow signal with
  | zero => exact hflow
  | succ steps ih =>
      have hnext := hstep flow signal hflow
      unfold nextWithin
      generalize flow.step signal = result at hnext
      obtain ⟨result, next, after⟩ := result
      cases result with
      | again => exact ih hnext after
      | row | done | fault => exact hnext

theorem next_of_not_isStarted (hflow : flow.isStarted = false) (signal : Signal) :
    flow.next signal = (.error .notStarted, flow, signal) := by
  rw [Flow.next, nextWithin, step_of_not_isStarted hflow]

/-! ## Answers -/

/-- A started stage answers what is left of a list. -/
theorem answers_of_yields {k : Nat} (hflow : flow.Yields (rows.drop k) none)
    (hstage : flow.isStage = true) (hstarted : flow.isStarted = true) (calls : List Call) :
    flow.answers .never calls = Row.pulled rows (some k) calls := by
  induction calls generalizing flow k with
  | nil => rfl
  | cons call calls ih =>
      cases call with
      | start =>
          rw [answers, answer, start_of_isStarted hstage hstarted, Row.pulled]
          dsimp only
          rw [ih hflow hstage hstarted]
      | next =>
          obtain ⟨next, hnext, hleft⟩ := next_of_yields hflow
          have hkept :=
            next_induction (motive := fun flow => flow.isStage = true ∧ flow.isStarted = true)
              (fun flow signal h => by rwa [isStage_step, isStarted_step]) ⟨hstage, hstarted⟩ .never
          rw [hnext] at hkept
          rw [List.tail_drop] at hleft
          rw [answers, answer, hnext, Row.pulled, List.head?_drop]
          dsimp only
          rw [ih hleft hkept.1 hkept.2]

/-- A flow of at least one stage answers to any calls as its list does that is read row by row, if
the list is not spoilt; and where the list has been sorted by keys that order its rows, it has been
sorted in a stable way. -/
theorem answers_of_listed (hflow : flow.Built) (hstage : flow.isStage = true)
    (hlisted : flow.listed = .ok rows) (calls : List Call) :
    flow.answers .never calls = Row.pulled rows none calls ∧
      ∀ keys rows, SortKey.Orders keys rows →
        Row.IsStableSort keys rows (Row.sorted keys rows) := by
  refine ⟨?_, fun keys rows => Row.isStableSort_sorted⟩
  have hunstarted := hflow.isStarted_eq
  induction calls with
  | nil => rfl
  | cons call calls ih =>
      cases call with
      | start =>
          obtain ⟨next, hstart, -, hyields⟩ := (runs_of_listed hflow hlisted).exists_yields
          have hready := isStarted_start flow .never
          have hstays := isStage_start flow .never
          rw [hstart] at hready hstays
          rw [answers, answer, hstart, Row.pulled]
          dsimp only
          rw [answers_of_yields (k := 0) hyields (hstays.trans hstage) hready]
      | next =>
          rw [answers, answer, next_of_not_isStarted hunstarted, Row.pulled]
          dsimp only
          rw [ih]

/-- Two authors, each with the books that are by the author, in the order of the authors; the first
row is left out. -/
theorem answers_of_listed_books :
    ∃ joined sorted : Flow,
      (ofRows [⟨"id", .int32⟩, ⟨"name", .text⟩]
          [[.int32 2, .text "Calvino"], [.int32 1, .text "Borges"]]).leftJoin
        (ofRows [⟨"title", .text⟩, ⟨"author", .int32⟩]
          [[.text "Ficciones", .int32 1], [.text "El Aleph", .int32 1]]) "id" "author" =
            .ok joined ∧
        joined.sortBy [SortKey.of 0 .asc] = .ok sorted ∧
        (sorted.window 1 (some 2)).answers .never [.next, .start, .next, .start, .next, .next] =
          [.error .notStarted, .ok none,
            .ok (some [.int32 1, .text "Borges", .text "El Aleph", .int32 1]), .ok none,
            .ok (some [.int32 2, .text "Calvino", .null, .null]), .ok none] := by
  have hlisted : ∃ joined sorted : Flow,
      (ofRows [⟨"id", .int32⟩, ⟨"name", .text⟩]
          [[.int32 2, .text "Calvino"], [.int32 1, .text "Borges"]]).leftJoin
        (ofRows [⟨"title", .text⟩, ⟨"author", .int32⟩]
          [[.text "Ficciones", .int32 1], [.text "El Aleph", .int32 1]]) "id" "author" =
            .ok joined ∧
        joined.sortBy [SortKey.of 0 .asc] = .ok sorted ∧
        (sorted.window 1 (some 2)).listed =
          .ok [[.int32 1, .text "Borges", .text "El Aleph", .int32 1],
          [.int32 2, .text "Calvino", .null, .null]] := ⟨_, _, rfl, rfl, rfl⟩
  obtain ⟨joined, sorted, hjoined, hsorted, hlisted⟩ := hlisted
  have hbuilt : (sorted.window 1 (some 2)).Built :=
    .window (.sortBy (.leftJoin (.ofRows _ _) (.ofRows _ _) hjoined) hsorted) 1 (some 2)
  exact ⟨joined, sorted, hjoined, hsorted, (answers_of_listed hbuilt rfl hlisted _).1⟩

end Flow

end EntityQuery
