import EntityQuery.Flow.Basic
import EntityQuery.Flow.Signal

/-!
# Pulling rows from a flow

A flow works in small steps.  One step reads at most one row of one scan, and either yields a row,
has to go on, or finds that nothing is left.  A row is pulled by stepping until one of the latter
happens; `work` bounds the number of steps.  Every read of a scan first looks at the cancellation
signal.

Starting a flow is done once: a stage that has been started stays as it is, only a scan that stands
alone begins anew.

## Main definitions

* `Flow.step` : one step
* `Flow.start` : the flow made ready for pulling
* `Flow.next` : the next row
* `Flow.drain` : all rows that are left
-/

namespace EntityQuery

/-- What comes of a step. -/
inductive Step where
  /-- No row yet. -/
  | again
  | row (row : Row)
  /-- No row is left. -/
  | done
  | fault (fault : FlowFault)

namespace Flow

/-! ## Steps -/

/-- The joined rows of a row on the left: one for each match, or one filled up with nulls. -/
def joined (width : Nat) (left : Row) (rights : List Row) : List Row :=
  if rights.isEmpty then [left ++ List.replicate width .null] else rights.map (left ++ ·)

/-- The groups that are handed out once the input has been read: without grouping columns there is
always one. -/
def completed (columns : List Nat) (calls : List (AggregateCall × String)) (groups : List Group) :
    List Group :=
  if groups.isEmpty && columns.isEmpty then [.empty (calls.map (·.1)) []] else groups

/-- One step of a flow. -/
def step : Flow → Signal → Step × Flow × Signal
  | .scan schema rows unread started, signal =>
    if !started then (.fault .notStarted, .scan schema rows unread started, signal)
    else if signal.isSet then (.fault .cancelled, .scan schema rows unread started, signal.look)
    else match unread with
      | [] => (.done, .scan schema rows [] started, signal.look)
      | row :: rest => (.row row, .scan schema rows rest started, signal.look)
  | .filter input predicate started, signal =>
    if !started then (.fault .notStarted, .filter input predicate started, signal)
    else
      let (step, input, signal) := input.step signal
      let result := match step with
        | .row row =>
          match predicate.holds row with
          | .ok true => .row row
          | .ok false => .again
          | .error fault => .fault (.expr fault)
        | step => step
      (result, .filter input predicate started, signal)
  | .project input columns started, signal =>
    if !started then (.fault .notStarted, .project input columns started, signal)
    else
      let (step, input, signal) := input.step signal
      let result := match step with
        | .row row => .row (row.keyOf (columns.map (·.1)))
        | step => step
      (result, .project input columns started, signal)
  | .distinct input columns seen started, signal =>
    if !started then (.fault .notStarted, .distinct input columns seen started, signal)
    else
      let (step, input, signal) := input.step signal
      match step with
      | .row row =>
        let key := if columns.isEmpty then row else row.keyOf columns
        if seen.any (·.same key) then (.again, .distinct input columns seen started, signal)
        else (.row row, .distinct input columns (key :: seen) started, signal)
      | step => (step, .distinct input columns seen started, signal)
  | .sort input keys unread started, signal =>
    if !started then (.fault .notStarted, .sort input keys unread started, signal)
    else match unread with
      | [] => (.done, .sort input keys [] started, signal)
      | row :: rest => (.row row, .sort input keys rest started, signal)
  | .limit input most offset skipped returned started, signal =>
    if !started then (.fault .notStarted, .limit input most offset skipped returned started, signal)
    else if most.any (· ≤ returned) then
      (.done, .limit input most offset skipped returned started, signal)
    else
      let (step, input, signal) := input.step signal
      match step with
      | .row row =>
        if skipped < offset then
          (.again, .limit input most offset (skipped + 1) returned started, signal)
        else (.row row, .limit input most offset skipped (returned + 1) started, signal)
      | step => (step, .limit input most offset skipped returned started, signal)
  | .aggregate input columns calls groups complete started, signal =>
    if !started then
      (.fault .notStarted, .aggregate input columns calls groups complete started, signal)
    else if complete then
      match groups with
      | [] => (.done, .aggregate input columns calls [] complete started, signal)
      | group :: rest =>
        let types := calls.map fun call => (aggregateColumn input.schema call).type
        (.row (group.row (calls.map (·.1)) types),
          .aggregate input columns calls rest complete started, signal)
    else
      let (step, input, signal) := input.step signal
      match step with
      | .row row =>
        let (groups, fault) := Group.addRow (calls.map (·.1)) (row.keyOf columns) row groups
        let result := match fault with
          | some fault => .fault (.tally fault)
          | none => .again
        (result, .aggregate input columns calls groups complete started, signal)
      | .done =>
        (.again, .aggregate input columns calls (completed columns calls groups) true started,
          signal)
      | step => (step, .aggregate input columns calls groups complete started, signal)
  | .join left right leftKey rightKey table ready started, signal =>
    if !started then
      (.fault .notStarted, .join left right leftKey rightKey table ready started, signal)
    else match ready with
      | row :: rest => (.row row, .join left right leftKey rightKey table rest started, signal)
      | [] =>
        let (step, left, signal) := left.step signal
        match step with
        | .row row =>
          let ready := joined right.schema.length row (table.rowsOf (row.getD leftKey .null))
          (.again, .join left right leftKey rightKey table ready started, signal)
        | step => (step, .join left right leftKey rightKey table [] started, signal)

/-- A bound on the number of steps that yield a row or have to go on. -/
def work : Flow → Nat
  | .scan _ _ unread _ => unread.length
  | .filter input _ _ => input.work
  | .project input _ _ => input.work
  | .distinct input _ _ _ => input.work
  | .sort _ _ unread _ => unread.length
  | .limit input _ _ _ _ _ => input.work
  | .aggregate input _ _ groups complete _ =>
    if complete then groups.length else 2 * input.work + groups.length + 2
  | .join left _ _ _ table ready _ => ready.length + left.work * (table.size + 2)

/-! ## Pulling -/

/-- The next row, within a number of steps. -/
def nextWithin : Nat → Flow → Signal → Except FlowFault (Option Row) × Flow × Signal
  | 0, flow, signal => (.ok none, flow, signal)
  | steps + 1, flow, signal =>
    match flow.step signal with
    | (.again, flow, signal) => nextWithin steps flow signal
    | (.row row, flow, signal) => (.ok (some row), flow, signal)
    | (.done, flow, signal) => (.ok none, flow, signal)
    | (.fault fault, flow, signal) => (.error fault, flow, signal)

/-- The next row, or none when no row is left. -/
def next (flow : Flow) (signal : Signal) : Except FlowFault (Option Row) × Flow × Signal :=
  nextWithin (flow.work + 1) flow signal

/-- The rows that are left, within a number of steps, behind those that were read before (the last
one first); and what ended the reading. -/
def drainWithin : Nat → List Row → Flow → Signal → List Row × Option FlowFault × Flow × Signal
  | 0, rows, flow, signal => (rows.reverse, none, flow, signal)
  | steps + 1, rows, flow, signal =>
    match flow.step signal with
    | (.again, flow, signal) => drainWithin steps rows flow signal
    | (.row row, flow, signal) => drainWithin steps (row :: rows) flow signal
    | (.done, flow, signal) => (rows.reverse, none, flow, signal)
    | (.fault fault, flow, signal) => (rows.reverse, some fault, flow, signal)

/-- All rows that are left up to the first fault, and that fault. -/
def drain (flow : Flow) (signal : Signal) : List Row × Option FlowFault × Flow × Signal :=
  drainWithin (flow.work + 1) [] flow signal

/-! ## Starting -/

/-- The flow made ready for pulling; a fault leaves it as far as it was made ready. -/
def start : Flow → Signal → Option FlowFault × Flow × Signal
  | .scan schema rows _ _, signal => (none, .scan schema rows rows true, signal)
  | .filter input predicate started, signal =>
    if started then (none, .filter input predicate started, signal)
    else
      let (fault, input, signal) := input.start signal
      (fault, .filter input predicate fault.isNone, signal)
  | .project input columns started, signal =>
    if started then (none, .project input columns started, signal)
    else
      let (fault, input, signal) := input.start signal
      (fault, .project input columns fault.isNone, signal)
  | .distinct input columns seen started, signal =>
    if started then (none, .distinct input columns seen started, signal)
    else
      let (fault, input, signal) := input.start signal
      (fault, .distinct input columns [] fault.isNone, signal)
  | .sort input keys unread started, signal =>
    if started then (none, .sort input keys unread started, signal)
    else
      match input.start signal with
      | (some fault, input, signal) => (some fault, .sort input keys unread false, signal)
      | (none, input, signal) =>
        match input.drain signal with
        | (_, some fault, input, signal) => (some fault, .sort input keys unread false, signal)
        | (rows, none, input, signal) =>
          (none, .sort input keys (Row.sorted keys rows) true, signal)
  | .limit input most offset skipped returned started, signal =>
    if started then (none, .limit input most offset skipped returned started, signal)
    else
      let (fault, input, signal) := input.start signal
      (fault, .limit input most offset 0 0 fault.isNone, signal)
  | .aggregate input columns calls groups complete started, signal =>
    if started then (none, .aggregate input columns calls groups complete started, signal)
    else
      let (fault, input, signal) := input.start signal
      (fault, .aggregate input columns calls [] false fault.isNone, signal)
  | .join left right leftKey rightKey table ready started, signal =>
    if started then (none, .join left right leftKey rightKey table ready started, signal)
    else
      match left.start signal with
      | (some fault, left, signal) =>
        (some fault, .join left right leftKey rightKey table ready false, signal)
      | (none, left, signal) =>
        match right.start signal with
        | (some fault, right, signal) =>
          (some fault, .join left right leftKey rightKey table ready false, signal)
        | (none, right, signal) =>
          match right.drain signal with
          | (_, some fault, right, signal) =>
            (some fault, .join left right leftKey rightKey table ready false, signal)
          | (rows, none, right, signal) =>
            (none, .join left right leftKey rightKey (.ofRows rightKey rows) ready true, signal)

/-- All rows of a flow that is started first. -/
def run (flow : Flow) (signal : Signal) : List Row × Option FlowFault × Flow × Signal :=
  match flow.start signal with
  | (some fault, flow, signal) => ([], some fault, flow, signal)
  | (none, flow, signal) => flow.drain signal

end Flow

end EntityQuery
