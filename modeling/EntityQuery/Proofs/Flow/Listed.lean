import EntityQuery.Proofs.Flow.Built
import EntityQuery.Proofs.Flow.Distinct
import EntityQuery.Proofs.Value.SameKey

/-!
# Flows as lists

A flow of scans and stages stands for one list of rows.  Each stage is a function of lists: a filter
keeps the rows of which its predicate is true, a projection picks columns, a distinct stage keeps
the first row of every key, a sort puts the rows in order, a window drops rows and takes at most so
many, a join puts to every row on the left its matches on the right, or nulls if there are none, and
an aggregation makes one row of all rows of a key, in the order in which the keys are first seen.

These functions know nothing of steps, and of all that the stages remember between two rows.  They
are also eager: a predicate that has no truth for some row, or a sum that leaves its range, spoils
the whole list, although a flow may never come to that row.  What a flow yields is its list, if that
is not spoilt.

## Strategy

The stages remember keys and tables of keys.  A distinct stage and an aggregation both find the
blocks of rows of one key, by the keys that they have seen; `firsts_eq_heads` and
`collect_of_blocks` say so.  The match table of a join is covered by `rowsOf_ofRows`.

## Main definitions

* `Row.blocks` : rows in blocks of one key
* `Group.ofBlock` : the group of a block of rows
* `Flow.listed` : the list that a flow stands for

## Main statements

* `runs_of_listed` : a flow that has been built yields its list
-/

namespace EntityQuery

/-! ## Functions of lists -/

namespace Row

/-- The rows of which a predicate is true. -/
def kept (predicate : Expr) : List Row → Except ExprFault (List Row)
  | [] => pure []
  | row :: rest => do
    let keep ← predicate.holds row
    let rest ← kept predicate rest
    return if keep then row :: rest else rest

/-- Rows in blocks of one key, in the order in which the keys are first seen. -/
def blocks (key : Row → Key) : List Row → List (List Row)
  | [] => []
  | row :: rest =>
    (row :: rest.filter fun other => (key row).same (key other)) ::
      blocks key (rest.filter fun other => !(key row).same (key other))
termination_by rows => rows.length
decreasing_by
  rw [List.length_unattach]
  exact Nat.lt_succ_of_le
    (Nat.le_trans (List.length_filter_le _ _) (Nat.le_of_eq List.length_attach))

/-- The rows behind an offset, at most so many. -/
def windowOf (offset : Nat) (most : Option Nat) (rows : List Row) : List Row :=
  match most with
  | some n => (rows.drop offset).take n
  | none => rows.drop offset

/-- Every row on the left with its matches on the right, or with nulls if there are none. -/
def leftJoin (width leftKey rightKey : Nat) (lefts rights : List Row) : List Row :=
  lefts.flatMap fun left =>
    Flow.joined width left (rights.filter fun right =>
      (left.getD leftKey .null).meets (right.getD rightKey .null))

end Row

/-- The tally of a call over some rows. -/
def Tally.over (call : AggregateCall) (rows : List Row) (t : Tally) : Except TallyFault Tally :=
  rows.foldlM (fun t row => t.add call.fn (call.value row)) t

namespace Group

/-- The group of a block of rows: the key of the first, and for every call the tally over all of
them. -/
def ofBlock (calls : List AggregateCall) (columns : List Nat) (block : List Row) :
    Except TallyFault Group := do
  return ⟨(block.head?.map (Row.keyOf columns)).getD [], ← calls.mapM fun call =>
    Tally.empty.over call block⟩

/-- The groups of some rows; without columns to group by there is one even of no rows. -/
def ofRows (calls : List AggregateCall) (columns : List Nat) (rows : List Row) :
    Except TallyFault (List Group) :=
  (if rows.isEmpty && columns.isEmpty then [[]] else Row.blocks (Row.keyOf columns) rows).mapM
    (ofBlock calls columns)

end Group

/-- The list of rows that a flow stands for. -/
def Flow.listed : Flow → Except FlowFault (List Row)
  | .scan _ rows _ _ => pure rows
  | .filter input predicate _ => do (Row.kept predicate (← input.listed)).mapError .expr
  | .project input columns _ => return (← input.listed).map (Row.keyOf (columns.map (·.1)))
  | .distinct input columns _ _ =>
    return (Row.blocks (Row.keyFor columns) (← input.listed)).filterMap List.head?
  | .sort input keys _ _ => return Row.sorted keys (← input.listed)
  | .limit input most offset _ _ _ => return Row.windowOf offset most (← input.listed)
  | .aggregate input columns calls _ _ _ => do
    let groups ← (Group.ofRows (calls.map (·.1)) columns (← input.listed)).mapError .tally
    return groupRows input.schema calls groups
  | .join left right leftKey rightKey _ _ _ => do
    return Row.leftJoin right.schema.length leftKey rightKey (← left.listed) (← right.listed)

/-! ## Rows of a filter -/

theorem Row.exists_keep {predicate : Expr} {rows shown : List Row}
    (hkept : kept predicate rows = .ok shown) :
    ∃ keep : Row → Bool, (∀ row ∈ rows, predicate.holds row = .ok (keep row)) ∧
      shown = rows.filter keep := by
  refine ⟨fun row => (predicate.holds row).toOption.getD false, ?_⟩
  induction rows generalizing shown with
  | nil => exact ⟨by simp, (Except.ok.inj hkept).symm⟩
  | cons row rows ih =>
      obtain ⟨keep, hkeep, hkept⟩ := Outcome.bind_eq_ok_iff.mp hkept
      obtain ⟨rest, hrest, hkept⟩ := Outcome.bind_eq_ok_iff.mp hkept
      obtain ⟨hholds, rfl⟩ := ih hrest
      simp only [List.forall_mem_cons, List.filter_cons, hkeep]
      exact ⟨⟨rfl, hholds⟩, (Except.ok.inj hkept).symm⟩

/-! ## Blocks of rows of one key -/

/-- The first rows of all keys are the first rows of the blocks, without those whose keys have been
seen before. -/
theorem Row.firsts_eq_heads (columns : List Nat) (seen : List Key) (rows : List Row) :
    firsts columns seen rows =
      (blocks (keyFor columns) (rows.filter fun row =>
        !seen.any (·.same (row.keyFor columns)))).filterMap
        List.head? := by
  induction rows generalizing seen with
  | nil => simp [firsts, blocks]
  | cons row rows ih =>
      rw [firsts_cons]
      by_cases hseen : seen.any (·.same (row.keyFor columns)) = true
      · rw [if_pos hseen, ih, List.filter_cons_of_neg (by simp [hseen])]
      · rw [if_neg hseen, ih, List.filter_cons_of_pos (by simp [hseen]), blocks]
        simp [List.filter_filter, Bool.not_or]

namespace Group

variable {calls : List AggregateCall} {columns : List Nat}

theorem addTo_map {row : Row} {before after : AggregateCall → Tally}
    (hadd : ∀ call ∈ calls, (before call).add call.fn (call.value row) = .ok (after call)) :
    addTo row calls (calls.map before) = (calls.map after, none) := by
  induction calls with
  | nil => rfl
  | cons call calls ih =>
      rw [List.forall_mem_cons] at hadd
      simp [addTo, hadd.1, ih hadd.2]

theorem exists_next {row : Row} {rest : List Row} {before after : AggregateCall → Tally}
    (hover : ∀ call ∈ calls, (before call).over call (row :: rest) = .ok (after call)) :
    ∃ next : AggregateCall → Tally,
      (∀ call ∈ calls, (before call).add call.fn (call.value row) = .ok (next call)) ∧
      ∀ call ∈ calls, (next call).over call rest = .ok (after call) := by
  refine ⟨fun call => ((before call).add call.fn (call.value row)).toOption.getD .empty, ?_, ?_⟩
  all_goals
    intro call hcall
    obtain ⟨t, ht, hrest⟩ := Outcome.bind_eq_ok_iff.mp (hover call hcall)
    simp only [ht]
  · rfl
  · exact hrest

/-- Rows are added to the first group if they are of its key, and to the other groups if not. -/
theorem collect_cons {key : Key} {rows : List Row} {before after : AggregateCall → Tally}
    {groups others : List Group} (hmine : ∀ call ∈ calls,
      (before call).over call (rows.filter fun row => key.same (row.keyOf columns)) =
        .ok (after call))
    (hothers : collect calls columns groups (rows.filter fun row => !key.same (row.keyOf columns)) =
      .ok others) :
    collect calls columns (⟨key, calls.map before⟩ :: groups) rows =
      .ok (⟨key, calls.map after⟩ :: others) := by
  induction rows generalizing before groups with
  | nil =>
      have hsame : calls.map before = calls.map after :=
        List.map_congr_left fun call hcall => Except.ok.inj (hmine call hcall)
      rw [← Except.ok.inj hothers, hsame]
      rfl
  | cons row rows ih =>
      by_cases hkey : key.same (row.keyOf columns) = true
      · simp only [hkey, List.filter_cons_of_pos] at hmine
        rw [List.filter_cons_of_neg (by simp [hkey])] at hothers
        obtain ⟨next, hnext, hrest⟩ := exists_next hmine
        rw [collect, addRow, if_pos hkey, addTo_map hnext]
        exact ih hrest hothers
      · simp only [hkey, List.filter_cons_of_neg, Bool.false_eq_true, not_false_eq_true] at hmine
        rw [List.filter_cons_of_pos (by simp [hkey]), collect] at hothers
        rw [collect, addRow, if_neg hkey]
        generalize addRow calls (row.keyOf columns) row groups = added at hothers
        obtain ⟨groups, fault⟩ := added
        cases fault with
        | none => exact ih hmine hothers
        | some fault => simp at hothers

/-- The groups of some rows are those of their blocks. -/
theorem collect_of_blocks {rows : List Row} {groups : List Group}
    (hblocks : (Row.blocks (Row.keyOf columns) rows).mapM (ofBlock calls columns) = .ok groups) :
    collect calls columns [] rows = .ok groups := by
  induction hn : rows.length using Nat.strongRecOn generalizing rows groups with
  | _ n ih =>
      subst hn
      cases rows with
      | nil =>
          rw [Row.blocks] at hblocks
          exact hblocks
      | cons row rest =>
          rw [Row.blocks, List.mapM_cons] at hblocks
          obtain ⟨first, hfirst, hblocks⟩ := Outcome.bind_eq_ok_iff.mp hblocks
          obtain ⟨others, hothers, hblocks⟩ := Outcome.bind_eq_ok_iff.mp hblocks
          obtain ⟨tallies, htallies, hfirst⟩ := Outcome.bind_eq_ok_iff.mp hfirst
          have : Nonempty Tally := ⟨.empty⟩
          obtain ⟨after, hafter, rfl⟩ := Outcome.exists_map_of_mapM htallies
          obtain ⟨next, hnext, hrest⟩ := exists_next hafter
          rw [← Except.ok.inj hblocks, ← Except.ok.inj hfirst, collect, addRow, empty,
            addTo_map hnext]
          -- the first row has opened a group, and the others are added to it or lie in other blocks
          exact collect_cons hrest
            (ih _ (Nat.lt_succ_of_le (List.length_filter_le _ _)) hothers rfl)

/-- An aggregation hands out the groups of its rows. -/
theorem completed_of_ofRows {calls : List (AggregateCall × String)} {rows : List Row}
    {groups : List Group} (hgroups : ofRows (calls.map (·.1)) columns rows = .ok groups) :
    ∃ collected, collect (calls.map (·.1)) columns [] rows = .ok collected ∧
      Flow.completed columns calls collected = groups := by
  unfold ofRows at hgroups
  split at hgroups
  · next hempty =>
    rw [Bool.and_eq_true, List.isEmpty_iff, List.isEmpty_iff] at hempty
    -- all rows make one group, even if there are none
    obtain ⟨rfl, rfl⟩ := hempty
    have hnone : ((calls.map (·.1)).mapM fun call => Tally.empty.over call []) =
        .ok ((calls.map (·.1)).map fun _ => Tally.empty) := Outcome.mapM_eq_ok_map fun _ _ => rfl
    have hgroup : ofBlock (calls.map (·.1)) [] [] = .ok (.empty (calls.map (·.1)) []) := by
      rw [ofBlock, hnone]
      rfl
    rw [List.mapM_cons, hgroup] at hgroups
    exact ⟨[], rfl, Except.ok.inj hgroups⟩
  · next hempty =>
    refine ⟨groups, collect_of_blocks hgroups, ?_⟩
    -- without rows there are columns, and with rows there is a block
    have hgroups : ¬ (groups.isEmpty && columns.isEmpty) = true := by
      refine mt (fun h => ?_) hempty
      rw [Bool.and_eq_true, List.isEmpty_iff] at h ⊢
      refine ⟨?_, h.2⟩
      have hlength := (Outcome.mapM_eq_ok_iff.mp hgroups).length_eq
      cases rows with
      | nil => rfl
      | cons row rest => simp [Row.blocks, h.1] at hlength
    rw [Flow.completed, if_neg hgroups]

end Group

/-! ## What flows yield -/

namespace Flow

variable {flow input : Flow} {rows : List Row}

theorem runs_windowOf (hinput : Runs input rows none) (offset : Nat) (most : Option Nat) :
    Runs (input.window offset most) (Row.windowOf offset most rows) none := by
  obtain ⟨next, hstart, hschema, hnext⟩ := hinput.exists_yields
  have hshown := yields_limit hnext most offset 0 0
  rw [ite_self] at hshown
  have hrows : Row.windowOf offset most rows = windowed most 0 (rows.drop (offset - 0)) := by
    cases most <;> rfl
  rw [hrows]
  refine .started ?_ ?_ hshown
  · simp [window, start, hstart]
  · exact hschema

/-- A flow that has been built yields its list, if that is not spoilt. -/
theorem runs_of_listed (hflow : flow.Built) (hlisted : flow.listed = .ok rows) :
    flow.Runs rows none := by
  -- on how the flow has been built: the list of a stage is made of that of its input, and so are
  -- its rows
  induction hflow generalizing rows with
  | ofRows schema rows =>
      obtain rfl := Except.ok.inj hlisted
      exact runs_ofRows schema _
  | whereHolds _ hflow ih =>
      obtain ⟨predicate, rfl⟩ := exists_of_whereHolds hflow
      obtain ⟨before, hbefore, hlisted⟩ := Outcome.bind_eq_ok_iff.mp hlisted
      obtain ⟨keep, hkeep, rfl⟩ := Row.exists_keep (Outcome.mapError_eq_ok_iff.mp hlisted)
      exact runs_filter (ih hbefore) hkeep
  | @select _ _ columns _ hflow ih =>
      obtain rfl := eq_of_select hflow
      obtain ⟨before, hbefore, hlisted⟩ := Outcome.bind_eq_ok_iff.mp hlisted
      rw [← Except.ok.inj hlisted]
      exact runs_project (ih hbefore) columns
  | @distinctOn _ _ columns _ hflow ih =>
      obtain rfl := eq_of_distinctOn hflow
      obtain ⟨before, hbefore, hlisted⟩ := Outcome.bind_eq_ok_iff.mp hlisted
      -- nothing has been seen before, so no block is left out
      have hfirsts := Row.firsts_eq_heads columns [] before
      rw [List.filter_eq_self.mpr (by simp)] at hfirsts
      rw [← Except.ok.inj hlisted, ← hfirsts]
      exact runs_distinct (ih hbefore) columns
  | @sortBy _ _ keys _ hflow ih =>
      obtain rfl := eq_of_sortBy hflow
      obtain ⟨before, hbefore, hlisted⟩ := Outcome.bind_eq_ok_iff.mp hlisted
      rw [← Except.ok.inj hlisted]
      exact runs_sort (ih hbefore) keys
  | window _ offset most ih =>
      obtain ⟨before, hbefore, hlisted⟩ := Outcome.bind_eq_ok_iff.mp hlisted
      rw [← Except.ok.inj hlisted]
      exact runs_windowOf (ih hbefore) offset most
  | @groupBy input _ columns calls _ hflow ih =>
      obtain rfl := eq_of_groupBy hflow
      obtain ⟨before, hbefore, hlisted⟩ := Outcome.bind_eq_ok_iff.mp hlisted
      obtain ⟨groups, hgroups, hlisted⟩ := Outcome.bind_eq_ok_iff.mp hlisted
      obtain ⟨collected, hcollected, rfl⟩ :=
        Group.completed_of_ofRows (Outcome.mapError_eq_ok_iff.mp hgroups)
      have hruns := runs_aggregate (ih hbefore) columns
        (calls.map fun call => (call.1, call.2.getD (callName input.schema call.1)))
      rw [hcollected] at hruns
      rw [← Except.ok.inj hlisted]
      exact hruns
  | leftJoin _ _ hflow ihleft ihright =>
      obtain ⟨i, k, rfl⟩ := exists_of_leftJoin hflow
      obtain ⟨lefts, hlefts, hlisted⟩ := Outcome.bind_eq_ok_iff.mp hlisted
      obtain ⟨rights, hrights, hlisted⟩ := Outcome.bind_eq_ok_iff.mp hlisted
      rw [← Except.ok.inj hlisted, Row.leftJoin]
      -- the matches in the list are those that the table of the join finds
      simp only [← MatchTable.rowsOf_ofRows]
      exact runs_join (ihleft hlefts) (ihright hrights) i k

end Flow

end EntityQuery
