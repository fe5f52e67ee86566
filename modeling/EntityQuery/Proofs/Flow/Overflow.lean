import EntityQuery.Proofs.Flow.Stages

/-!
# Flows that fail with an overflow only

An aggregate of a column of numbers can fail for one reason, that a sum of whole numbers leaves its
range; all other aggregates never fail.  Every stage on top of a flow that fails in no other way
fails in no other way either.

A stage can be put on a flow if the columns that it names are there.  Together with the first fact
this is what plans need: the stages of a plan are all built, and run to an end or to an overflow.

## Main definitions

* `AggregateCall.Takes` : a function is applied to a column of the right type
* `Flow.OnlyOverflows` : a flow runs to its end or to an overflow

## Main statements

* `overflow_of_collect` : collecting groups fails with an overflow only
* `exists_groupBy`, `select_eq_ok`, `sortBy_eq_ok` : stages on columns that are there can be built
-/

namespace EntityQuery

/-! ## Tallies -/

/-- Adding a number, or any value to a tally that does not need numbers, fails with an overflow
only. -/
theorem Tally.overflow_of_add {fn : AggregateFn} {t : Tally} {v : Value} {type : ScalarType}
    (hv : v.conforms type = true) (hfn : fn.needsNumbers = true → type.isNumeric = true)
    {fault : TallyFault} (hadd : t.add fn v = .error fault) : fault = .overflow := by
  have hint (n : Int) (h : t.addInt n >>= (fun t => .ok t.counted) = .error fault) :
      fault = .overflow := by
    unfold addInt at h
    split at h
    · simp at h
    · simpa using h.symm
  have hnumber (hnumeric : type.isNumeric = true) (hnull : v.isNull = false)
      (h : t.addNumber fn v >>= (fun t => .ok t.counted) = .error fault) : fault = .overflow := by
    have hof := Value.ofType_of_conforms hv hnull
    cases type <;> simp [ScalarType.isNumeric, ScalarType.family] at hnumeric
    all_goals
      cases v <;> simp_all [Value.ofType, Value.type?, addNumber]
    all_goals exact hint _ h
  unfold add at hadd
  split at hadd
  · simp at hadd
  · next hnull =>
    cases fn with
    | count | min | max => simp at hadd
    | sum | avg => exact hnumber (hfn rfl) (by simpa using hnull) hadd

namespace AggregateCall

/-- The function is applied to a column, and to a column of numbers if it needs numbers; whole rows
are no numbers. -/
def Takes (schema : Schema) (call : AggregateCall) : Prop :=
  match call.column with
  | some i =>
    ∃ column, schema[i]? = some column ∧
      (call.fn.needsNumbers = true → column.type.isNumeric = true)
  | none => call.fn.needsNumbers = false

theorem checkCall_of_takes {schema : Schema} {call : AggregateCall} (hcall : call.Takes schema) :
    Flow.checkCall schema call = .ok () := by
  obtain ⟨fn, place⟩ := call
  cases place with
  | some i =>
      obtain ⟨column, hcolumn, hnumeric⟩ := hcall
      rw [Flow.checkCall]
      dsimp only
      rw [hcolumn]
      cases hneeds : fn.needsNumbers with
      | true => simp [hnumeric hneeds]
      | false => rfl
  | none =>
      have hneeds : fn.needsNumbers = false := hcall
      simp [Flow.checkCall, hneeds]

theorem overflow_of_add {schema : Schema} {call : AggregateCall} (hcall : call.Takes schema)
    {row : Row} (hrow : row.Conforms schema) {t : Tally} {fault : TallyFault}
    (hadd : t.add call.fn (call.value row) = .error fault) :
    fault = .overflow := by
  obtain ⟨fn, place⟩ := call
  cases place with
  | some i =>
      obtain ⟨column, hcolumn, hnumeric⟩ := hcall
      obtain ⟨v, hv, hconforms⟩ := hrow.getElem? hcolumn
      rw [AggregateCall.value] at hadd
      dsimp only at hadd
      rw [List.getD_eq_getElem?_getD, hv] at hadd
      exact Tally.overflow_of_add hconforms hnumeric hadd
  | none =>
      have hneeds : fn.needsNumbers = false := hcall
      have hboolean : (Value.boolean true).conforms .boolean = true := rfl
      exact Tally.overflow_of_add hboolean (fun hnumbers => by simp [hneeds] at hnumbers) hadd

end AggregateCall

namespace Group

variable {schema : Schema} {calls : List AggregateCall} {row : Row}

theorem overflow_of_addTo (hcalls : ∀ call ∈ calls, call.Takes schema) (hrow : row.Conforms schema)
    {tallies : List Tally} {fault : TallyFault} (hadd : (addTo row calls tallies).2 = some fault) :
    fault = .overflow := by
  induction calls generalizing tallies with
  | nil => simp [addTo] at hadd
  | cons call calls ih =>
      rw [List.forall_mem_cons] at hcalls
      cases tallies with
      | nil => simp [addTo] at hadd
      | cons t tallies =>
          rw [addTo] at hadd
          split at hadd
          · next found hfound =>
            obtain rfl := Option.some.inj hadd
            exact AggregateCall.overflow_of_add hcalls.1 hrow hfound
          · exact ih hcalls.2 hadd

theorem overflow_of_addRow (hcalls : ∀ call ∈ calls, call.Takes schema) (hrow : row.Conforms schema)
    {key : Key} {groups : List Group} {fault : TallyFault}
    (hadd : (addRow calls key row groups).2 = some fault) : fault = .overflow := by
  induction groups with
  | nil => exact overflow_of_addTo hcalls hrow hadd
  | cons group groups ih =>
      rw [addRow] at hadd
      split at hadd
      · exact overflow_of_addTo hcalls hrow hadd
      · exact ih hadd

/-- Collecting the groups of conforming rows fails with an overflow only. -/
theorem overflow_of_collect (hcalls : ∀ call ∈ calls, call.Takes schema) {columns : List Nat}
    {rows : List Row} (hrows : ∀ row ∈ rows, row.Conforms schema) {groups : List Group}
    {fault : TallyFault} (hcollect : collect calls columns groups rows = .error fault) :
    fault = .overflow := by
  induction rows generalizing groups with
  | nil => simp [collect] at hcollect
  | cons row rows ih =>
      rw [List.forall_mem_cons] at hrows
      rw [collect] at hcollect
      split at hcollect
      · exact ih hrows.2 hcollect
      · next found hadd =>
        obtain rfl := Except.error.inj hcollect
        exact overflow_of_addRow hcalls hrows.1 (congrArg Prod.snd hadd)

end Group

namespace Flow

/-! ## Safe flows -/

/-- The flow can be run, and ends without a fault or with an overflow. -/
def OnlyOverflows (flow : Flow) : Prop :=
  ∃ rows fault, flow.Runs rows fault ∧ (fault = none ∨ fault = some (.tally .overflow))

variable {input : Flow} {rows : List Row}

theorem OnlyOverflows.of_runs (hinput : input.Runs rows none) : input.OnlyOverflows :=
  ⟨rows, none, hinput, .inl rfl⟩

theorem OnlyOverflows.distinct (hinput : input.OnlyOverflows) (columns : List Nat) :
    (Flow.distinct input columns [] false).OnlyOverflows := by
  obtain ⟨rows, fault, hruns, hfault⟩ := hinput
  exact ⟨_, fault, runs_distinct hruns columns, hfault⟩

theorem OnlyOverflows.window (hinput : input.OnlyOverflows) (offset : Nat) (most : Option Nat) :
    (input.window offset most).OnlyOverflows := by
  obtain ⟨rows, fault, hruns, hfault⟩ := hinput
  obtain ⟨shown, last, hshown, hlast⟩ := runs_limit hruns most offset
  refine ⟨shown, last, hshown, ?_⟩
  rcases hlast with rfl | rfl
  · exact .inl rfl
  · exact hfault

theorem OnlyOverflows.project (hinput : input.OnlyOverflows) (columns : List (Nat × String)) :
    (Flow.project input columns false).OnlyOverflows := by
  obtain ⟨rows, fault, hruns, hfault⟩ := hinput
  exact ⟨_, fault, runs_project hruns columns, hfault⟩

theorem OnlyOverflows.sort (hinput : input.OnlyOverflows) (keys : List SortKey) :
    (Flow.sort input keys [] false).OnlyOverflows := by
  obtain ⟨rows, fault, hruns, hfault⟩ := hinput
  rcases hfault with rfl | rfl
  · exact .of_runs (runs_sort hruns keys)
  · exact ⟨[], _, runs_sort_fault hruns keys, .inr rfl⟩

/-! ## Building stages -/

theorem select_eq_ok {columns : List (Nat × String)}
    (hcolumns : ∀ column ∈ columns, column.1 < input.schema.length) :
    input.select columns = .ok (.project input columns false) := by
  unfold select
  dsimp only
  split
  · next index name hfound =>
    have hwide := List.find?_some hfound
    have hlt := hcolumns _ (List.mem_of_find?_eq_some hfound)
    exact absurd hlt (Nat.not_lt.mpr (of_decide_eq_true hwide))
  · rfl

theorem names_project {columns : List (Nat × String)}
    (hcolumns : ∀ column ∈ columns, column.1 < input.schema.length) (started : Bool) :
    (Flow.project input columns started).schema.names = columns.map (·.2) := by
  rw [schema, Schema.names]
  induction columns with
  | nil => rfl
  | cons column columns ih =>
      obtain ⟨index, name⟩ := column
      rw [List.forall_mem_cons] at hcolumns
      have hcolumn : input.schema[index]? = some input.schema[index] :=
        List.getElem?_eq_getElem hcolumns.1
      simp [hcolumn, ih hcolumns.2]

theorem sortBy_eq_ok {keys : List SortKey}
    (hkeys : ∀ key ∈ keys, key.column < input.schema.length) :
    input.sortBy keys = .ok (.sort input keys [] false) := by
  have hnone : keys.find? (fun key => decide (input.schema.length ≤ key.column)) = none := by
    rw [List.find?_eq_none]
    intro key hkey
    simpa using hkeys key hkey
  unfold sortBy
  dsimp only
  rw [hnone]
  rfl

/-- Conforming rows can be grouped by columns that are there, and columns of the right types
aggregated. -/
theorem exists_groupBy (hinput : input.Runs rows none)
    (hrows : ∀ row ∈ rows, row.Conforms input.schema) {columns : List Nat}
    (hcolumns : ∀ i ∈ columns, i < input.schema.length)
    {calls : List (AggregateCall × Option String)}
    (hcalls : ∀ call ∈ calls, call.1.Takes input.schema) (hany : columns ≠ [] ∨ calls ≠ []) :
    ∃ next, input.groupBy columns calls = .ok next ∧ next.OnlyOverflows ∧
      next.schema.names = (pick input.schema columns).map Column.name ++
        calls.map fun call => call.2.getD (callName input.schema call.1) := by
  set named := calls.map fun call =>
    (call.1, call.2.getD (callName input.schema call.1)) with hnamed
  refine ⟨.aggregate input columns named [] false false, ?_, ?_, ?_⟩
  -- the checks of grouping find nothing wrong
  · have hempty : ¬ (columns.isEmpty && calls.isEmpty) = true := by
      rw [Bool.and_eq_true, List.isEmpty_iff, List.isEmpty_iff]
      rintro ⟨rfl, rfl⟩
      simp at hany
    have hnone : columns.find? (fun i => decide (input.schema.length ≤ i)) = none := by
      rw [List.find?_eq_none]
      intro i hi
      simpa using hcolumns i hi
    have hcheck : calls.forM (fun call => checkCall input.schema call.1) = .ok () :=
      Outcome.forM_eq_ok_iff.mpr fun call hcall =>
        AggregateCall.checkCall_of_takes (hcalls call hcall)
    unfold groupBy
    dsimp only
    rw [if_neg hempty, hnone]
    exact Outcome.bind_eq_ok_iff.mpr ⟨(), hcheck, rfl⟩
  · refine ⟨_, _, runs_aggregate hinput columns named, ?_⟩
    -- the rows come without a fault, so only a tally can fail, and it does so by a sum
    cases hcollect : Group.collect (named.map (·.1)) columns [] rows with
    | ok groups => exact .inl rfl
    | error fault =>
        refine .inr ?_
        have htakes : ∀ call ∈ named.map (·.1), call.Takes input.schema := by
          intro call hcall
          rw [hnamed, List.map_map] at hcall
          obtain ⟨pair, hpair, rfl⟩ := List.mem_map.mp hcall
          exact hcalls pair hpair
        rw [aggregateFault, Group.overflow_of_collect htakes hrows hcollect]
  · rw [schema, Schema.names_append, Schema.names, Schema.names, List.map_map, hnamed, List.map_map]
    rfl

end Flow

end EntityQuery
