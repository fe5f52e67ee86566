import EntityQuery.Proofs.Flow.Grouping
import EntityQuery.Proofs.Flow.Total
import Mathlib.Algebra.BigOperators.Group.List.Basic

/-!
# Sums of whole numbers

A sum of whole numbers is exact.  It is made by adding the values in their order, and fails as soon
as it has left the range of 64 bits, even if later values would bring it back.  So the order of the
rows has no part in what a sum is, but it has one in whether there is a sum.  It has none where the
gains alone and the losses alone fit, since every sum of some of the values lies between the two.

## Main definitions

* `Value.IsSum` : the exact sum of some whole numbers
* `Value.gain`, `Value.loss` : the sums of the positive and of the negative numbers among some
  values
* `AggregateCall.SumsWhole` : a call that sums up a column of whole numbers

## Main statements

* `sumsFit_of_balanced` : values fit in every order if their gain and their loss do
* `sums_of_groupBy` : sums are exact, and fail exactly if they leave their range
* `overflow_of_rearranged` : rows with a sum, and an order in which they have none
-/

namespace EntityQuery

namespace Value

/-- The exact sum of the whole numbers among some values, or null if there are no values. -/
def IsSum (values : List Value) (result : Value) : Prop :=
  (values = [] ∧ result = .null) ∨
    (values ≠ [] ∧ ∃ n, result = .int64 n ∧ n.toInt = wholeSum values)

/-- The sum of the positive whole numbers among some values. -/
def gain (values : List Value) : Int := (values.map fun v => max v.whole 0).sum

/-- The sum of the negative whole numbers among some values. -/
def loss (values : List Value) : Int := (values.map fun v => min v.whole 0).sum

/-- The gains alone and the losses alone fit 64 bits. -/
def Balanced (values : List Value) : Prop :=
  Width.fitsInt64 (gain values) = true ∧ Width.fitsInt64 (loss values) = true

instance (values : List Value) : Decidable (Balanced values) := inferInstanceAs (Decidable (_ ∧ _))

variable {values others : List Value}

theorem isSum_of_summarizes {result : Value} (h : AggregateFn.sum.Summarizes .int64 values result) :
    IsSum values result := by
  cases values with
  | nil => exact .inl ⟨rfl, h⟩
  | cons v values => exact .inr ⟨List.cons_ne_nil _ _, h⟩

theorem IsSum.unique {first second : Value} (hfirst : IsSum values first)
    (hsecond : IsSum others second) (hperm : values.Perm others) : first = second := by
  rcases hfirst with ⟨rfl, rfl⟩ | ⟨hne, n, rfl, hn⟩
  · rcases hsecond with ⟨-, rfl⟩ | ⟨hne, -⟩
    · rfl
    · exact absurd hperm.nil_eq.symm hne
  · rcases hsecond with ⟨rfl, -⟩ | ⟨-, m, rfl, hm⟩
    · exact absurd hperm.eq_nil hne
    · have hsums : wholeSum values = wholeSum others := (hperm.map whole).sum_eq
      rw [Int64.toInt_inj.mp (hn.trans (hsums.trans hm.symm))]

theorem Balanced.of_perm (h : Balanced values) (hperm : values.Perm others) : Balanced others := by
  unfold Balanced gain loss at h ⊢
  rwa [← (hperm.map fun v => max v.whole 0).sum_eq, ← (hperm.map fun v => min v.whole 0).sum_eq]

/-- A sum of some of the values lies between the loss and the gain of all of them. -/
theorem wholeSum_between {first : List Value} (hfirst : first <+: values) :
    loss values ≤ wholeSum first ∧ wholeSum first ≤ gain values := by
  obtain ⟨rest, rfl⟩ := hfirst
  have hrest : loss rest ≤ 0 ∧ 0 ≤ gain rest := by
    induction rest with
    | nil => exact ⟨Int.le_refl 0, Int.le_refl 0⟩
    | cons v rest ih =>
        simp only [loss, gain, List.map_cons, List.sum_cons] at ih ⊢
        omega
  induction first with
  | nil => exact hrest
  | cons v first ih =>
      simp only [loss, gain, wholeSum, List.cons_append, List.map_cons, List.sum_cons] at ih ⊢
      omega

/-- The sum of chosen values is the sum of what the choice leaves of every value. -/
theorem wholeSum_filter {p : Value → Bool} {part : Value → Int}
    (hpart : ∀ v, part v = if p v then v.whole else 0) (values : List Value) :
    wholeSum (values.filter p) = (values.map part).sum := by
  induction values with
  | nil => rfl
  | cons v values ih =>
      rw [List.map_cons, List.sum_cons, hpart v, ← ih, List.filter_cons]
      split
      · rfl
      · rw [Int.zero_add]

theorem wholeSum_filter_gain (values : List Value) :
    wholeSum (values.filter fun v => decide (0 ≤ v.whole)) = gain values := by
  apply wholeSum_filter
  intro v
  simp only [decide_eq_true_eq]
  omega

theorem wholeSum_filter_loss (values : List Value) :
    wholeSum (values.filter fun v => decide (v.whole ≤ 0)) = loss values := by
  apply wholeSum_filter
  intro v
  simp only [decide_eq_true_eq]
  omega

/-- Values fit in every order if their gain and their loss do. -/
theorem sumsFit_of_balanced (h : Balanced values) : SumsFit values := by
  intro first hfirst
  obtain ⟨hlower, hupper⟩ := wholeSum_between hfirst
  simp only [Balanced, Width.fitsInt64, Bool.and_eq_true, decide_eq_true_eq] at h ⊢
  omega

end Value

/-! ## Sums of groups -/

/-- The call sums up a column of whole numbers. -/
def AggregateCall.SumsWhole (schema : Schema) (call : AggregateCall) : Prop :=
  call.fn = .sum ∧ ∃ c column, call.column = some c ∧ schema[c]? = some column ∧
    column.type.isInteger = true

theorem AggregateCall.SumsWhole.resultType_eq {schema : Schema} {call : AggregateCall}
    (h : call.SumsWhole schema) : call.resultType schema = .int64 := by
  obtain ⟨hfn, c, column, hc, hcolumn, hinteger⟩ := h
  rw [resultType, hfn, hc, Option.bind_some, hcolumn, Option.map_some]
  cases htype : column.type <;> simp_all [ScalarType.isInteger, AggregateFn.resultType]

theorem AggregateCall.taken_filter (call : AggregateCall) (p : Value → Bool) (rows : List Row) :
    call.taken (rows.filter fun row => p (call.value row)) = (call.taken rows).filter p := by
  have hmap : (rows.filter fun row => p (call.value row)).map call.value =
      (rows.map call.value).filter p := by
    rw [List.filter_map]
    rfl
  rw [taken, taken, hmap, List.filter_comm]

namespace Row

variable {schema : Schema} {columns : List Nat} {calls : List AggregateCall}
  {rows others : List Row}

/-- The row of a group has its key, and the exact sums of its whole numbers. -/
def HasSums (schema : Schema) (columns : List Nat) (calls : List AggregateCall)
    (group : Key × List Row) (row : Row) : Prop :=
  row.take columns.length = group.1 ∧ ∀ k call, calls[k]? = some call → call.SumsWhole schema →
    ∃ v, row[columns.length + k]? = some v ∧ Value.IsSum (call.taken group.2) v

/-- To every row there is one of the same key with the same sums of whole numbers. -/
def SameSums (schema : Schema) (columns : List Nat) (calls : List AggregateCall)
    (shown others : List Row) : Prop :=
  ∀ row ∈ shown, ∃ other ∈ others,
    Key.same (row.take columns.length) (other.take columns.length) = true ∧
    ∀ k call, calls[k]? = some call → call.SumsWhole schema →
      other[columns.length + k]? = row[columns.length + k]?

/-- In each group the gains alone and the losses alone fit, for each call that makes sums. -/
def Balanced (columns : List Nat) (calls : List AggregateCall) (rows : List Row) : Prop :=
  ∀ row ∈ rows, ∀ call ∈ calls, call.fn.needsNumbers = true →
    Value.Balanced (call.taken (ofKey columns (row.keyOf columns) rows))

instance (columns : List Nat) (calls : List AggregateCall) (rows : List Row) :
    Decidable (Balanced columns calls rows) :=
  inferInstanceAs (Decidable (∀ row ∈ rows, ∀ call ∈ calls, call.fn.needsNumbers = true →
    Value.Balanced (call.taken (ofKey columns (row.keyOf columns) rows))))

theorem hasSums_of_isSummary {group : Key × List Row} {row : Row}
    (hlength : group.1.length = columns.length) (h : IsSummary schema calls group row) :
    HasSums schema columns calls group row := by
  obtain ⟨results, rfl, hresults⟩ := h
  refine ⟨List.take_left' hlength, fun k call hcall hsums => ?_⟩
  obtain ⟨hlt, rfl⟩ := List.getElem?_eq_some_iff.mp hcall
  have hlt' : k < results.length := hresults.length_eq ▸ hlt
  have hsummary := hresults.get hlt hlt'
  refine ⟨results[k], ?_, ?_⟩
  · rw [← hlength, List.getElem?_append_right (Nat.le_add_right ..), Nat.add_sub_cancel_left]
    exact List.getElem?_eq_getElem hlt'
  · simp only [List.get_eq_getElem] at hsummary
    rw [hsums.resultType_eq, hsums.1] at hsummary
    exact Value.isSum_of_summarizes hsummary

theorem Balanced.sumsFit (h : Balanced columns calls rows) (hperm : rows.Perm others) :
    SumsFit columns calls others := by
  intro row hrow call hcall hneeds
  have htaken : (call.taken (ofKey columns (row.keyOf columns) rows)).Perm
      (call.taken (ofKey columns (row.keyOf columns) others)) := ((hperm.filter _).map _).filter _
  exact Value.sumsFit_of_balanced
    ((h row (hperm.mem_iff.mpr hrow) call hcall hneeds).of_perm htaken)

/-- If the sums fit in every order, any part of the values of a group can come first. -/
theorem fits_of_rearranged (h : ∀ others, rows.Perm others → SumsFit columns calls others)
    {row : Row} (hrow : row ∈ rows) {call : AggregateCall} (hcall : call ∈ calls)
    (hneeds : call.fn.needsNumbers = true) (p : Value → Bool) :
    Width.fitsInt64
      (Value.wholeSum ((call.taken (ofKey columns (row.keyOf columns) rows)).filter p)) = true := by
  have hperm := List.filter_append_perm (fun row => p (call.value row)) rows
  have hfit := h _ hperm.symm row (hperm.mem_iff.mpr hrow) call hcall hneeds
  have htaken :
      call.taken (ofKey columns (row.keyOf columns) (rows.filter fun row => p (call.value row))) =
      (call.taken (ofKey columns (row.keyOf columns) rows)).filter p := by
    rw [← AggregateCall.taken_filter, ofKey, ofKey, List.filter_comm]
  have hsplit (first second : List Row) :
      call.taken (ofKey columns (row.keyOf columns) (first ++ second)) =
      call.taken (ofKey columns (row.keyOf columns) first) ++
        call.taken (ofKey columns (row.keyOf columns) second) := by
    simp [ofKey, AggregateCall.taken]
  rw [hsplit, htaken] at hfit
  exact hfit _ (List.prefix_append ..)

theorem balanced_iff : Balanced columns calls rows ↔ ∀ others,
    rows.Perm others → SumsFit columns calls others := by
  constructor
  · intro h others hperm
    exact h.sumsFit hperm
  · intro h row hrow call hcall hneeds
    have hpart := fits_of_rearranged h hrow hcall hneeds
    exact ⟨Value.wholeSum_filter_gain _ ▸ hpart _, Value.wholeSum_filter_loss _ ▸ hpart _⟩

end Row

/-! ## Aggregations -/

namespace Flow

variable {input flow : Flow} {columns : List Nat} {calls : List (AggregateCall × Option String)}
  {rows : List Row}

/-- An aggregation that ends without a fault has made sums that fit, and yields the groups with
them. -/
theorem hasSums_of_runs (hflow : input.groupBy columns calls = .ok flow)
    (hinput : input.Runs rows none) (hrows : ∀ row ∈ rows, row.Conforms input.schema)
    {shown : List Row} (hshown : flow.Runs shown none) :
    List.Forall₂ (Row.HasSums input.schema columns (calls.map (·.1)))
      (Row.groupsOf columns rows) shown := by
  have hgrouping := Row.isGrouping_groupsOf (Row.KeyedBy.of_conforms hrows columns)
  by_cases hfit : Row.SumsFit columns (calls.map (·.1)) rows
  · obtain ⟨others, hruns, hsummaries⟩ := exists_summaries hflow hinput hrows hfit
    obtain ⟨rfl, -⟩ := hshown.unique hruns
    have hlengths : ∀ group ∈ Row.groupsOf columns rows, group.1.length = columns.length :=
      fun group hgroup => hgrouping.length_key hgroup
    exact ((List.forall₂_and_left _ _).mpr ⟨hlengths, hsummaries⟩).imp fun group row h =>
      Row.hasSums_of_isSummary h.1 h.2
  · obtain ⟨-, hfault⟩ := hshown.unique (runs_overflow hflow hinput hrows hfit)
    simp at hfault

/-- A sum of whole numbers is exact where the sums fit at every row; where they do not, the
aggregation fails.  No other order of the rows gives another sum, and no order is without sums
exactly if gains and losses fit. -/
theorem sums_of_groupBy (hflow : input.groupBy columns calls = .ok flow)
    (hinput : input.Runs rows none) (hrows : ∀ row ∈ rows, row.Conforms input.schema) :
    (Row.SumsFit columns (calls.map (·.1)) rows → ∃ groups shown, flow.Runs shown none ∧
      Row.IsGrouping columns rows groups ∧
      List.Forall₂ (Row.HasSums input.schema columns (calls.map (·.1))) groups shown) ∧
    (¬ Row.SumsFit columns (calls.map (·.1)) rows → flow.Runs [] (some (.tally .overflow))) ∧
    (∀ (other next : Flow) (others : List Row),
      other.schema = input.schema → other.groupBy columns calls = .ok next →
      other.Runs others none → rows.Perm others → ∀ shown otherShown, flow.Runs shown none →
      next.Runs otherShown none →
      Row.SameSums input.schema columns (calls.map (·.1)) shown otherShown) ∧
    (Row.Balanced columns (calls.map (·.1)) rows ↔
      ∀ others, rows.Perm others → Row.SumsFit columns (calls.map (·.1)) others) := by
  have hgrouping := Row.isGrouping_groupsOf (Row.KeyedBy.of_conforms hrows columns)
  refine ⟨fun hfit => ?_, runs_overflow hflow hinput hrows, ?_, Row.balanced_iff⟩
  · obtain ⟨shown, hshown, -⟩ := exists_summaries hflow hinput hrows hfit
    exact ⟨_, shown, hshown, hgrouping, hasSums_of_runs hflow hinput hrows hshown⟩
  · intro other next others hschema hnext hother hperm shown otherShown hshown hotherShown row hrow
    have hothers : ∀ row ∈ others, row.Conforms other.schema := by
      rw [hschema]
      exact fun row hrow => hrows row (hperm.mem_iff.mpr hrow)
    have hsums := hasSums_of_runs hflow hinput hrows hshown
    have hotherSums := hasSums_of_runs hnext hother hothers hotherShown
    have hotherGrouping := Row.isGrouping_groupsOf (Row.KeyedBy.of_conforms hothers columns)
    obtain ⟨group, hgroup, hkey, hrow⟩ := Outcome.exists_of_mem_right hsums hrow
    -- the same rows in another order have the same groups, up to the order within each
    obtain ⟨otherGroup, hotherGroup, hsame, hmembers⟩ :=
      hgrouping.exists_of_perm hotherGrouping hperm hgroup
    obtain ⟨otherRow, hotherRow, hotherKey, hotherSums⟩ :=
      Outcome.exists_of_mem_left hotherSums hotherGroup
    refine ⟨otherRow, hotherRow, ?_, fun k call hcall hwhole => ?_⟩
    · rwa [hkey, hotherKey]
    · obtain ⟨v, hv, hsum⟩ := hrow k call hcall hwhole
      obtain ⟨u, hu, hotherSum⟩ := hotherSums k call hcall (hschema ▸ hwhole)
      rw [hv, hu, hsum.unique hotherSum ((hmembers.map _).filter _)]

/-- Three numbers with the greatest sum that there can be. -/
def greatestSum : List Row := [[.int64 9223372036854775807], [.int64 (-1)], [.int64 1]]

/-- The numbers are added up in their order, though there are orders in which they cannot be. -/
theorem sums_of_groupBy_greatest :
    ∃ flow groups,
      (ofRows [⟨"n", .int64⟩] greatestSum).groupBy [] [(⟨.sum, some 0⟩, none)] = .ok flow ∧
      flow.Runs [[.int64 9223372036854775807]] none ∧ Row.IsGrouping [] greatestSum groups ∧
      List.Forall₂ (Row.HasSums [⟨"n", .int64⟩] [] [⟨.sum, some 0⟩]) groups
        [[.int64 9223372036854775807]] ∧
      ¬ ∀ others, greatestSum.Perm others → Row.SumsFit [] [⟨.sum, some 0⟩] others := by
  have hflow : ∃ flow, (ofRows [⟨"n", .int64⟩] greatestSum).groupBy [] [(⟨.sum, some 0⟩, none)] =
      .ok flow := ⟨_, rfl⟩
  obtain ⟨flow, hflow⟩ := hflow
  have hrows : ∀ row ∈ greatestSum, Row.Conforms [⟨"n", .int64⟩] row := by
    simp [greatestSum, Row.Conforms, Value.conforms, Value.ofType, Value.type?, Value.isProper,
      Value.isNull]
  obtain ⟨hfits, -, -, hbalanced⟩ := sums_of_groupBy hflow (runs_ofRows _ _) hrows
  obtain ⟨groups, shown, hruns, hgroups, hsums⟩ := hfits (by decide)
  obtain ⟨last, hrun⟩ := run_of_runs hruns
  have hshown : shown = [[.int64 9223372036854775807]] := by
    obtain rfl := Except.ok.inj hflow
    exact (congrArg Prod.fst hrun).symm
  subst hshown
  exact ⟨flow, groups, hflow, hruns, hgroups, hsums, mt hbalanced.mpr (by decide)⟩

/-- The numbers in another order: their sum fits, but it is left on the way. -/
theorem overflow_of_rearranged :
    ∃ (flow : Flow) (rows : List Row),
      (ofRows [⟨"n", .int64⟩] rows).groupBy [] [(⟨.sum, some 0⟩, none)] = .ok flow ∧
      rows = [[.int64 9223372036854775807], [.int64 1], [.int64 (-1)]] ∧ rows.Perm greatestSum ∧
      Width.fitsInt64 (Value.wholeSum (AggregateCall.taken ⟨.sum, some 0⟩ rows)) = true ∧
      flow.Runs [] (some (.tally .overflow)) := by
  have hflow : ∃ flow,
      (ofRows [⟨"n", .int64⟩] [[.int64 9223372036854775807], [.int64 1], [.int64 (-1)]]).groupBy []
      [(⟨.sum, some 0⟩, none)] = .ok flow := ⟨_, rfl⟩
  obtain ⟨flow, hflow⟩ := hflow
  refine ⟨flow, _, hflow, rfl, (List.Perm.swap ..).cons _, by decide, ?_⟩
  refine runs_overflow hflow (runs_ofRows _ _) ?_ (by decide)
  simp [Row.Conforms, Value.conforms, Value.ofType, Value.type?, Value.isProper, Value.isNull,
    ofRows, schema]

end Flow

end EntityQuery
