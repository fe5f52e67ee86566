import EntityQuery.Proofs.Flow.Listed
import EntityQuery.Proofs.Flow.Overflow
import EntityQuery.Proofs.Flow.Stable
import Mathlib.Algebra.Ring.Int.Defs
import Mathlib.Data.List.Infix

/-!
# What a tally holds

A tally takes the values of a group one by one.  In the end it holds how many there were that are
not null, and a sum of them or an extreme.  A sum is exact as long as it can be written at every
value; what it was at the first values cannot be seen from the whole sum, since numbers of both
signs may be added.  An extreme is the first of the values that nothing comes before.

The proofs go over the values from the last one, so that the invariant speaks of the values that
have been added.

## Main definitions

* `Value.SumsFit` : the sum of whole numbers can be written at every value
* `AggregateFn.IsExtreme` : the first of the values that nothing comes before
* `AggregateFn.Summarizes` : the aggregate of some values
* `AggregateCall.taken` : the values that a call takes from some rows

## Main statements

* `foldlM_add_sum_iff`, `foldlM_add_count`, `exists_foldlM_add_extreme` : the tally of some values
* `exists_over_iff` : a tally can be made exactly if no sum leaves its range
* `summarizes_of_over` : a tally summarizes the values of its rows
-/

namespace EntityQuery

/-! ## Sums of values -/

namespace Value

/-- A whole number; all other values count for nothing. -/
def whole : Value → Int
  | .int32 n => n.toInt
  | .int64 n => n.toInt
  | _ => 0

/-- The exact sum of the whole numbers among some values. -/
def wholeSum (values : List Value) : Int := (values.map whole).sum

/-- A sum of floating-point numbers with one more; all other values are left out. -/
def addFloat (sum : Float) : Value → Float
  | .float64 x => sum + x
  | _ => sum

/-- The sum of some numbers, the floating-point numbers added in their order. -/
def total (values : List Value) : Float := Float.ofInt (wholeSum values) + values.foldl addFloat 0

/-- The exact sum fits 64 bits at every value, from the first to the last. -/
def SumsFit (values : List Value) : Prop :=
  ∀ first, first <+: values → Width.fitsInt64 (wholeSum first) = true

instance (values : List Value) : Decidable (SumsFit values) :=
  decidable_of_iff (∀ first ∈ values.inits, Width.fitsInt64 (wholeSum first) = true)
    (forall_congr' fun first => by rw [List.mem_inits])

theorem wholeSum_append_singleton (values : List Value) (v : Value) :
    wholeSum (values ++ [v]) = wholeSum values + v.whole := by
  simp [wholeSum]

theorem sumsFit_nil : SumsFit [] := by
  intro first hfirst
  rw [List.prefix_nil.mp hfirst]
  rfl

theorem sumsFit_append_singleton_iff {values : List Value} {v : Value} :
    SumsFit (values ++ [v]) ↔
      SumsFit values ∧ Width.fitsInt64 (wholeSum values + v.whole) = true := by
  constructor
  · intro hfit
    refine ⟨fun first hfirst => hfit first (hfirst.trans (List.prefix_append ..)), ?_⟩
    rw [← wholeSum_append_singleton]
    exact hfit _ (List.prefix_refl _)
  · rintro ⟨hfit, hlast⟩ first hfirst
    rcases List.prefix_concat_iff.mp hfirst with rfl | hfirst
    · rwa [wholeSum_append_singleton]
    · exact hfit first hfirst

theorem SumsFit.fits {values : List Value} (hfit : SumsFit values) :
    Width.fitsInt64 (wholeSum values) = true :=
  hfit values (List.prefix_refl _)

end Value

/-! ## Aggregates of values -/

namespace AggregateFn

/-- The first of some values that none of them comes before. -/
def IsExtreme (fn : AggregateFn) (values : List Value) (kept : Value) : Prop :=
  ∃ before after, values = before ++ kept :: after ∧
    (∀ v ∈ before, kept.compare? v = some fn.replaces) ∧
    ∀ v ∈ after, v.compare? kept ≠ some fn.replaces

/-- The result of a function for some values that are not null, in the type of the result. -/
def Summarizes (fn : AggregateFn) (type : ScalarType) (values : List Value)
    (result : Value) : Prop :=
  match fn, values with
  | .count, values => result = .int64 (Int64.ofNat values.length)
  | _, [] => result = .null
  | .sum, values =>
    if type = .float64 then result = .float64 (Value.total values)
    else ∃ n, result = .int64 n ∧ n.toInt = Value.wholeSum values
  | .avg, values => result = .float64 (Value.total values / Float.ofNat values.length)
  | fn, values => fn.IsExtreme values result

/-- What comes before the extreme kept so far comes before all values. -/
theorem IsExtreme.replace {fn : AggregateFn} (hfn : fn = .min ∨ fn = .max) {type : ScalarType}
    {values : List Value} {kept v : Value} (hvalues : ∀ u ∈ values, u.ofType type = true)
    (hv : v.ofType type = true) (hkept : fn.IsExtreme values kept)
    (hreplace : v.compare? kept = some fn.replaces) : fn.IsExtreme (values ++ [v]) v := by
  obtain ⟨before, after, rfl, hbefore, hafter⟩ := hkept
  obtain ⟨order, _, horder⟩ := Value.exists_order type
  have hswap (a b : Value) : order a b = (order b a).swap := Std.OrientedCmp.eq_swap
  have hkeptType : kept.ofType type = true := hvalues kept (by simp)
  refine ⟨before ++ kept :: after, [], rfl, fun u hu => ?_, by simp⟩
  have hu' := hvalues u hu
  rw [horder v kept hv hkeptType, Option.some.injEq] at hreplace
  rw [horder v u hv hu', Option.some.injEq]
  -- none of the values comes before the one kept so far
  have hbehind : order u kept ≠ fn.replaces := by
    rcases List.mem_append.mp hu with hu | hu
    · have hfirst := hbefore u hu
      rw [horder kept u hkeptType hu', Option.some.injEq, hswap] at hfirst
      intro hreplaces
      rw [hreplaces] at hfirst
      rcases hfn with rfl | rfl <;> simp [replaces] at hfirst
    · rcases List.mem_cons.mp hu with rfl | hu
      · have hself : order u u = .eq := Std.ReflCmp.compare_self
        rw [hself]
        rcases hfn with rfl | rfl <;> simp [replaces]
      · have hnot := hafter u hu
        rwa [horder u kept hu' hkeptType, ne_eq, Option.some.injEq] at hnot
  rcases hfn with rfl | rfl
  -- it comes before the one kept so far, and that before none of the others
  · have hle : (order kept u).isLE = true := by
      rw [hswap, Ordering.isLE_swap]
      cases h : order u kept <;> simp [h, replaces] at hbehind ⊢
    exact Std.TransCmp.lt_of_lt_of_isLE hreplace hle
  · have hge : (order kept u).isGE = true := by
      rw [hswap, Ordering.isGE_swap]
      cases h : order u kept <;> simp [h, replaces] at hbehind ⊢
    exact Std.TransCmp.gt_of_gt_of_isGE hreplace hge

theorem IsExtreme.keep {fn : AggregateFn} {values : List Value} {kept v : Value}
    (hkept : fn.IsExtreme values kept) (hv : v.compare? kept ≠ some fn.replaces) :
    fn.IsExtreme (values ++ [v]) kept := by
  obtain ⟨before, after, rfl, hbefore, hafter⟩ := hkept
  refine ⟨before, after ++ [v], by simp, hbefore, fun u hu => ?_⟩
  rcases List.mem_append.mp hu with hu | hu
  · exact hafter u hu
  · obtain rfl := List.mem_singleton.mp hu
    exact hv

end AggregateFn

/-! ## Tallies of values -/

namespace Tally

variable {fn : AggregateFn} {type : ScalarType} {values : List Value} {t : Tally}

theorem foldlM_add_concat (fn : AggregateFn) (values : List Value) (v : Value) :
    (values ++ [v]).foldlM (add fn) t = values.foldlM (add fn) t >>= fun t => t.add fn v := by
  rw [List.foldlM_append]
  simp only [List.foldlM_cons, List.foldlM_nil, bind_pure]

/-- A number can be added exactly if the sum with it fits its range. -/
theorem add_sum_iff (hfn : fn.needsNumbers = true) (htype : type.isNumeric = true) {v : Value}
    (hv : v.ofType type = true) {n : Nat} {sum : Int} {floats : Float}
    (hsum : Width.fitsInt64 sum = true) :
    add fn ⟨n, sum, floats, none⟩ v = .ok t ↔
      Width.fitsInt64 (sum + v.whole) = true ∧
      t = ⟨n + 1, sum + v.whole, v.addFloat floats, none⟩ := by
  have hnumber : addNumber fn ⟨n, sum, floats, none⟩ v =
      if Width.fitsInt64 (sum + v.whole) then .ok ⟨n, sum + v.whole, v.addFloat floats, none⟩
      else .error .overflow := by
    obtain ⟨x, rfl⟩ := Value.exists_eq_ofContent hv
    cases type <;> simp [ScalarType.isNumeric, ScalarType.family] at htype
    · rfl
    · rfl
    · simp [Value.ofContent, addNumber, Value.whole, Value.addFloat, hsum]
  have hadd : add fn ⟨n, sum, floats, none⟩ v =
      (addNumber fn ⟨n, sum, floats, none⟩ v >>= fun t => .ok t.counted) := by
    cases fn <;> simp [AggregateFn.needsNumbers] at hfn <;> simp [add, Value.isNull_of_ofType hv]
  rw [hadd, hnumber]
  cases hfit : Width.fitsInt64 (sum + v.whole) with
  | true =>
      rw [if_pos rfl, Outcome.ok_bind, Except.ok.injEq, eq_comm]
      exact (and_iff_right rfl).symm
  | false => simp

/-- The tally of numbers holds their sum; there is none if the sum leaves its range at some of
them. -/
theorem foldlM_add_sum_iff (hfn : fn.needsNumbers = true) (htype : type.isNumeric = true)
    (hvalues : ∀ v ∈ values, v.ofType type = true) :
    values.foldlM (add fn) empty = .ok t ↔ Value.SumsFit values ∧
      t = ⟨values.length, Value.wholeSum values, values.foldl Value.addFloat 0, none⟩ := by
  induction values using List.reverseRecOn generalizing t with
  | nil =>
      rw [List.foldlM_nil, Outcome.pure_eq_ok, Except.ok.injEq, eq_comm]
      exact (and_iff_right Value.sumsFit_nil).symm
  | append_singleton values v ih =>
      rw [List.forall_mem_append, List.forall_mem_singleton] at hvalues
      rw [foldlM_add_concat, Outcome.bind_eq_ok_iff, Value.sumsFit_append_singleton_iff]
      simp only [ih hvalues.1, List.length_append, List.length_singleton, List.foldl_append,
        List.foldl_cons, List.foldl_nil, Value.wholeSum_append_singleton]
      constructor
      · rintro ⟨before, ⟨hfit, rfl⟩, hadd⟩
        obtain ⟨hlast, rfl⟩ := (add_sum_iff hfn htype hvalues.2 hfit.fits).mp hadd
        exact ⟨⟨hfit, hlast⟩, rfl⟩
      · rintro ⟨⟨hfit, hlast⟩, rfl⟩
        exact ⟨_, ⟨hfit, rfl⟩, (add_sum_iff hfn htype hvalues.2 hfit.fits).mpr ⟨hlast, rfl⟩⟩

/-- The tally of a count holds how many values there are. -/
theorem foldlM_add_count (hvalues : ∀ v ∈ values, v.isNull = false) :
    values.foldlM (add .count) empty = .ok ⟨values.length, 0, 0, none⟩ := by
  induction values using List.reverseRecOn with
  | nil => rfl
  | append_singleton values v ih =>
      rw [List.forall_mem_append, List.forall_mem_singleton] at hvalues
      rw [foldlM_add_concat, ih hvalues.1, Outcome.ok_bind, add, if_neg (by simp [hvalues.2]),
        List.length_append]
      rfl

/-- The tally of an extreme holds the first of the values that none comes before. -/
theorem exists_foldlM_add_extreme (hfn : fn = .min ∨ fn = .max)
    (hvalues : ∀ v ∈ values, v.ofType type = true) :
    ∃ extreme, values.foldlM (add fn) empty = .ok ⟨values.length, 0, 0, extreme⟩ ∧
      ((extreme = none ∧ values = []) ∨ ∃ kept,
        extreme = some kept ∧ fn.IsExtreme values kept) := by
  induction values using List.reverseRecOn with
  | nil => exact ⟨none, rfl, .inl ⟨rfl, rfl⟩⟩
  | append_singleton values v ih =>
      rw [List.forall_mem_append, List.forall_mem_singleton] at hvalues
      obtain ⟨extreme, hbefore, hextreme⟩ := ih hvalues.1
      have hadd (t : Tally) : add fn t v = .ok (t.keep fn v).counted := by
        rcases hfn with rfl | rfl <;> simp [add, Value.isNull_of_ofType hvalues.2]
      rw [foldlM_add_concat, hbefore, Outcome.ok_bind, hadd, List.length_append,
        List.length_singleton]
      rcases hextreme with ⟨rfl, rfl⟩ | ⟨kept, rfl, hkept⟩
      · exact ⟨some v, rfl, .inr ⟨v, rfl, [], [], rfl, by simp, by simp⟩⟩
      · by_cases hreplace : v.compare? kept = some fn.replaces
        · exact ⟨some v, by simp [keep, hreplace, counted],
            .inr ⟨v, rfl, hkept.replace hfn hvalues.1 hvalues.2 hreplace⟩⟩
        · exact ⟨some kept, by simp [keep, hreplace, counted],
            .inr ⟨kept, rfl, hkept.keep hreplace⟩⟩

/-! ## Results -/

/-- A tally of values of one type summarizes them. -/
theorem summarizes_of_foldlM {declared : ScalarType} (hvalues : ∀ v ∈ values, v.ofType type = true)
    (hnumeric : fn.needsNumbers = true → type.isNumeric = true)
    (ht : values.foldlM (add fn) empty = .ok t) :
    fn.Summarizes declared values (t.result fn declared) := by
  -- the least and the greatest value are kept in one way
  have hextreme (hfn : fn = .min ∨ fn = .max) : (values = [] ∧ t.result fn declared = .null) ∨
      fn.IsExtreme values (t.result fn declared) := by
    obtain ⟨extreme, hfold, hextreme⟩ := exists_foldlM_add_extreme hfn hvalues
    obtain rfl := Except.ok.inj (hfold.symm.trans ht)
    rcases hextreme with ⟨rfl, rfl⟩ | ⟨kept, rfl, hkept⟩
    · rcases hfn with rfl | rfl <;> exact .inl ⟨rfl, rfl⟩
    -- what has been kept is shown if any value has been counted
    · have hne : values.length ≠ 0 := by
        obtain ⟨before, after, rfl, -⟩ := hkept
        simp
      have hresult : result fn declared ⟨values.length, 0, 0, some kept⟩ = kept := by
        rcases hfn with rfl | rfl <;> simp [result, hne]
      rw [hresult]
      exact .inr hkept
  cases fn with
  | count =>
      rw [foldlM_add_count fun v hv => Value.isNull_of_ofType (hvalues v hv)] at ht
      rw [← Except.ok.inj ht]
      rfl
  | sum =>
      obtain ⟨hfit, rfl⟩ := (foldlM_add_sum_iff rfl (hnumeric rfl) hvalues).mp ht
      cases values with
      | nil => rfl
      | cons v values =>
          -- a sum is written as a floating-point number or, if it fits, as a whole one
          unfold AggregateFn.Summarizes
          dsimp only
          split
          · next hdeclared =>
            simp [result, hdeclared, total, Value.total]
          · next hdeclared =>
            refine ⟨Int64.ofInt (Value.wholeSum (v :: values)), ?_,
              Width.toInt_ofInt_of_fitsInt64 hfit.fits⟩
            simp [result, hdeclared]
  | avg =>
      obtain ⟨-, rfl⟩ := (foldlM_add_sum_iff rfl (hnumeric rfl) hvalues).mp ht
      cases values <;> rfl
  | min | max =>
      cases values with
      | nil =>
          rw [← Except.ok.inj ht]
          rfl
      | cons v values => exact (hextreme (by simp)).resolve_left fun h => List.cons_ne_nil _ _ h.1

end Tally

/-! ## Calls -/

namespace AggregateCall

variable {schema : Schema} {call : AggregateCall} {rows : List Row}

/-- The values that a call takes from some rows; null is passed over. -/
def taken (call : AggregateCall) (rows : List Row) : List Value :=
  (rows.map call.value).filter fun v => !v.isNull

theorem taken_cons_of_null {row : Row} (hnull : (call.value row).isNull = true) (rows : List Row) :
    call.taken (row :: rows) = call.taken rows := by
  rw [taken, List.map_cons, List.filter_cons_of_neg (by simp [hnull]), taken]

theorem taken_cons {row : Row} (hnull : (call.value row).isNull = false) (rows : List Row) :
    call.taken (row :: rows) = call.value row :: call.taken rows := by
  rw [taken, List.map_cons, List.filter_cons_of_pos (by simp [hnull]), taken]

theorem length_taken_of_rows (hcall : call.column = none) (rows : List Row) :
    (call.taken rows).length = rows.length := by
  have hvalue (row : Row) : call.value row = .boolean true := by rw [value, hcall]
  have hall : ∀ v ∈ rows.map call.value, (!v.isNull) = true := by
    intro v hv
    obtain ⟨row, -, rfl⟩ := List.mem_map.mp hv
    rw [hvalue]
    rfl
  rw [taken, List.filter_eq_self.mpr hall, List.length_map]

/-- The values that a call takes are of one type, numbers if the function needs them. -/
theorem exists_type_of_takes (hcall : call.Takes schema)
    (hrows : ∀ row ∈ rows, row.Conforms schema) :
    ∃ type, (∀ v ∈ call.taken rows, v.ofType type = true) ∧
      (call.fn.needsNumbers = true → type.isNumeric = true) := by
  obtain ⟨fn, place⟩ := call
  cases place with
  | none =>
      refine ⟨.boolean, fun v hv => ?_,
        fun hfn => absurd hfn (by simp [show fn.needsNumbers = false from hcall])⟩
      obtain ⟨row, -, rfl⟩ := List.mem_map.mp (List.mem_filter.mp hv).1
      rfl
  | some i =>
      obtain ⟨column, hcolumn, hnumeric⟩ := hcall
      refine ⟨column.type, fun v hv => ?_, hnumeric⟩
      obtain ⟨hv, hnull⟩ := List.mem_filter.mp hv
      obtain ⟨row, hrow, rfl⟩ := List.mem_map.mp hv
      obtain ⟨u, hu, hconforms⟩ := (hrows row hrow).getElem? hcolumn
      have hvalue : value ⟨fn, some i⟩ row = u := by
        change row.getD i .null = u
        rw [List.getD_eq_getElem?_getD, hu, Option.getD_some]
      rw [hvalue] at hnull ⊢
      exact Value.ofType_of_conforms hconforms (by simpa using hnull)

/-- A tally over rows is one of the values that are taken from them. -/
theorem over_eq_foldlM (t : Tally) :
    t.over call rows = (call.taken rows).foldlM (Tally.add call.fn) t := by
  induction rows generalizing t with
  | nil => rfl
  | cons row rows ih =>
      rw [Tally.over, List.foldlM_cons]
      change (t.add call.fn (call.value row) >>= fun t => t.over call rows) = _
      simp only [ih]
      cases hnull : (call.value row).isNull with
      | true =>
          have hadd : t.add call.fn (call.value row) = .ok t := by
            unfold Tally.add
            exact if_pos hnull
          rw [taken_cons_of_null hnull, hadd, Outcome.ok_bind]
      | false => rw [taken_cons hnull, List.foldlM_cons]

/-- A tally over rows can be made exactly if the sums of its values fit, where it makes sums. -/
theorem exists_over_iff (hcall : call.Takes schema) (hrows : ∀ row ∈ rows, row.Conforms schema) :
    (∃ t, Tally.empty.over call rows = .ok t) ↔
      (call.fn.needsNumbers = true → Value.SumsFit (call.taken rows)) := by
  obtain ⟨type, hvalues, hnumeric⟩ := exists_type_of_takes hcall hrows
  rw [over_eq_foldlM]
  cases hfn : call.fn.needsNumbers with
  | true =>
      simp only [Tally.foldlM_add_sum_iff hfn (hnumeric hfn) hvalues, exists_and_left, exists_eq,
        and_true, forall_const]
  | false =>
      simp only [Bool.false_eq_true, false_imp_iff, iff_true]
      obtain ⟨fn, place⟩ := call
      cases fn with
      | count => exact ⟨_, Tally.foldlM_add_count fun v hv => Value.isNull_of_ofType (hvalues v hv)⟩
      | sum | avg => simp [AggregateFn.needsNumbers] at hfn
      | min =>
          obtain ⟨extreme, hfold, -⟩ := Tally.exists_foldlM_add_extreme (.inl rfl) hvalues
          exact ⟨_, hfold⟩
      | max =>
          obtain ⟨extreme, hfold, -⟩ := Tally.exists_foldlM_add_extreme (.inr rfl) hvalues
          exact ⟨_, hfold⟩

/-- A tally over rows summarizes the values that are taken from them. -/
theorem summarizes_of_over (hcall : call.Takes schema) (hrows : ∀ row ∈ rows, row.Conforms schema)
    {t : Tally} (ht : Tally.empty.over call rows = .ok t) (declared : ScalarType) :
    call.fn.Summarizes declared (call.taken rows) (t.result call.fn declared) := by
  obtain ⟨type, hvalues, hnumeric⟩ := exists_type_of_takes hcall hrows
  rw [over_eq_foldlM] at ht
  exact Tally.summarizes_of_foldlM hvalues hnumeric ht

end AggregateCall

end EntityQuery
