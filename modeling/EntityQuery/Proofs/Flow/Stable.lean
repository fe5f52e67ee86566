import EntityQuery.Proofs.Flow.Rows
import EntityQuery.Proofs.Flow.Sorting
import EntityQuery.Proofs.Value.Conforming

/-!
# Sorting is stable

Sorted rows ascend, and rows that are equal in order keep the order in which they were.  That much
determines them, so sorting is the stable sort by its keys.  It takes an order to say so: where the
keys compare values of different types, which count as equal in order, rows need not stand in any
order, and there is nothing to ascend in.

The proof goes over the rows from the last one, as the sort does.  A row is put behind all rows that
are not greater, so it comes to stand behind all that are equal to it.

## Main definitions

* `SortKey.Orders` : some keys order some rows
* `SortKey.withNulls` : an order of values with null
* `SortKey.Uniform` : rows that have values of one type in each column they are sorted by
* `Row.IsStableSort` : rows in order, those that are equal in order as they were

## Main statements

* `compareBy_swap` : two rows compare the other way when they change places
* `Uniform.orders`, `orders_of_conforms` : keys order rows that have values of one type in each
  column, as those of a schema do
* `isStableSort_sorted` : sorting by keys that order the rows is stable
-/

namespace EntityQuery

/-! ## Comparing the other way -/

theorem Value.compare?_swap (a b : Value) : b.compare? a = (a.compare? b).map Ordering.swap := by
  have hfloat (x y : Float) :
      Binary64.compare? y x = (Binary64.compare? x y).map Ordering.swap := by
    simp only [Binary64.compare?, Bool.and_comm (Binary64.isNumber y)]
    split
    · exact congrArg some Std.OrientedCmp.eq_swap
    · rfl
  cases a <;> cases b
  all_goals first
    | rfl
    | exact hfloat _ _
    | exact congrArg some Std.OrientedCmp.eq_swap

namespace SortKey

variable {keys : List SortKey} {a b : Row}

theorem compareValues_swap (key : SortKey) (a b : Value) :
    key.compareValues b a = (key.compareValues a b).swap := by
  unfold compareValues
  rw [Value.compare?_swap a b]
  cases a.isNull <;> cases b.isNull <;> cases key.direction <;> cases key.nullsFirst <;>
    cases a.compare? b <;>
    simp

/-- Two rows compare the other way when they change places. -/
theorem compareBy_swap (keys : List SortKey) (a b : Row) :
    compareBy keys b a = (compareBy keys a b).swap := by
  induction keys with
  | nil => rfl
  | cons key keys ih =>
      change (key.compareRows b a).then (compareBy keys b a) =
        ((key.compareRows a b).then (compareBy keys a b)).swap
      rw [ih, compareRows, compareRows, compareValues_swap, Ordering.swap_then]

/-- The rows stand in an order: what is not greater than a row that is not greater than another is
not greater than the other. -/
def Orders (keys : List SortKey) (rows : List Row) : Prop :=
  ∀ a ∈ rows, ∀ b ∈ rows, ∀ c ∈ rows, compareBy keys a b ≠ .gt → compareBy keys b c ≠ .gt →
    compareBy keys a c ≠ .gt

theorem Orders.of_subset {rows others : List Row} (horders : Orders keys rows)
    (hrows : ∀ row ∈ others, row ∈ rows) : Orders keys others :=
  fun a ha b hb d hd => horders a (hrows a ha) b (hrows b hb) d (hrows d hd)

theorem compareBy_ne_gt_iff : compareBy keys a b ≠ .gt ↔ compareBy keys b a ≠ .lt := by
  rw [compareBy_swap keys b a, ne_eq, ne_eq, Ordering.swap_eq_gt]

/-! ## Columns of one type -/

/-- An order of values, with null before or behind all others. -/
def withNulls (nullsFirst : Bool) (cmp : Value → Value → Ordering) (a b : Value) : Ordering :=
  match a.isNull, b.isNull with
  | true, true => .eq
  | true, false => if nullsFirst then .lt else .gt
  | false, true => if nullsFirst then .gt else .lt
  | false, false => cmp a b

theorem transCmp_withNulls (nullsFirst : Bool) (cmp : Value → Value → Ordering) [Std.TransCmp cmp] :
    Std.TransCmp (withNulls nullsFirst cmp) where
  eq_swap {a b} := by
    have hswap : cmp a b = (cmp b a).swap := Std.OrientedCmp.eq_swap
    unfold withNulls
    cases a.isNull <;> cases b.isNull <;> cases nullsFirst <;> first | rfl | exact hswap
  isLE_trans {a b c} hab hbc := by
    unfold withNulls at hab hbc ⊢
    cases ha : a.isNull <;> cases hb : b.isNull <;> cases hc : c.isNull <;> cases nullsFirst <;>
      simp_all
    all_goals exact Std.TransCmp.isLE_trans hab hbc

theorem transCmp_swap (cmp : Value → Value → Ordering) [Std.TransCmp cmp] :
    Std.TransCmp fun a b => (cmp a b).swap where
  eq_swap := congrArg Ordering.swap Std.OrientedCmp.eq_swap
  isLE_trans {a b c} hab hbc := by
    rw [← Std.OrientedCmp.eq_swap] at hab hbc ⊢
    exact Std.TransCmp.isLE_trans hbc hab

/-- The values of a type stand in one order with null, whichever way a key goes. -/
theorem exists_order (key : SortKey) (t : ScalarType) :
    ∃ order : Value → Value → Ordering, Std.TransCmp order ∧
      ∀ a b : Value, a.conforms t = true → b.conforms t = true →
        key.compareValues a b = order a b := by
  obtain ⟨order, _, horder⟩ := Value.exists_order t
  have := transCmp_swap order
  have hof {a b : Value} (ha : a.conforms t = true) (hb : b.conforms t = true)
      (hanull : a.isNull = false)
      (hbnull : b.isNull = false) : a.compare? b = some (order a b) :=
    horder a b (Value.ofType_of_conforms ha hanull) (Value.ofType_of_conforms hb hbnull)
  cases hdirection : key.direction with
  | asc =>
      refine ⟨withNulls key.nullsFirst order, transCmp_withNulls _ _, fun a b ha hb => ?_⟩
      unfold compareValues withNulls
      cases hanull : a.isNull <;> cases hbnull : b.isNull <;> try rfl
      simp [hdirection, hof ha hb hanull hbnull]
  | desc =>
      refine ⟨withNulls key.nullsFirst fun a b => (order a b).swap, transCmp_withNulls _ _,
        fun a b ha hb => ?_⟩
      unfold compareValues withNulls
      cases hanull : a.isNull <;> cases hbnull : b.isNull <;> try rfl
      simp [hdirection, hof ha hb hanull hbnull]

/-- The rows have null or a value of one type in the column of each key. -/
def Uniform (keys : List SortKey) (rows : List Row) : Prop :=
  ∀ key ∈ keys, ∃ t : ScalarType, ∀ row ∈ rows, ∃ v, row[key.column]? = some v ∧ v.conforms t = true

theorem Uniform.conforms_cell {key : SortKey} {rows : List Row} (huniform : Uniform keys rows)
    (hkey : key ∈ keys) :
    ∃ t : ScalarType, ∀ row ∈ rows, (row.getD key.column .null).conforms t = true := by
  obtain ⟨t, ht⟩ := huniform key hkey
  refine ⟨t, fun row hrow => ?_⟩
  obtain ⟨v, hv, hconforms⟩ := ht row hrow
  rwa [List.getD_eq_getElem?_getD, hv]

theorem uniform_of_conforms {schema : Schema} (hkeys : ∀ key ∈ keys, key.column < schema.length)
    {rows : List Row} (hrows : ∀ row ∈ rows, row.Conforms schema) : Uniform keys rows :=
  fun key hkey =>
    ⟨_, fun row hrow => (hrows row hrow).getElem? (List.getElem?_eq_getElem (hkeys key hkey))⟩

/-- Rows with values of one type in each column stand in one order. -/
theorem exists_rowOrder {rows : List Row} (huniform : Uniform keys rows) :
    ∃ order : Row → Row → Ordering, Std.TransCmp order ∧
      ∀ a ∈ rows, ∀ b ∈ rows, compareBy keys a b = order a b := by
  induction keys with
  | nil =>
      exact ⟨fun _ _ => .eq, { eq_swap := rfl, isLE_trans := fun _ _ => rfl }, fun _ _ _ _ => rfl⟩
  | cons key keys ih =>
      obtain ⟨later, _, hlater⟩ := ih fun key hkey => huniform key (List.mem_cons_of_mem _ hkey)
      obtain ⟨t, hcell⟩ := huniform.conforms_cell List.mem_cons_self
      obtain ⟨first, _, hfirst⟩ := key.exists_order t
      have _ := Value.transCmp_map (fun row : Row => row.getD key.column .null) first
      refine ⟨compareLex (fun a b => first (a.getD key.column .null) (b.getD key.column .null))
        later, inferInstance,
        fun a ha b hb => ?_⟩
      change (key.compareRows a b).then (compareBy keys a b) = _
      rw [hlater a ha b hb, compareRows, hfirst _ _ (hcell a ha) (hcell b hb)]
      rfl

/-- Keys order rows with values of one type in each column. -/
theorem Uniform.orders {rows : List Row} (huniform : Uniform keys rows) : Orders keys rows := by
  obtain ⟨order, _, horder⟩ := exists_rowOrder huniform
  intro a ha b hb d hd hab hbd
  rw [horder a ha d hd]
  rw [horder a ha b hb] at hab
  rw [horder b hb d hd] at hbd
  rw [ne_eq, ← Ordering.isLE_iff_ne_gt] at hab hbd ⊢
  exact Std.TransCmp.isLE_trans hab hbd

/-- Keys order the rows of a schema. -/
theorem orders_of_conforms {schema : Schema} (hkeys : ∀ key ∈ keys, key.column < schema.length)
    {rows : List Row} (hrows : ∀ row ∈ rows, row.Conforms schema) : Orders keys rows :=
  (uniform_of_conforms hkeys hrows).orders

end SortKey

/-! ## Stability -/

namespace Row

variable {keys : List SortKey} {row : Row} {rows done : List Row}

/-- Rows in order, those that are equal in order as they were. -/
structure IsStableSort (keys : List SortKey) (rows ordered : List Row) : Prop where
  perm : ordered.Perm rows
  ascend : ordered.Pairwise fun a b => SortKey.compareBy keys a b ≠ .gt
  stable : ∀ row ∈ rows, (ordered.filter fun other => SortKey.compareBy keys row other = .eq) =
    rows.filter fun other => SortKey.compareBy keys row other = .eq

/-- A row is put before all rows that it is not less than, where rows descend. -/
theorem descend_insertBack (horders : SortKey.Orders keys (row :: done))
    (hdone : done.Pairwise fun a b => SortKey.compareBy keys b a ≠ .gt) :
    (insertBack (fun a b => SortKey.compareBy keys a b = .lt) row done).Pairwise fun a b =>
      SortKey.compareBy keys b a ≠ .gt := by
  induction done with
  | nil => exact List.pairwise_singleton _ _
  | cons last rest ih =>
      have hrest := List.pairwise_cons.mp hdone
      have hmem (other : Row) (hother : other ∈ row :: rest) : other ∈ row :: last :: rest := by
        rcases List.mem_cons.mp hother with rfl | hother
        · exact List.mem_cons_self
        · exact List.mem_cons_of_mem _ (List.mem_cons_of_mem _ hother)
      rw [insertBack]
      by_cases hless : SortKey.compareBy keys row last = .lt
      · rw [if_pos (by simpa using hless), List.pairwise_cons]
        refine ⟨fun other hother => ?_, ih (horders.of_subset hmem) hrest.2⟩
        rcases List.mem_cons.mp ((insertBack_perm _ row rest).mem_iff.mp hother) with rfl | hother
        · simp [hless]
        · exact hrest.1 other hother
      · rw [if_neg (by simpa using hless), List.pairwise_cons]
        -- the row comes after the last one, and so after all others
        have hlast : SortKey.compareBy keys last row ≠ .gt := SortKey.compareBy_ne_gt_iff.mpr hless
        refine ⟨fun other hother => ?_, hdone⟩
        rcases List.mem_cons.mp hother with rfl | hother
        · exact hlast
        · exact horders other (hmem other (List.mem_cons_of_mem _ hother)) last
            (by simp) row List.mem_cons_self (hrest.1 other hother) hlast

/-- A row is put before all rows that are equal to it in order, where rows are given from the last
to the first. -/
theorem filter_insertBack {first : Row} (horders : SortKey.Orders keys (first :: row :: done)) :
    (insertBack (fun a b => SortKey.compareBy keys a b = .lt) row done).filter
        (fun other => SortKey.compareBy keys first other = .eq) =
      (row :: done).filter fun other => SortKey.compareBy keys first other = .eq := by
  induction done with
  | nil => rfl
  | cons last rest ih =>
      have hmem (other : Row) (hother : other ∈ first :: row :: rest) :
          other ∈ first :: row :: last :: rest := by
        simp only [List.mem_cons] at hother ⊢
        tauto
      rw [insertBack]
      split
      · next hless =>
        rw [List.filter_cons, ih (horders.of_subset hmem)]
        -- a row that is less than another is not equal in order to the same as the other
        have hapart : SortKey.compareBy keys first row = .eq →
            SortKey.compareBy keys first last ≠ .eq := by
          intro hrow hlast
          have hle := horders last (by simp) first List.mem_cons_self row (by simp)
            (by rw [SortKey.compareBy_swap, hlast]; simp) (by rw [hrow]; simp)
          rw [SortKey.compareBy_ne_gt_iff] at hle
          exact hle (of_decide_eq_true hless)
        by_cases hrow : SortKey.compareBy keys first row = .eq
        · simp [hrow, hapart hrow]
        · simp [hrow, List.filter_cons]
      · rfl

/-- Sorting by keys that order the rows is stable. -/
theorem isStableSort_sorted (horders : SortKey.Orders keys rows) :
    IsStableSort keys rows (sorted keys rows) := by
  refine ⟨sorted_perm keys rows, ?_, ?_⟩
  · induction rows using List.reverseRecOn with
    | nil => exact List.Pairwise.nil
    | append_singleton rows row ih =>
        rw [sorted_append_singleton, List.pairwise_reverse]
        have hmem (other : Row) (hother : other ∈ row :: (sorted keys rows).reverse) :
            other ∈ rows ++ [row] := by
          rw [List.mem_cons, List.mem_reverse, (sorted_perm keys rows).mem_iff] at hother
          simpa [or_comm] using hother
        refine descend_insertBack (horders.of_subset hmem) ?_
        rw [List.pairwise_reverse]
        exact ih (horders.of_subset fun other hother => List.mem_append_left _ hother)
  · intro first hfirst
    -- the first row is among all rows, not only among those that have been put in order
    have hsorted (before : List Row) (hbefore : ∀ row ∈ before, row ∈ rows) :
        ((sorted keys before).filter fun other => SortKey.compareBy keys first other = .eq) =
          before.filter fun other => SortKey.compareBy keys first other = .eq := by
      induction before using List.reverseRecOn with
      | nil => rfl
      | append_singleton before row ih =>
          have hinit (other : Row) (hother : other ∈ before) : other ∈ rows :=
            hbefore other (List.mem_append_left _ hother)
          have hmem (other : Row) (hother : other ∈ first :: row :: (sorted keys before).reverse) :
              other ∈ rows := by
            rw [List.mem_cons, List.mem_cons, List.mem_reverse,
              (sorted_perm keys before).mem_iff] at hother
            rcases hother with rfl | rfl | hother
            · exact hfirst
            · exact hbefore other (by simp)
            · exact hinit other hother
          rw [sorted_append_singleton, List.filter_reverse,
            filter_insertBack (horders.of_subset hmem), ← List.filter_reverse, List.reverse_cons,
            List.reverse_reverse, List.filter_append, ih hinit, List.filter_append]
    exact hsorted rows fun _ => id

end Row

end EntityQuery
