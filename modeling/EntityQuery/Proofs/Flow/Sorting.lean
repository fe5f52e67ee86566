import EntityQuery.Flow.Order
import Mathlib.Data.List.Induction
import Mathlib.Data.List.Perm.Basic

/-!
# Rows in order

Sorting puts one row after the other in its place.  It loses no row and repeats none, and where a
key tells all rows apart and stands in an order, the sorted rows ascend strictly.  So the sorted
rows are determined by the rows alone, not by the order in which they were.

The proof goes over the rows from the last one: the invariant says that the rows so far, from the
last to the first, descend strictly.

## Main statements

* `sorted_perm` : sorted rows are the rows in another order
* `pairwise_sorted` : sorted rows ascend strictly
* `exists_sorted_map` : the sorted images of some items are the images of the items in an order
-/

namespace EntityQuery.Row

variable {keys : List SortKey} {row : Row} {rows : List Row}

theorem insertBack_perm (less : Row → Row → Bool) (row : Row) (rows : List Row) :
    (insertBack less row rows).Perm (row :: rows) := by
  induction rows with
  | nil => exact .refl _
  | cons last rest ih =>
      rw [insertBack]
      split
      · exact (ih.cons last).trans (.swap row last rest)
      · exact .refl _

theorem sorted_append_singleton (keys : List SortKey) (rows : List Row) (row : Row) :
    sorted keys (rows ++ [row]) =
      (insertBack (fun a b => SortKey.compareBy keys a b = .lt) row
        (sorted keys rows).reverse).reverse := by
  rw [sorted, sorted, List.foldl_append, List.reverse_reverse]
  rfl

theorem sorted_perm (keys : List SortKey) (rows : List Row) : (sorted keys rows).Perm rows := by
  induction rows using List.reverseRecOn with
  | nil => exact .refl _
  | append_singleton rows row ih =>
      rw [sorted_append_singleton]
      refine (List.reverse_perm _).trans ((insertBack_perm _ _ _).trans ?_)
      refine (((List.reverse_perm _).trans ih).cons row).trans ?_
      exact (List.perm_append_singleton row rows).symm

/-- A row that is put among rows that descend strictly, by a key that tells it apart from them. -/
theorem pairwise_insertBack {κ : Type} {cmp : κ → κ → Ordering} [Std.TransCmp cmp] {key : Row → κ}
    {less : Row → Row → Bool}
    (hless : ∀ other ∈ rows, (less row other ↔ cmp (key row) (key other) = .lt))
    (hapart : ∀ other ∈ rows, cmp (key row) (key other) ≠ .eq)
    (hrows : rows.Pairwise fun a b => cmp (key b) (key a) = .lt) :
    (insertBack less row rows).Pairwise fun a b => cmp (key b) (key a) = .lt := by
  induction rows with
  | nil => exact List.pairwise_singleton _ _
  | cons last rest ih =>
      rw [List.forall_mem_cons] at hless hapart
      have hrest := List.pairwise_cons.mp hrows
      rw [insertBack]
      split
      · next hlt =>
        rw [List.pairwise_cons]
        refine ⟨fun other hother => ?_, ih hless.2 hapart.2 hrest.2⟩
        rcases List.mem_cons.mp ((insertBack_perm less row rest).mem_iff.mp hother) with rfl
          | hother
        · exact hless.1.mp hlt
        · exact hrest.1 other hother
      · next hge =>
        -- the row comes after the last one, and so after all others
        have hlast : cmp (key last) (key row) = .lt := by
          rw [← Std.OrientedCmp.gt_iff_lt]
          cases hcmp : cmp (key row) (key last) with
          | lt => exact absurd (hless.1.mpr hcmp) hge
          | eq => exact absurd hcmp hapart.1
          | gt => rfl
        rw [List.pairwise_cons, List.forall_mem_cons]
        exact ⟨⟨hlast, fun other hother => Std.TransCmp.lt_trans (hrest.1 other hother) hlast⟩,
          hrows⟩

/-- Sorted rows ascend strictly, if a key tells all of them apart. -/
theorem pairwise_sorted {κ : Type} {cmp : κ → κ → Ordering} [Std.TransCmp cmp] {key : Row → κ}
    (hcompare : ∀ a ∈ rows, ∀ b ∈ rows, SortKey.compareBy keys a b = cmp (key a) (key b))
    (hapart : rows.Pairwise fun a b => cmp (key a) (key b) ≠ .eq) :
    (sorted keys rows).Pairwise fun a b => cmp (key a) (key b) = .lt := by
  induction rows using List.reverseRecOn with
  | nil => exact List.Pairwise.nil
  | append_singleton rows row ih =>
      rw [List.pairwise_append] at hapart
      have hold (a : Row) (ha : a ∈ rows) : a ∈ rows ++ [row] := List.mem_append_left _ ha
      have hnew : row ∈ rows ++ [row] := List.mem_append_right _ (List.mem_singleton.mpr rfl)
      have hmem (a : Row) : a ∈ (sorted keys rows).reverse ↔ a ∈ rows := by
        rw [List.mem_reverse, (sorted_perm keys rows).mem_iff]
      rw [sorted_append_singleton, List.pairwise_reverse]
      refine pairwise_insertBack (fun other hother => ?_) (fun other hother => ?_) ?_
      · rw [decide_eq_true_eq, hcompare row hnew other (hold other ((hmem other).mp hother))]
      · rw [ne_eq, Std.OrientedCmp.eq_comm]
        exact hapart.2.2 other ((hmem other).mp hother) row (List.mem_singleton.mpr rfl)
      · rw [List.pairwise_reverse]
        exact ih (fun a ha b hb => hcompare a (hold a ha) b (hold b hb)) hapart.1

theorem compareBy_asc {k : Nat} {a b : Row} (ha : (a.getD k .null).isNull = false)
    (hb : (b.getD k .null).isNull = false) {order : Ordering}
    (horder : (a.getD k .null).compare? (b.getD k .null) = some order) :
    SortKey.compareBy [SortKey.of k .asc] a b = order := by
  have hvalues : (SortKey.of k .asc).compareValues (a.getD k .null) (b.getD k .null) = order := by
    rw [SortKey.compareValues, ha, hb, horder]
    rfl
  change ((SortKey.of k .asc).compareValues (a.getD k .null) (b.getD k .null)).then .eq = order
  rw [hvalues]
  cases order <;> rfl

/-- The sorted images of some items are the images of the items in an order, in which they ascend
strictly. -/
theorem exists_sorted_map {α κ : Type} {cmp : κ → κ → Ordering} [Std.TransCmp cmp] {key : Row → κ}
    {image : α → Row} {items : List α}
    (hcompare : ∀ a ∈ items, ∀ b ∈ items,
      SortKey.compareBy keys (image a) (image b) = cmp (key (image a)) (key (image b)))
    (hapart : items.Pairwise fun a b => cmp (key (image a)) (key (image b)) ≠ .eq) :
    ∃ ordered : List α, ordered.Perm items ∧ sorted keys (items.map image) = ordered.map image ∧
      ordered.Pairwise fun a b => cmp (key (image a)) (key (image b)) = .lt := by
  have himages : List.Forall₂ (fun row a => row = image a) (items.map image) items := by
    rw [List.forall₂_map_left_iff, List.forall₂_same]
    exact fun _ _ => rfl
  obtain ⟨ordered, hordered, hperm⟩ :=
    List.perm_comp_forall₂ (sorted_perm keys (items.map image)) himages
  have hsorted : sorted keys (items.map image) = ordered.map image := by
    rw [← List.forall₂_eq_eq_eq, List.forall₂_map_right_iff]
    exact hordered
  have hascend : (sorted keys (items.map image)).Pairwise fun a b => cmp (key a) (key b) = .lt := by
    refine pairwise_sorted (fun first hfirst second hsecond => ?_) (List.pairwise_map.mpr hapart)
    obtain ⟨a, ha, rfl⟩ := List.mem_map.mp hfirst
    obtain ⟨b, hb, rfl⟩ := List.mem_map.mp hsecond
    exact hcompare a ha b hb
  rw [hsorted, List.pairwise_map] at hascend
  exact ⟨ordered, hperm, hsorted, hascend⟩

end EntityQuery.Row
