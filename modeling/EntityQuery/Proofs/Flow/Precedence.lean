import EntityQuery.Proofs.Flow.Overflow
import EntityQuery.Proofs.Flow.Stable

/-!
# What sorting does to rows

A key puts one value before another: null before or behind all others, whichever way the key goes,
and other values by their order or against it.  Of two rows the one comes first that the first key
puts before the other, where a key that ties them leaves it to the next.  A sort shows all its rows,
each behind those that come before it, and rows that all keys tie as they were.

Precedence and ties are stated here without the function that compares rows.  Where each column
holds values of one type the comparison decides them, and as the rows stand in one order by it, a
stable sort by the comparison is a sort by precedence and ties.

## Main definitions

* `SortKey.PutsBefore`, `Value.Ties` : what a key says of two values
* `Row.Precedes`, `Row.Tied` : what several keys say of two rows
* `Row.IsSortOf` : rows put in order, those that are tied as they were

## Main statements

* `compareBy_iff` : comparing rows decides precedence and ties
* `isSortOf_of_sortBy` : a sort shows its rows in order, those that are tied as they were
-/

namespace EntityQuery

/-! ## Values -/

namespace Value

/-- Both values are null, or they are equal in order. -/
def Ties (a b : Value) : Prop := (a.isNull = true ∧ b.isNull = true) ∨ a.compare? b = some .eq

instance (a b : Value) : Decidable (Ties a b) := inferInstanceAs (Decidable (_ ∨ _))

end Value

namespace SortKey

/-- A value comes before another by a key. -/
inductive PutsBefore (key : SortKey) : Value → Value → Prop
  | nullFirst {b : Value} (hnulls : key.nullsFirst = true) (hb : b.isNull = false) :
      PutsBefore key .null b
  | nullLast {a : Value} (hnulls : key.nullsFirst = false) (ha : a.isNull = false) :
      PutsBefore key a .null
  | ascending {a b : Value} (hasc : key.direction = .asc) (hab : a.compare? b = some .lt) :
      PutsBefore key a b
  | descending {a b : Value} (hdesc : key.direction = .desc) (hab : a.compare? b = some .gt) :
      PutsBefore key a b

variable {key : SortKey} {keys : List SortKey} {t : ScalarType} {v w : Value} {a b : Row}
  {rows : List Row}

theorem putsBefore_iff :
    key.PutsBefore v w ↔
      (v.isNull = true ∧ w.isNull = false ∧ key.nullsFirst = true) ∨
        (v.isNull = false ∧ w.isNull = true ∧ key.nullsFirst = false) ∨
        (key.direction = .asc ∧ v.compare? w = some .lt) ∨
        (key.direction = .desc ∧ v.compare? w = some .gt) := by
  constructor
  · rintro (⟨hnulls, hw⟩ | ⟨hnulls, hv⟩ | ⟨hasc, hvw⟩ | ⟨hdesc, hvw⟩)
    · exact .inl ⟨rfl, hw, hnulls⟩
    · exact .inr (.inl ⟨hv, rfl, hnulls⟩)
    · exact .inr (.inr (.inl ⟨hasc, hvw⟩))
    · exact .inr (.inr (.inr ⟨hdesc, hvw⟩))
  · rintro (⟨hv, hw, hnulls⟩ | ⟨hv, hw, hnulls⟩ | ⟨hasc, hvw⟩ | ⟨hdesc, hvw⟩)
    · obtain rfl := Value.eq_null_of_isNull hv
      exact .nullFirst hnulls hw
    · obtain rfl := Value.eq_null_of_isNull hw
      exact .nullLast hnulls hv
    · exact .ascending hasc hvw
    · exact .descending hdesc hvw

/-- Comparing two values of a type by a key tells which of them the key puts first, and whether it
ties them. -/
theorem compareValues_iff (key : SortKey) (hv : v.conforms t = true) (hw : w.conforms t = true) :
    (key.compareValues v w = .lt ↔ key.PutsBefore v w) ∧
    (key.compareValues v w = .eq ↔ v.Ties w) := by
  rw [putsBefore_iff]
  unfold compareValues Value.Ties
  cases hvnull : v.isNull <;> cases hwnull : w.isNull
  case true.true =>
    obtain rfl := Value.eq_null_of_isNull hvnull
    simp
  case true.false =>
    obtain rfl := Value.eq_null_of_isNull hvnull
    cases key.nullsFirst <;> simp
  case false.true =>
    obtain rfl := Value.eq_null_of_isNull hwnull
    cases key.nullsFirst <;> simp
  case false.false =>
    obtain ⟨order, -, horder⟩ := Value.exists_order t
    have hcompare :=
      horder v w (Value.ofType_of_conforms hv hvnull) (Value.ofType_of_conforms hw hwnull)
    cases key.direction <;> cases ho : order v w <;> simp [hcompare, ho]

end SortKey

/-! ## Rows -/

namespace Row

/-- A row comes before another by the first key that does not tie them. -/
inductive Precedes : List SortKey → Row → Row → Prop
  | first {key : SortKey} {keys : List SortKey} {a b : Row}
      (hbefore : key.PutsBefore (a.getD key.column .null) (b.getD key.column .null)) :
      Precedes (key :: keys) a b
  | next {key : SortKey} {keys : List SortKey} {a b : Row}
      (hties : (a.getD key.column .null).Ties (b.getD key.column .null))
      (hbefore : Precedes keys a b) :
      Precedes (key :: keys) a b

/-- All keys tie two rows. -/
def Tied (keys : List SortKey) (a b : Row) : Prop :=
  ∀ key ∈ keys, (a.getD key.column .null).Ties (b.getD key.column .null)

instance (keys : List SortKey) (a b : Row) : Decidable (Tied keys a b) :=
  inferInstanceAs (Decidable (∀ key ∈ keys, _))

/-- Rows put in order by some keys, those that are tied as they were. -/
structure IsSortOf (keys : List SortKey) (rows shown : List Row) : Prop where
  perm : shown.Perm rows
  ascend : shown.Pairwise fun a b => (Precedes keys a b ∨ Tied keys a b) ∧ ¬ Precedes keys b a
  stable : ∀ row ∈ rows,
    (shown.filter fun other => Tied keys row other) = rows.filter fun other => Tied keys row other

variable {key : SortKey} {keys : List SortKey} {a b : Row} {rows shown : List Row}

theorem precedes_cons_iff :
    Precedes (key :: keys) a b ↔
      key.PutsBefore (a.getD key.column .null) (b.getD key.column .null) ∨
        (a.getD key.column .null).Ties (b.getD key.column .null) ∧ Precedes keys a b := by
  constructor
  · rintro (hbefore | ⟨hties, hbefore⟩)
    · exact .inl hbefore
    · exact .inr ⟨hties, hbefore⟩
  · rintro (hbefore | ⟨hties, hbefore⟩)
    · exact .first hbefore
    · exact .next hties hbefore

/-- Comparing rows decides precedence and ties, where each column holds values of one type. -/
theorem compareBy_iff (huniform : SortKey.Uniform keys rows) (ha : a ∈ rows) (hb : b ∈ rows) :
    (SortKey.compareBy keys a b = .lt ↔ Precedes keys a b) ∧
    (SortKey.compareBy keys a b = .eq ↔ Tied keys a b) := by
  induction keys with
  | nil =>
      refine ⟨⟨nofun, nofun⟩, ?_⟩
      simp [SortKey.compareBy, Tied]
  | cons key keys ih =>
      obtain ⟨t, hcell⟩ := huniform.conforms_cell List.mem_cons_self
      obtain ⟨hbefore, hties⟩ := key.compareValues_iff (hcell a ha) (hcell b hb)
      obtain ⟨hlater, htied⟩ := ih fun key hkey => huniform key (List.mem_cons_of_mem _ hkey)
      change ((key.compareRows a b).then (SortKey.compareBy keys a b) = .lt ↔ _) ∧
        ((key.compareRows a b).then (SortKey.compareBy keys a b) = .eq ↔ _)
      rw [Ordering.then_eq_lt, Ordering.then_eq_eq, precedes_cons_iff, ← hlater, ← hbefore, ← hties,
        Tied, List.forall_mem_cons, ← hties]
      exact ⟨.rfl, and_congr_right fun _ => htied⟩

theorem compareBy_ne_gt_iff (huniform : SortKey.Uniform keys rows) (ha : a ∈ rows) (hb : b ∈ rows) :
    SortKey.compareBy keys a b ≠ .gt ↔
      (Precedes keys a b ∨ Tied keys a b) ∧ ¬ Precedes keys b a := by
  obtain ⟨hbefore, hties⟩ := compareBy_iff huniform ha hb
  rw [← hbefore, ← hties, ← (compareBy_iff huniform hb ha).1, SortKey.compareBy_swap keys a b]
  cases SortKey.compareBy keys a b <;> simp

/-- Rows that the comparison has put in order stably are put in order by precedence and ties. -/
theorem IsStableSort.isSortOf (huniform : SortKey.Uniform keys rows)
    (hsort : IsStableSort keys rows shown) :
    IsSortOf keys rows shown where
  perm := hsort.perm
  ascend := by
    refine hsort.ascend.imp_of_mem fun ha hb hle => ?_
    exact (compareBy_ne_gt_iff huniform (hsort.perm.mem_iff.mp ha) (hsort.perm.mem_iff.mp hb)).mp
      hle
  stable row hrow := by
    have hties (other : Row) (hother : other ∈ rows) :
        decide (SortKey.compareBy keys row other = .eq) = decide (Tied keys row other) :=
      decide_eq_decide.mpr (compareBy_iff huniform hrow hother).2
    rw [← List.filter_congr hties, ← hsort.stable row hrow]
    exact List.filter_congr fun other hother => (hties other (hsort.perm.mem_iff.mp hother)).symm

end Row

/-! ## Sorts -/

namespace Flow

variable {input : Flow} {keys : List SortKey} {rows : List Row}

/-- A sort by columns that hold null and values of one type shows the rows of its input in order,
those that all keys tie as they were. -/
theorem isSortOf_of_sortBy (hinput : input.Runs rows none)
    (hkeys : ∀ key ∈ keys, key.column < input.schema.length)
    (huniform : SortKey.Uniform keys rows) :
    ∃ flow shown, input.sortBy keys = .ok flow ∧ flow.Runs shown none ∧
      Row.IsSortOf keys rows shown :=
  ⟨_, _, sortBy_eq_ok hkeys, runs_sort hinput keys,
    (Row.isStableSort_sorted huniform.orders).isSortOf huniform⟩

/-- Books with their kinds and the years in which they appeared, where these are known. -/
def datedBooks : List Row :=
  [[.text "Dune", .text "scifi", .int32 1965], [.text "Emma", .text "classic", .int32 1815],
    [.text "Anathem", .text "scifi", .int32 2008], [.text "Ubik", .text "scifi", .int32 1965],
    [.text "Beowulf", .text "classic", .null], [.text "Untitled", .null, .int32 1965]]

/-- By kind, unknown kinds at the end, and then from the last year to the first. -/
def byKindAndYear : List SortKey := [⟨1, .asc, false⟩, ⟨2, .desc, false⟩]

/-- Kinds ascend and years descend, what is unknown comes last in both, and the two books of one
year stay in place. -/
theorem isSortOf_datedBooks :
    SortKey.Uniform byKindAndYear datedBooks ∧
      ∃ shown, Row.IsSortOf byKindAndYear datedBooks shown ∧ shown.map (·.head?) =
        ["Emma", "Beowulf", "Anathem", "Dune", "Ubik", "Untitled"].map fun title =>
          some (.text title) := by
  have huniform : SortKey.Uniform byKindAndYear datedBooks := by
    simp only [SortKey.Uniform, byKindAndYear, List.forall_mem_cons]
    refine ⟨⟨.text, ?_⟩, ⟨.int32, ?_⟩, by simp⟩
    all_goals simp [datedBooks, Value.conforms, Value.isNull, Value.ofType, Value.type?,
      Value.isProper]
  refine ⟨huniform, ?_⟩
  have hinput := runs_ofRows [⟨"title", .text⟩, ⟨"kind", .text⟩, ⟨"year", .int32⟩] datedBooks
  obtain ⟨flow, shown, hflow, hruns, hsort⟩ := isSortOf_of_sortBy hinput (by decide) huniform
  refine ⟨shown, hsort, ?_⟩
  obtain ⟨last, hrun⟩ := run_of_runs hruns
  obtain rfl := Except.ok.inj hflow
  obtain rfl : _ = shown := congrArg Prod.fst hrun
  rfl

end Flow

end EntityQuery
