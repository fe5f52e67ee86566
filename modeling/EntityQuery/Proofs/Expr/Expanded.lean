import EntityQuery.Proofs.Expr.Truth

/-!
# Ranges and memberships as comparisons

A range says that a value is not below one bound and not above another, a membership that it is
equal to one of some items.  Written out as comparisons both have other values: a range is null as
soon as a bound is null, where the comparison with the other bound may already be false; a
membership is false where the equality with a null item is null, and does not look at the items
behind the first that is equal.

The truth of a predicate does not show these differences, because what is null is not true.  Nor
does a negation, as long as it is the statement that something is true which is negated.

## Main definitions

* `Expr.asComparisons`, `Expr.asEqualities` : a range and a membership, written out
* `Expr.Ordered` : an operand and its value, which can be compared with another value if neither is
  null
* `Expr.SameTruth` : two predicates have one truth, and so have their negations

## Main statements

* `sameTruth_between`, `sameTruth_isIn` : what is written out has the same truth
* `holds_isIn_iff`, `holds_notTrue_isIn_iff` : the truth of a membership, item by item
* `sameTruth_expanded` : all of it, for one value and any bounds and items
-/

namespace EntityQuery

namespace Expr

/-- A range, written out: not below one bound and not above the other. -/
def asComparisons (arg low high : Expr) : Expr := and (compare .ge arg low) (compare .le arg high)

/-- A membership, written out: equal to the first item or to another. -/
def asEqualities (arg : Expr) : List Expr → Expr
  | [] => .literal (.boolean false)
  | item :: rest => or (compare .eq arg item) (asEqualities arg rest)

/-- The negation of the statement that an expression is true. -/
def notTrue (e : Expr) : Expr := unary .not (unary .isTrue e)

/-- The operand has a value on the row that can be compared with another one if neither is null. -/
def Ordered (row : Row) (a : Value) (operand : Expr) (v : Value) : Prop :=
  operand.eval row = .ok v ∧ (a.isNull = false → v.isNull = false → ∃ o, a.compare? v = some o)

/-- The predicates have one truth on the row, and so have their negations. -/
def SameTruth (row : Row) (e other : Expr) : Prop :=
  ∃ b, (e.holds row = .ok b ∧ other.holds row = .ok b) ∧
    (notTrue e).holds row = .ok !b ∧ (notTrue other).holds row = .ok !b

variable {row : Row} {arg : Expr} {a : Value} (ha : arg.eval row = .ok a)

theorem sameTruth_of_holds {e other : Expr} {b : Bool} (he : e.holds row = .ok b)
    (hother : other.holds row = .ok b) : SameTruth row e other :=
  ⟨b, ⟨he, hother⟩, holds_not_isTrue he, holds_not_isTrue hother⟩

include ha

/-! ## Ranges -/

theorem sameTruth_between {low high : Expr} {l h : Value} (hlow : low.Ordered row a l)
    (hhigh : high.Ordered row a h) :
    SameTruth row (between arg low high) (asComparisons arg low high) := by
  have habove : (compare .ge arg low).holds row = .ok ((a.compare? l).any (· ≠ .lt)) :=
    holds_compare ha hlow.1 hlow.2
  have hbelow : (compare .le arg high).holds row = .ok ((a.compare? h).any (· ≠ .gt)) :=
    holds_compare ha hhigh.1 hhigh.2
  exact sameTruth_of_holds (holds_between ha hlow.1 hhigh.1 hlow.2 hhigh.2)
    (holds_and habove hbelow)

/-! ## Memberships -/

theorem holds_compare_eq {item : Expr} {v : Value} (hitem : item.Ordered row a v) :
    (compare .eq arg item).holds row = .ok (a.compare? v = some .eq) := by
  rw [holds_compare ha hitem.1 hitem.2]
  cases a.compare? v <;> simp [Comparison.holds]

section

variable {items : List Expr} {values : List Value}
  (hvalues : List.Forall₂ (Ordered row a) items values)
include hvalues

theorem holds_isIn_of_ordered :
    (isIn arg items).holds row = .ok (values.any fun v => a.compare? v = some .eq) :=
  holds_isIn ha (hvalues.imp fun _ _ hitem => hitem.1)

theorem holds_asEqualities :
    (asEqualities arg items).holds row = .ok (values.any fun v => a.compare? v = some .eq) := by
  induction hvalues with
  | nil => rfl
  | cons hitem _ ih => exact holds_or (holds_compare_eq ha hitem) ih

theorem any_compare?_iff :
    values.any (fun v => a.compare? v = some .eq) = true ↔
      ∃ item ∈ items, (compare .eq arg item).holds row = .ok true := by
  induction hvalues with
  | nil => simp
  | cons hitem _ ih =>
      rw [List.any_cons, Bool.or_eq_true, ih, List.exists_mem_cons_iff, holds_compare_eq ha hitem,
        Except.ok.injEq]

end

section

variable {items : List Expr} (hitems : ∀ item ∈ items, ∃ v, item.Ordered row a v)
include hitems

theorem sameTruth_isIn : SameTruth row (isIn arg items) (asEqualities arg items) := by
  obtain ⟨values, hvalues⟩ := Outcome.exists_forall₂_iff.mpr hitems
  exact sameTruth_of_holds (holds_isIn_of_ordered ha hvalues) (holds_asEqualities ha hvalues)

/-- A membership is true exactly if the equality with one of the items is. -/
theorem holds_isIn_iff :
    (isIn arg items).holds row = .ok true ↔
      ∃ item ∈ items, (compare .eq arg item).holds row = .ok true := by
  obtain ⟨values, hvalues⟩ := Outcome.exists_forall₂_iff.mpr hitems
  rw [holds_isIn_of_ordered ha hvalues, Except.ok.injEq, any_compare?_iff ha hvalues]

/-- A membership is not true exactly if the equality with none of the items is. -/
theorem holds_notTrue_isIn_iff :
    (notTrue (isIn arg items)).holds row = .ok true ↔
      ∀ item ∈ items, (notTrue (compare .eq arg item)).holds row = .ok true := by
  obtain ⟨values, hvalues⟩ := Outcome.exists_forall₂_iff.mpr hitems
  have hnegated : ∀ item ∈ items, ((notTrue (compare .eq arg item)).holds row = .ok true ↔
      ¬ (compare .eq arg item).holds row = .ok true) := by
    intro item hitem
    obtain ⟨v, hv⟩ := hitems item hitem
    have heq := holds_compare_eq ha hv
    rw [notTrue, holds_not_isTrue heq, heq]
    simp
  rw [notTrue, holds_not_isTrue (holds_isIn_of_ordered ha hvalues), Except.ok.injEq,
    Bool.not_eq_true', ← Bool.not_eq_true, any_compare?_iff ha hvalues]
  simp only [not_exists, not_and]
  exact forall₂_congr fun item hitem => (hnegated item hitem).symm

end

/-- Ranges and memberships are true where what they are short for is true, and so are their
negations; a membership is true if one of the equalities is, and its negation if all of their
negations are. -/
theorem sameTruth_expanded :
    (∀ low high, (∃ l, low.Ordered row a l) → (∃ h, high.Ordered row a h) →
      SameTruth row (between arg low high) (asComparisons arg low high)) ∧
    ∀ items, (∀ item ∈ items, ∃ v, item.Ordered row a v) →
      SameTruth row (isIn arg items) (asEqualities arg items) ∧
        ((isIn arg items).holds row = .ok true ↔
          ∃ item ∈ items, (compare .eq arg item).holds row = .ok true) ∧
          ((notTrue (isIn arg items)).holds row = .ok true ↔
            ∀ item ∈ items, (notTrue (compare .eq arg item)).holds row = .ok true) := by
  constructor
  · rintro low high ⟨l, hlow⟩ ⟨h, hhigh⟩
    exact sameTruth_between ha hlow hhigh
  · intro items hitems
    exact ⟨sameTruth_isIn ha hitems, holds_isIn_iff ha hitems, holds_notTrue_isIn_iff ha hitems⟩

omit ha

/-- Twelve pages are not within fifteen and an unknown limit, and are among an unknown limit and
twelve. -/
theorem sameTruth_expanded_pages :
    let pages := column "pages" (some 0)
    let limit := column "limit" (some 1)
    let row : Row := [.int64 12, .null]
    pages.eval row = .ok (.int64 12) ∧ (literal (.int32 15)).Ordered row (.int64 12) (.int32 15) ∧
      limit.Ordered row (.int64 12) .null ∧
      SameTruth row (between pages (literal (.int32 15)) limit)
        (asComparisons pages (literal (.int32 15)) limit) ∧
      (asComparisons pages (literal (.int32 15)) limit).eval row = .ok (.boolean false) ∧
      (between pages (literal (.int32 15)) limit).eval row = .ok .null ∧
      SameTruth row (isIn pages [limit, literal (.int32 12)])
        (asEqualities pages [limit, literal (.int32 12)]) ∧
      ∃ item ∈ [limit, literal (.int32 12)], (compare .eq pages item).holds row = .ok true := by
  intro pages limit row
  have hpages : pages.eval row = .ok (.int64 12) := rfl
  have hliteral (n : Int32) : (literal (.int32 n)).Ordered row (.int64 12) (.int32 n) :=
    ⟨rfl, fun _ _ => ⟨_, rfl⟩⟩
  have hlimit : limit.Ordered row (.int64 12) .null := ⟨rfl, fun _ h => by simp [Value.isNull] at h⟩
  obtain ⟨hbetween, hisIn⟩ := sameTruth_expanded hpages
  have hitems : ∀ item ∈ [limit, literal (.int32 12)], ∃ v, item.Ordered row (.int64 12) v := by
    rw [List.forall_mem_cons, List.forall_mem_singleton]
    exact ⟨⟨_, hlimit⟩, _, hliteral 12⟩
  obtain ⟨hsame, htrue, -⟩ := hisIn _ hitems
  exact ⟨hpages, hliteral 15, hlimit, hbetween _ _ ⟨_, hliteral 15⟩ ⟨_, hlimit⟩, rfl, rfl, hsame,
    htrue.mp rfl⟩

end Expr

end EntityQuery
