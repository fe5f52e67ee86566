import EntityQuery.Proofs.Expr.Truth
import EntityQuery.Proofs.Value.SameKey
import EntityQuery.Proofs.Value.Written

/-!
# Keys and equality in order

Grouping, distinct rows and joins go by keys, while filters and the comparison `=` go by the order
of values.  Values of one type form one key exactly if they are equal in order, with one exception:
the keys of floating-point numbers are their bits, so the two zeros have keys of their own, although
they share one place in the order.

A place in the order is a magnitude with a sign in front.  It gives the bits of a number back,
unless the magnitude is zero.

## Main definitions

* `Value.OppositeZeros` : the two zeros, in either order

## Main statements

* `Binary64.rank_eq_iff` : numbers of one place have the same bits or are the two zeros
* `sameKey_iff_compare?` : values of a type form one key if they are equal in order and not the two
  zeros
* `same_iff_equal_in_order` : the same for values that stem from JSON, beside what joins and
  comparisons make of them
-/

namespace EntityQuery

/-! ## Places in the order -/

namespace Binary64

/-- The number is one of the two zeros. -/
def IsZero (x : Float) : Prop := magnitude x = 0

instance (x : Float) : Decidable (IsZero x) := inferInstanceAs (Decidable (_ = _))

theorem toNat_toBits (x : Float) :
    x.toBits.toNat = (if isNegative x then signBit else 0) + magnitude x := by
  have hlt : x.toBits.toNat < 2 ^ 64 := x.toBits.toNat_lt
  unfold isNegative magnitude signBit
  split
  · next h =>
    rw [decide_eq_true_eq] at h
    omega
  · next h =>
    rw [decide_eq_true_eq] at h
    omega

theorem toBits_eq_iff {x y : Float} :
    x.toBits = y.toBits ↔ isNegative x = isNegative y ∧ magnitude x = magnitude y := by
  constructor
  · intro h
    unfold isNegative magnitude
    rw [h]
    exact ⟨rfl, rfl⟩
  · rintro ⟨hsign, hmagnitude⟩
    rw [← UInt64.toNat_inj, toNat_toBits x, toNat_toBits y, hsign, hmagnitude]

/-- Numbers of one place have the same bits, or they are zeros of opposite signs. -/
theorem rank_eq_iff {x y : Float} :
    rank x = rank y ↔ x.toBits = y.toBits ∨
    (IsZero x ∧ IsZero y ∧ isNegative x ≠ isNegative y) := by
  rw [toBits_eq_iff]
  unfold rank IsZero
  cases isNegative x <;> cases isNegative y
  all_goals
    simp only [Bool.false_eq_true, reduceCtorEq, ↓reduceIte, ne_eq, not_true_eq_false,
      not_false_eq_true, true_and, false_and, and_true, and_false, or_false, false_or]
    omega

end Binary64

/-! ## Keys of values -/

namespace Value

/-- The two zeros, in either order. -/
def OppositeZeros : Value → Value → Prop
  | .float64 x, .float64 y =>
    Binary64.IsZero x ∧ Binary64.IsZero y ∧ Binary64.isNegative x ≠ Binary64.isNegative y
  | _, _ => False

variable {t : ScalarType} {a b : Value}

/-- Values of a type form one key exactly if they are equal in order and not the two zeros. -/
theorem sameKey_iff_compare? (ha : a.ofType t = true) (hb : b.ofType t = true) :
    a.sameKey b = true ↔ a.compare? b = some .eq ∧ ¬ a.OppositeZeros b := by
  rw [compare?_eq_iff ha hb]
  obtain ⟨x, rfl⟩ := exists_eq_ofContent ha
  obtain ⟨y, rfl⟩ := exists_eq_ofContent hb
  cases t with
  | float64 =>
      have hx : Binary64.isNumber x = true := (Bool.and_eq_true_iff.mp ha).2
      have hy : Binary64.isNumber y = true := (Bool.and_eq_true_iff.mp hb).2
      simp only [ofContent, sameKey, equal, OppositeZeros, decide_eq_true_eq, Binary64.eq_iff, hx,
        hy, true_and, Binary64.rank_eq_iff]
      constructor
      · intro hbits
        exact ⟨.inl hbits, fun hzeros => hzeros.2.2 (Binary64.toBits_eq_iff.mp hbits).1⟩
      · rintro ⟨hbits | hzeros, hnot⟩
        · exact hbits
        · exact absurd hzeros hnot
  | boolean | int32 | int64 | text | uuid | date | dateTime | moment =>
      simp [ofContent, sameKey, OppositeZeros]

theorem ofType_of_ofJson? {json : Json} (hjson : json.isFinite = true)
    (ha : ofJson? t json = some a) (hnull : a.isNull = false) : a.ofType t = true :=
  ofType_of_conforms (conforms_ofJson? (Json.isProper_of_isFinite hjson) ha) hnull

theorem holds_compare_eq (ha : a.ofType t = true) (hb : b.ofType t = true) (row : Row) :
    (Expr.compare .eq (.literal a) (.literal b)).holds row =
      .ok (decide (a.compare? b = some .eq)) := by
  obtain ⟨order, -, horder⟩ := exists_order t
  have hcompare : a.compare? b = some (order a b) := horder a b ha hb
  rw [Expr.holds_compare rfl rfl fun _ _ => ⟨_, hcompare⟩, hcompare]
  simp [Comparison.holds]

end Value

/-- Values of one type that stem from JSON form one key, by which rows are grouped and told apart,
exactly if they are equal in order, unless they are the two zeros.  Joins go by the same keys, and
the comparison `=` by the order. -/
theorem Key.same_iff_equal_in_order {t : ScalarType} {json other : Json} {a b : Value}
    (hjson : json.isFinite = true) (hother : other.isFinite = true)
    (ha : Value.ofJson? t json = some a) (hb : Value.ofJson? t other = some b)
    (hanull : a.isNull = false) (hbnull : b.isNull = false) :
    (Key.same [a] [b] = true ↔ a.compare? b = some .eq ∧ ¬ a.OppositeZeros b) ∧
      a.meets b = Key.same [a] [b] ∧
      ∀ row : Row, (Expr.compare .eq (.literal a) (.literal b)).holds row =
        .ok (decide (a.compare? b = some .eq)) := by
  have hatype := Value.ofType_of_ofJson? hjson ha hanull
  have hbtype := Value.ofType_of_ofJson? hother hb hbnull
  have hsame : Key.same [a] [b] = a.sameKey b := by simp [Key.same]
  refine ⟨?_, ?_, Value.holds_compare_eq hatype hbtype⟩
  · rw [hsame]
    exact Value.sameKey_iff_compare? hatype hbtype
  · rw [hsame, Bool.eq_iff_iff, Value.meets_comm, Value.meets_iff, and_iff_right hanull]

/-- One instant by the clocks of two places. -/
def meetingHere : Moment := ⟨⟨⟨2021, 3, 4⟩, ⟨10, 0, 0, 0⟩⟩, 120⟩

@[inherit_doc meetingHere] def meetingThere : Moment := ⟨⟨⟨2021, 3, 4⟩, ⟨8, 0, 0, 0⟩⟩, 0⟩

/-- One instant is one key, whatever the clocks show. -/
theorem Key.same_of_one_instant :
    Value.ofJson? .moment (.str "2021-03-04T10:00:00+02:00") = some (.moment meetingHere) ∧
      Value.ofJson? .moment (.str "2021-03-04T08:00:00Z") = some (.moment meetingThere) ∧
      Key.same [.moment meetingHere] [.moment meetingThere] = true := by
  have hhere : Value.ofJson? .moment (.str "2021-03-04T10:00:00+02:00") =
      some (.moment meetingHere) := rfl
  have hthere : Value.ofJson? .moment (.str "2021-03-04T08:00:00Z") = some (.moment meetingThere) :=
    rfl
  refine ⟨hhere, hthere, ?_⟩
  exact (same_iff_equal_in_order rfl rfl hhere hthere rfl rfl).1.mpr ⟨by decide, id⟩

/-- The two zeros stem from JSON and are equal in order, but they form two keys. -/
theorem Key.same_eq_false_of_zeros :
    Value.ofJson? .float64 (.real 0.0) = some (.float64 0.0) ∧
      Value.ofJson? .float64 (.real (-0.0)) = some (.float64 (-0.0)) ∧
      Json.isFinite (.real 0.0) = true ∧ Json.isFinite (.real (-0.0)) = true ∧
      Value.compare? (.float64 0.0) (.float64 (-0.0)) = some .eq ∧
      Key.same [.float64 0.0] [.float64 (-0.0)] = false := by
  refine ⟨rfl, rfl, ?_⟩
  decide

end EntityQuery
