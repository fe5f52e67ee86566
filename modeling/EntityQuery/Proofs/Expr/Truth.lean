import EntityQuery.Expr.Eval
import EntityQuery.Expr.Typing
import EntityQuery.Proofs.Outcome
import EntityQuery.Proofs.Value.Conforming

/-!
# Truth of predicates

The truth of a predicate on a row has two values: what is null is not true.  Conjunction and
disjunction keep that reading, since null never makes a conjunction true nor keeps a disjunction
from being true.  Negation does not, which is why only the statement that something is true is
negated.

## Main definitions

* `Row.cell` : the value of a row under the name of a column

## Main statements

* `holds_and`, `holds_or`, `holds_not_isTrue` : truth of combined predicates
* `holds_compare`, `holds_isIn`, `holds_between` : truth of comparisons
-/

namespace EntityQuery

/-- The value of a row under the first column of a name; null if there is none. -/
def Row.cell (layout : List String) (row : Row) (name : String) : Value :=
  ((layout.idxOf? name).bind (row[·]?)).getD .null

namespace Value

/-- A relation of texts; it holds of nothing but texts. -/
def bothTexts (relation : String → String → Bool) : Value → Value → Bool
  | .text s, .text part => relation s part
  | _, _ => false

/-- The lower-case form of a text; any other value as it is. -/
def lowered : Value → Value
  | .text s => .text (Text.lower s)
  | v => v

theorem conforms_lowered {t : ScalarType} {v : Value} (hv : v.conforms t = true) :
    v.lowered.conforms t = true := by
  cases v <;> exact hv

theorem bothTexts_lowered (relation : String → String → Bool) (a b : Value) :
    bothTexts relation a.lowered b.lowered =
      bothTexts (fun s part => relation (Text.lower s) (Text.lower part)) a b := by
  cases a with
  | text s => cases b <;> rfl
  | _ => rfl

theorem text_or_null_of_conforms {v : Value} (hv : v.conforms .text = true) :
    v = .null ∨ ∃ s, v = .text s := by
  cases hnull : v.isNull with
  | true => exact .inl (eq_null_of_isNull hnull)
  | false => exact .inr (exists_text_of_ofType (ofType_of_conforms hv hnull))

theorem any_compare?_eq {a b : Value} (ha : a.conforms .text = true)
    (hb : b.conforms .text = true) :
    (a.compare? b).any Comparison.eq.holds = bothTexts (fun s part => s = part) a b := by
  rcases text_or_null_of_conforms ha with rfl | ⟨s, rfl⟩
  · rw [compare?_null_left]
    rfl
  · rcases text_or_null_of_conforms hb with rfl | ⟨part, rfl⟩
    · rw [compare?_null_right]
      rfl
    · simp [compare?, bothTexts, Comparison.holds]

end Value

namespace Expr

variable {row : Row}

/-! ## Truth of a value -/

theorem holds_of_eval_boolean {e : Expr} {b : Bool} (he : e.eval row = .ok (.boolean b)) :
    e.holds row = .ok b := by
  simp [holds, he, truth]

theorem holds_of_eval_null {e : Expr} (he : e.eval row = .ok .null) : e.holds row = .ok false := by
  simp [holds, he, truth]

theorem holds_eq_ok_iff {e : Expr} {b : Bool} :
    e.holds row = .ok b ↔ e.eval row = .ok (.boolean b) ∨ (e.eval row = .ok .null ∧ b = false) := by
  constructor
  · intro h
    unfold holds at h
    obtain ⟨v, hv, h⟩ := Outcome.bind_eq_ok_iff.mp h
    cases v <;> simp_all [truth]
  · rintro (h | ⟨h, rfl⟩)
    · exact holds_of_eval_boolean h
    · exact holds_of_eval_null h

/-! ## Combined predicates -/

theorem holds_and {left right : Expr} {a b : Bool} (hleft : left.holds row = .ok a)
    (hright : right.holds row = .ok b) : (binary .and left right).holds row = .ok (a && b) := by
  rw [holds_eq_ok_iff] at hleft hright
  rcases hleft with ha | ⟨ha, rfl⟩ <;> rcases hright with hb | ⟨hb, rfl⟩
  · exact holds_of_eval_boolean (by simp [eval, ha, hb, evalBinary, Value.isNull, evalNonNull])
  · cases a <;> simp [holds, eval, ha, hb, evalBinary, Value.isNull, evalWithNull, truth]
  · cases b <;> simp [holds, eval, ha, hb, evalBinary, Value.isNull, evalWithNull, truth]
  · exact holds_of_eval_null (by simp [eval, ha, hb, evalBinary, Value.isNull, evalWithNull])

theorem holds_or {left right : Expr} {a b : Bool} (hleft : left.holds row = .ok a)
    (hright : right.holds row = .ok b) : (binary .or left right).holds row = .ok (a || b) := by
  rw [holds_eq_ok_iff] at hleft hright
  rcases hleft with ha | ⟨ha, rfl⟩ <;> rcases hright with hb | ⟨hb, rfl⟩
  · exact holds_of_eval_boolean (by simp [eval, ha, hb, evalBinary, Value.isNull, evalNonNull])
  · cases a <;> simp [holds, eval, ha, hb, evalBinary, Value.isNull, evalWithNull, truth]
  · cases b <;> simp [holds, eval, ha, hb, evalBinary, Value.isNull, evalWithNull, truth]
  · exact holds_of_eval_null (by simp [eval, ha, hb, evalBinary, Value.isNull, evalWithNull])

theorem holds_not_isTrue {arg : Expr} {b : Bool} (harg : arg.holds row = .ok b) :
    (unary .not (unary .isTrue arg)).holds row = .ok !b := by
  rw [holds_eq_ok_iff] at harg
  rcases harg with h | ⟨h, rfl⟩ <;> exact holds_of_eval_boolean (by simp [eval, h, evalUnary])

theorem holds_always : always.holds row = .ok true := rfl

/-! ## Comparisons -/

/-- A comparison holds of two values whose order is one that it asks for, and never of null. -/
theorem holds_compare {cmp : Comparison} {left right : Expr} {a b : Value}
    (ha : left.eval row = .ok a) (hb : right.eval row = .ok b)
    (horder : a.isNull = false → b.isNull = false → ∃ o, a.compare? b = some o) :
    (compare cmp left right).holds row = .ok ((a.compare? b).any cmp.holds) := by
  cases hnulla : a.isNull with
  | true =>
      obtain rfl := Value.eq_null_of_isNull hnulla
      exact holds_of_eval_null (by
        simp [compare, eval, ha, hb, evalBinary, Value.isNull, evalWithNull])
  | false =>
      cases hnullb : b.isNull with
      | true =>
          obtain rfl := Value.eq_null_of_isNull hnullb
          rw [Value.compare?_null_right]
          exact holds_of_eval_null (by
            simp [compare, eval, ha, hb, evalBinary, Value.isNull, evalWithNull])
      | false =>
          obtain ⟨o, ho⟩ := horder hnulla hnullb
          rw [ho]
          exact holds_of_eval_boolean
            (by simp [compare, eval, ha, hb, evalBinary, hnulla, hnullb, evalNonNull, order, ho])

theorem evalIsIn_eq (value : Value) {items : List Expr} {values : List Value}
    (hitems : List.Forall₂ (fun item v => item.eval row = .ok v) items values) :
    evalIsIn row value items =
      .ok (.boolean (values.any fun v => value.compare? v = some .eq)) := by
  induction hitems with
  | nil => rfl
  | @cons item v items values hitem _ ih =>
      by_cases h : value.compare? v = some .eq
      · simp [evalIsIn, hitem, h]
      · simpa [evalIsIn, hitem, h] using ih

theorem holds_isIn {arg : Expr} {a : Value} (ha : arg.eval row = .ok a) {items : List Expr}
    {values : List Value}
    (hitems : List.Forall₂ (fun item v => item.eval row = .ok v) items values) :
    (isIn arg items).holds row = .ok (values.any fun v => a.compare? v = some .eq) := by
  cases hnull : a.isNull with
  | true =>
      obtain rfl := Value.eq_null_of_isNull hnull
      rw [holds_of_eval_null (by simp [eval, ha, Value.isNull])]
      simp
  | false =>
      refine holds_of_eval_boolean ?_
      simp [eval, ha, hnull, evalIsIn_eq a hitems]

theorem holds_between {arg low high : Expr} {a l h : Value} (ha : arg.eval row = .ok a)
    (hl : low.eval row = .ok l) (hh : high.eval row = .ok h)
    (hlow : a.isNull = false → l.isNull = false → ∃ o, a.compare? l = some o)
    (hhigh : a.isNull = false → h.isNull = false → ∃ o, a.compare? h = some o) :
    (between arg low high).holds row =
      .ok ((a.compare? l).any (· ≠ .lt) && (a.compare? h).any (· ≠ .gt)) := by
  by_cases hnull : a.isNull = true ∨ l.isNull = true ∨ h.isNull = true
  · rw [holds_of_eval_null]
    · rcases hnull with hnull | hnull | hnull <;> obtain rfl :=
        Value.eq_null_of_isNull hnull <;> simp
    · rcases hnull with hnull | hnull | hnull <;> simp [eval, ha, hl, hh, evalBetween, hnull]
  · simp only [not_or, Bool.not_eq_true] at hnull
    obtain ⟨hnulla, hnulllow, hnullhigh⟩ := hnull
    obtain ⟨first, hfirst⟩ := hlow hnulla hnulllow
    obtain ⟨second, hsecond⟩ := hhigh hnulla hnullhigh
    refine holds_of_eval_boolean ?_
    simp [eval, ha, hl, hh, evalBetween, hnulla, hnulllow, hnullhigh, order, hfirst, hsecond]

/-! ## Texts -/

theorem eval_lower {arg : Expr} {a : Value} (ha : arg.eval row = .ok a)
    (htext : a.conforms .text = true) : (unary .lower arg).eval row = .ok a.lowered := by
  rcases Value.text_or_null_of_conforms htext with rfl | ⟨s, rfl⟩ <;>
    simp [eval, ha, evalUnary, Value.lowered]

theorem holds_hasPart {m : TextMatch} {left right : Expr} {a b : Value} (ha : left.eval row = .ok a)
    (hb : right.eval row = .ok b) (htexta : a.conforms .text = true)
    (htextb : b.conforms .text = true) :
    (binary (.hasPart m) left right).holds row = .ok (Value.bothTexts m.holds a b) := by
  rcases Value.text_or_null_of_conforms htexta with rfl | ⟨s, rfl⟩
  · exact holds_of_eval_null (by simp [eval, ha, hb, evalBinary, Value.isNull, evalWithNull])
  · rcases Value.text_or_null_of_conforms htextb with rfl | ⟨part, rfl⟩
    · exact holds_of_eval_null (by simp [eval, ha, hb, evalBinary, Value.isNull, evalWithNull])
    · exact holds_of_eval_boolean
        (by simp [eval, ha, hb, evalBinary, Value.isNull, evalNonNull, Value.bothTexts])

end Expr

end EntityQuery
