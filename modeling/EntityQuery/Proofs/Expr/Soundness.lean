import EntityQuery.Proofs.Expr.Typing

/-!
# Soundness of the checker of predicates

The checker leaves operands of unknown type to evaluation.  Null is an operand of every operator,
but a conjunction or disjunction of unknown type may turn out to be a truth value, for which an
operator on texts or numbers has no result.

So an accepted predicate has a truth on every row of the schema unless such an undecided expression
is an operand of an operator that does not take truth values, and there the only fault is that of
the operator.

## Main definitions

* `Expr.isUndecided` : a conjunction or disjunction without a checked type
* `Expr.misplaces` : an undecided operand stands below an operator that does not take truth values
* `Expr.Answers` : a result, or the fault of an operator where something is misplaced

## Main statements

* `answers_eval` : an accepted expression has a value on every row, or misplaces an undecided
  operand
* `holds_or_misplaces` : an accepted predicate has a truth on every row, or misplaces an undecided
  operand
-/

namespace EntityQuery

/-- The operator has a result for the operands, as far as their types are there. -/
def BinaryOp.takes (op : BinaryOp) : Option ScalarType → Option ScalarType → Bool
  | some left, some right => (op.resultType? left right).isSome
  | _, _ => true

/-- The operator has a result for the operand, as far as its type is there. -/
def UnaryOp.takes (op : UnaryOp) : Option ScalarType → Bool
  | some t => (op.resultType? t).isSome
  | none => true

/-- A range of two bounds has a result, as far as the types are there. -/
def rangeTakes : Option ScalarType → Option ScalarType → Option ScalarType → Bool
  | some value, some low, some high => value.comparable low && value.comparable high
  | _, _, _ => true

namespace Expr

section

variable (schema : List ScalarType)

/-- A conjunction or disjunction without a checked type: null may leave it to the other operand. -/
def isUndecided (e : Expr) : Bool :=
  e.isConnective && match e.check schema with
    | .ok none => true
    | _ => false

mutual

/-- Somewhere an operand is undecided, and its operator does not take a truth value beside the other
operands. -/
def misplaces : Expr → Bool
  | .literal _ | .column _ _ => false
  | .binary op left right =>
    left.misplaces || right.misplaces ||
      ((left.isUndecided schema || right.isUndecided schema) &&
        !op.takes (left.mayBe schema) (right.mayBe schema))
  | .unary op arg => arg.misplaces || (arg.isUndecided schema && !op.takes (arg.mayBe schema))
  | .isIn arg items => arg.misplaces || misplacesItems items
  | .between arg low high =>
    arg.misplaces || low.misplaces || high.misplaces ||
      ((arg.isUndecided schema || low.isUndecided schema || high.isUndecided schema) &&
        !rangeTakes (arg.mayBe schema) (low.mayBe schema) (high.mayBe schema))

/-- One of some expressions misplaces an undecided operand. -/
def misplacesItems : List Expr → Bool
  | [] => false
  | item :: rest => item.misplaces || misplacesItems rest

end

end

variable {schema : List ScalarType} {row : Row}

/-! ## Faults of operators -/

theorem evalNonNull_ok_or_invalid (op : BinaryOp) (a b : Value) :
    (∃ v, evalNonNull op a b = .ok v) ∨
      ∃ sign left right, evalNonNull op a b = .error (.invalidOperands sign left right) := by
  unfold evalNonNull
  split
  · cases h : a.compare? b <;> simp [order, h, invalidValues]
  all_goals simp [invalidValues]

theorem exists_evalNonNull {op : BinaryOp} {t u : ScalarType} {a b : Value}
    (htu : (op.resultType? t u).isSome) (ha : a.ofType t = true) (hb : b.ofType u = true) :
    ∃ v, evalNonNull op a b = .ok v := by
  unfold BinaryOp.resultType? at htu
  split at htu
  · split at htu
    · next hcomparable =>
      obtain ⟨o, ho⟩ := Value.exists_compare? hcomparable ha hb
      simp [evalNonNull, order, ho]
    · simp at htu
  · obtain ⟨x, rfl⟩ := Value.exists_eq_ofContent ha
    obtain ⟨y, rfl⟩ := Value.exists_eq_ofContent hb
    exact ⟨_, rfl⟩
  · obtain ⟨x, rfl⟩ := Value.exists_eq_ofContent ha
    obtain ⟨y, rfl⟩ := Value.exists_eq_ofContent hb
    exact ⟨_, rfl⟩
  · obtain ⟨s, rfl⟩ := Value.exists_text_of_ofType ha
    obtain ⟨part, rfl⟩ := Value.exists_text_of_ofType hb
    exact ⟨_, rfl⟩
  · simp at htu

theorem known_of_mayBe {e : Expr} {c : Option ScalarType} {t : ScalarType}
    (he : e.check schema = .ok c) (ht : e.mayBe schema = some t)
    (hdecided : e.isUndecided schema = false) : c = some t := by
  cases c with
  | none => simp_all [mayBe, isUndecided]
  | some u => simpa [mayBe, he] using ht

/-! ## Faults of accepted expressions -/

/-- A result, or the fault of an operator where something is misplaced. -/
def Answers {α : Type} (misplaced : Bool) (x : Except ExprFault α) : Prop :=
  (∃ a, x = .ok a) ∨
    (misplaced = true ∧ ∃ sign left right, x = .error (.invalidOperands sign left right))

section

variable {α β : Type} {m n : Bool} {x : Except ExprFault α}

theorem Answers.of_ok {a : α} (hx : x = .ok a) : Answers m x := .inl ⟨a, hx⟩

theorem Answers.bind {f : α → Except ExprFault β} (hx : Answers m x)
    (hf : ∀ a, x = .ok a → Answers n (f a)) : Answers (m || n) (x >>= f) := by
  rcases hx with ⟨a, rfl⟩ | ⟨hm, sign, left, right, rfl⟩
  · rcases hf a rfl with ⟨b, hb⟩ | ⟨hn, sign, left, right, hb⟩
    · exact .inl ⟨b, hb⟩
    · exact .inr ⟨by simp [hn], sign, left, right, hb⟩
  · exact .inr ⟨by simp [hm], sign, left, right, rfl⟩

end

/-- An operation on values of the types that its operands may have. -/
theorem answers_binary {op : BinaryOp} {left right : Expr} {p q c : Option ScalarType} {a b : Value}
    (hleft : left.check schema = .ok p) (hright : right.check schema = .ok q)
    (hcheck : checkBinary op p q = .ok c) (ha : a.within (left.mayBe schema))
    (hb : b.within (right.mayBe schema)) :
    Answers ((left.isUndecided schema || right.isUndecided schema) &&
      !op.takes (left.mayBe schema) (right.mayBe schema)) (evalBinary op a b) := by
  rcases ha with rfl | ⟨t, ht, ha⟩
  · exact .of_ok (a := evalWithNull op .null b) (by simp [evalBinary, Value.isNull])
  rcases hb with rfl | ⟨u, hu, hb⟩
  · exact .of_ok (a := evalWithNull op a .null) (by simp [evalBinary, Value.isNull])
  have heval : evalBinary op a b = evalNonNull op a b := by
    simp [evalBinary, Value.isNull_of_ofType ha, Value.isNull_of_ofType hb]
  rw [heval]
  by_cases htakes : (op.resultType? t u).isSome
  · exact .inl (exists_evalNonNull htakes ha hb)
  rcases evalNonNull_ok_or_invalid op a b with hv | hfault
  · exact .inl hv
  refine .inr ⟨?_, hfault⟩
  -- operands of known types have been accepted, so one of them is undecided
  by_contra hundecided
  rw [ht, hu] at hundecided
  have hdecided : left.isUndecided schema = false ∧ right.isUndecided schema = false := by
    simpa [BinaryOp.takes, htakes] using hundecided
  obtain rfl := known_of_mayBe hleft ht hdecided.1
  obtain rfl := known_of_mayBe hright hu hdecided.2
  obtain ⟨r, hresult, -⟩ := checkBinary_some_eq_ok_iff.mp hcheck
  simp [hresult] at htakes

theorem exists_evalUnary {op : UnaryOp} {t : ScalarType} {a : Value}
    (ht : (op.resultType? t).isSome) (ha : a.ofType t = true) : ∃ v, evalUnary op a = .ok v := by
  cases op <;> cases a <;> cases t <;>
    simp_all [UnaryOp.resultType?, Value.ofType, Value.type?, evalUnary]

theorem evalUnary_ok_or_invalid (op : UnaryOp) (a : Value) :
    (∃ v, evalUnary op a = .ok v) ∨
      ∃ sign left right, evalUnary op a = .error (.invalidOperands sign left right) := by
  unfold evalUnary
  split <;> simp

theorem answers_unary {op : UnaryOp} {arg : Expr} {p c : Option ScalarType} {a : Value}
    (harg : arg.check schema = .ok p) (hcheck : checkUnary op p = .ok c)
    (ha : a.within (arg.mayBe schema)) :
    Answers (arg.isUndecided schema && !op.takes (arg.mayBe schema)) (evalUnary op a) := by
  rcases ha with rfl | ⟨t, ht, ha⟩
  · cases op <;> exact .inl ⟨_, rfl⟩
  by_cases htakes : (op.resultType? t).isSome
  · exact .inl (exists_evalUnary htakes ha)
  rcases evalUnary_ok_or_invalid op a with hv | hfault
  · exact .inl hv
  refine .inr ⟨?_, hfault⟩
  by_contra hundecided
  rw [ht] at hundecided
  have hdecided : arg.isUndecided schema = false := by
    simpa [UnaryOp.takes, htakes] using hundecided
  obtain rfl := known_of_mayBe harg ht hdecided
  obtain ⟨r, hresult, -⟩ := checkUnary_some_eq_ok_iff.mp hcheck
  simp [hresult] at htakes

theorem order_ok_or_invalid (sign : String) (a b : Value) :
    (∃ o, order sign a b = .ok o) ∨
      ∃ sign' left right, order sign a b = .error (.invalidOperands sign' left right) := by
  unfold order
  cases h : a.compare? b <;> simp [invalidValues]

theorem evalBetween_ok_or_invalid (value low high : Value) :
    (∃ v, evalBetween value low high = .ok v) ∨
      ∃ sign left right, evalBetween value low high =
        .error (.invalidOperands sign left right) := by
  unfold evalBetween
  split
  · exact .inl ⟨_, rfl⟩
  rcases order_ok_or_invalid "BETWEEN" value low with ⟨first, hfirst⟩ | ⟨sign, left, right, h⟩
  · rcases order_ok_or_invalid "BETWEEN" value high with ⟨second, hsecond⟩ | ⟨sign, left, right, h⟩
    · simp [hfirst, hsecond]
    · simp [hfirst, h]
  · simp [h]

theorem exists_evalBetween {t u w : ScalarType} {value low high : Value}
    (htu : t.comparable u = true) (htw : t.comparable w = true) (hvalue : value.ofType t = true)
    (hlow : low.ofType u = true) (hhigh : high.ofType w = true) :
    ∃ v, evalBetween value low high = .ok v := by
  obtain ⟨first, hfirst⟩ := Value.exists_compare? htu hvalue hlow
  obtain ⟨second, hsecond⟩ := Value.exists_compare? htw hvalue hhigh
  simp [evalBetween, Value.isNull_of_ofType hvalue, Value.isNull_of_ofType hlow,
    Value.isNull_of_ofType hhigh, order, hfirst, hsecond]

theorem comparable_of_checkComparable {sign : String} {t u : ScalarType} {r : Unit}
    (h : checkComparable sign (some t) (some u) = .ok r) : t.comparable u = true := by
  simp only [checkComparable] at h
  split at h
  · assumption
  · simp at h

theorem answers_between {arg low high : Expr} {p q r : Option ScalarType} {a l h : Value}
    {first second : Unit} (harg : arg.check schema = .ok p) (hlow : low.check schema = .ok q)
    (hhigh : high.check schema = .ok r) (hfirst : checkComparable "BETWEEN" p q = .ok first)
    (hsecond : checkComparable "BETWEEN" p r = .ok second) (ha : a.within (arg.mayBe schema))
    (hl : l.within (low.mayBe schema)) (hh : h.within (high.mayBe schema)) :
    Answers ((arg.isUndecided schema || low.isUndecided schema || high.isUndecided schema) &&
      !rangeTakes (arg.mayBe schema) (low.mayBe schema) (high.mayBe schema))
        (evalBetween a l h) := by
  rcases ha with rfl | ⟨t, ht, ha⟩
  · exact .of_ok (a := .null) (by simp [evalBetween, Value.isNull])
  rcases hl with rfl | ⟨u, hu, hl⟩
  · exact .of_ok (a := .null) (by simp [evalBetween, Value.isNull])
  rcases hh with rfl | ⟨w, hw, hh⟩
  · exact .of_ok (a := .null) (by simp [evalBetween, Value.isNull])
  -- none of the three is null: the bounds compare with the value, or the types leave it open
  by_cases htakes : t.comparable u = true ∧ t.comparable w = true
  · exact .inl (exists_evalBetween htakes.1 htakes.2 ha hl hh)
  rcases evalBetween_ok_or_invalid a l h with hv | hfault
  · exact .inl hv
  refine .inr ⟨?_, hfault⟩
  by_contra hundecided
  rw [ht, hu, hw] at hundecided
  have hdecided : (arg.isUndecided schema = false ∧ low.isUndecided schema = false) ∧
      high.isUndecided schema = false := by
    by_contra hnot
    rw [← Bool.or_eq_false_iff, ← Bool.or_eq_false_iff, Bool.not_eq_false] at hnot
    rw [hnot, Bool.true_and, rangeTakes, Bool.not_eq_true', Bool.not_eq_false,
      Bool.and_eq_true] at hundecided
    exact htakes hundecided
  -- with all three types decided, the check has compared them
  obtain rfl := known_of_mayBe harg ht hdecided.1.1
  obtain rfl := known_of_mayBe hlow hu hdecided.1.2
  obtain rfl := known_of_mayBe hhigh hw hdecided.2
  exact htakes ⟨comparable_of_checkComparable hfirst, comparable_of_checkComparable hsecond⟩

mutual

/-- An accepted expression has a value on every row, or the operator above something misplaced is at
fault. -/
theorem answers_eval (hrow : row.OfTypes schema) :
    ∀ (e : Expr) {c : Option ScalarType}, e.isProper = true → e.check schema = .ok c →
      Answers (e.misplaces schema) (e.eval row)
  | .literal value, c, _, _ => .of_ok rfl
  | .column name none, c, _, hcheck => by simp [check] at hcheck
  | .column name (some index), c, _, hcheck => by
      obtain ⟨t, ht, -⟩ := check_column_eq_ok_iff.mp hcheck
      obtain ⟨v, hv, -⟩ := hrow.getElem? ht
      exact .of_ok (a := v) (by simp [eval, hv])
  | .binary op left right, c, hproper, hcheck => by
      rw [isProper, Bool.and_eq_true] at hproper
      obtain ⟨p, hp, q, hq, hcheck⟩ := check_binary_eq_ok_iff.mp hcheck
      rw [misplaces, eval, Bool.or_assoc]
      -- the operands answer first; what they answer is of the types that the operator is checked
      -- for
      refine (answers_eval hrow left hproper.1 hp).bind fun a ha => ?_
      refine (answers_eval hrow right hproper.2 hq).bind fun b hb => ?_
      exact answers_binary hp hq hcheck (within_of_eval hrow left hproper.1 hp ha)
        (within_of_eval hrow right hproper.2 hq hb)
  | .unary op arg, c, hproper, hcheck => by
      obtain ⟨p, hp, hcheck⟩ := check_unary_eq_ok_iff.mp hcheck
      rw [misplaces, eval]
      refine (answers_eval hrow arg hproper hp).bind fun a ha => ?_
      exact answers_unary hp hcheck (within_of_eval hrow arg hproper hp ha)
  | .isIn arg items, c, hproper, hcheck => by
      rw [isProper, Bool.and_eq_true] at hproper
      rw [check] at hcheck
      obtain ⟨p, hp, hcheck⟩ := Outcome.bind_eq_ok_iff.mp hcheck
      obtain ⟨u, hitems, -⟩ := Outcome.bind_eq_ok_iff.mp hcheck
      rw [misplaces, eval]
      refine (answers_eval hrow arg hproper.1 hp).bind fun a _ => ?_
      split
      · exact .of_ok rfl
      · exact answers_evalIsIn hrow a items hproper.2 hitems
  | .between arg low high, c, hproper, hcheck => by
      rw [isProper, Bool.and_eq_true, Bool.and_eq_true] at hproper
      obtain ⟨⟨hargs, hlows⟩, hhighs⟩ := hproper
      rw [check] at hcheck
      obtain ⟨p, hp, hcheck⟩ := Outcome.bind_eq_ok_iff.mp hcheck
      obtain ⟨q, hq, hcheck⟩ := Outcome.bind_eq_ok_iff.mp hcheck
      obtain ⟨first, hfirst, hcheck⟩ := Outcome.bind_eq_ok_iff.mp hcheck
      obtain ⟨r, hr, hcheck⟩ := Outcome.bind_eq_ok_iff.mp hcheck
      obtain ⟨second, hsecond, -⟩ := Outcome.bind_eq_ok_iff.mp hcheck
      rw [misplaces, eval, Bool.or_assoc, Bool.or_assoc]
      refine (answers_eval hrow arg hargs hp).bind fun a ha => ?_
      refine (answers_eval hrow low hlows hq).bind fun l hl => ?_
      refine (answers_eval hrow high hhighs hr).bind fun h hh => ?_
      exact answers_between hp hq hr hfirst hsecond (within_of_eval hrow arg hargs hp ha)
        (within_of_eval hrow low hlows hq hl) (within_of_eval hrow high hhighs hr hh)

theorem answers_evalIsIn (hrow : row.OfTypes schema) (value : Value) :
    ∀ (items : List Expr) {type : Option ScalarType} {u : Unit}, areProper items = true →
      checkItems schema type items = .ok u →
      Answers (misplacesItems schema items) (evalIsIn row value items)
  | [], _, _, _, _ => .of_ok rfl
  | item :: rest, type, u, hproper, hcheck => by
      rw [areProper, Bool.and_eq_true] at hproper
      rw [checkItems] at hcheck
      obtain ⟨p, hp, hcheck⟩ := Outcome.bind_eq_ok_iff.mp hcheck
      obtain ⟨-, -, hrest⟩ := Outcome.bind_eq_ok_iff.mp hcheck
      rw [misplacesItems, evalIsIn]
      refine (answers_eval hrow item hproper.1 hp).bind fun w _ => ?_
      split
      · exact .of_ok rfl
      · exact answers_evalIsIn hrow value rest hproper.2 hrest

end

/-- An accepted predicate has a truth on every row of the schema, unless an operator stands above an
undecided operand that it does not take; there the fault can only be that of the operator. -/
theorem holds_or_misplaces {e : Expr} (hproper : e.isProper = true)
    (hcheck : e.checkPredicate schema = .ok ()) (hrow : row.OfTypes schema) :
    (∃ b, e.holds row = .ok b) ∨
      (e.misplaces schema = true ∧
        ∃ sign left right, e.holds row = .error (.invalidOperands sign left right)) := by
  obtain ⟨c, hc, -⟩ := Outcome.bind_eq_ok_iff.mp hcheck
  rcases answers_eval hrow e hproper hc with ⟨v, hv⟩ | ⟨hmisplaces, sign, left, right, hfault⟩
  · rcases null_or_boolean_of_checkPredicate hproper hcheck hrow hv with rfl | ⟨b, rfl⟩
    · exact .inl ⟨false, holds_of_eval_null hv⟩
    · exact .inl ⟨b, holds_of_eval_boolean hv⟩
  · exact .inr ⟨hmisplaces, sign, left, right, by simp [holds, hfault]⟩

/-- A comparison with a number or null is undecided, and stands where a truth value may. -/
theorem holds_of_undecided_disjunction :
    let e := or (compare .lt (column "pages" (some 0)) (literal (.int32 10))) (literal .null)
    e.isProper = true ∧ e.isUndecided [.int64] = true ∧ e.checkPredicate [.int64] = .ok () ∧
      Row.OfTypes [.int64] [.int64 12] ∧ ∃ b, e.holds [.int64 12] = .ok b := by
  intro e
  have hrow : Row.OfTypes [.int64] [.int64 12] := .cons rfl .nil
  have hnot : e.misplaces [.int64] ≠ true := by decide
  exact ⟨rfl, rfl, rfl, hrow,
    (holds_or_misplaces (e := e) rfl rfl hrow).resolve_right fun h => hnot h.1⟩

/-- The lower case of a conjunction with null is accepted, and has no truth where the conjunction is
false. -/
theorem accepted_without_truth :
    let e := unary .lower (and (literal .null) (column "active" (some 0)))
    e.isProper = true ∧ e.checkPredicate [.boolean] = .ok () ∧
      Row.OfTypes [.boolean] [.boolean false] ∧
      ¬ ∃ b, e.holds [.boolean false] = .ok b := by
  refine ⟨rfl, rfl, .cons rfl .nil, ?_⟩
  rintro ⟨b, hb⟩
  cases hb

end Expr

end EntityQuery
