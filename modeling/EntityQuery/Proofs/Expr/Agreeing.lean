import EntityQuery.Proofs.Expr.Typing

/-!
# The two types of an expression

The type that operators tell and the checked type are computed apart.  The first is missing as soon
as an operand has no type, and takes memberships and ranges for truth values without a look at their
operands.  The second is missing only where null or a list may be an operand, and a fault where
operands do not go together.

So the types differ in two ways only.  Operators tell nothing where the checker knows the type of a
result for operands of unknown type, which takes a literal without type; and they tell a type where
the checker finds a fault, which takes a membership or a range with a faulty operand.

## Main definitions

* `Expr.hasTypedLiterals` : no literal is null or a list
* `Expr.isOperational` : no membership and no range

## Main statements

* `type?_of_check` : operators tell nothing, or the checked type
* `exists_type_of_check` : where literals have types, an accepted expression has one, and operators
  tell it
* `check_of_type?` : without memberships and ranges, a type that operators tell is the checked type
* `types_agree` : all three
-/

namespace EntityQuery

namespace Expr

mutual

/-- No literal is null or a list. -/
def hasTypedLiterals : Expr → Bool
  | .literal value => !value.isNull && !value.isList
  | .column _ _ => true
  | .binary _ left right => left.hasTypedLiterals && right.hasTypedLiterals
  | .unary _ arg => arg.hasTypedLiterals
  | .isIn arg items => arg.hasTypedLiterals && haveTypedLiterals items
  | .between arg low high => arg.hasTypedLiterals && low.hasTypedLiterals && high.hasTypedLiterals

/-- No literal of some expressions is null or a list. -/
def haveTypedLiterals : List Expr → Bool
  | [] => true
  | item :: rest => item.hasTypedLiterals && haveTypedLiterals rest

end

/-- The expression is made of literals, columns and operators: there is no membership and no range
in it. -/
def isOperational : Expr → Bool
  | .literal _ | .column _ _ => true
  | .binary _ left right => left.isOperational && right.isOperational
  | .unary _ arg => arg.isOperational
  | .isIn _ _ | .between _ _ _ => false

variable {schema : List ScalarType}

/-! ## Operations -/

theorem exists_type_of_literal {value : Value} (h : (literal value).hasTypedLiterals = true) :
    ∃ t, value.type? = some t := by
  cases value <;> simp_all [hasTypedLiterals, Value.isNull, Value.isList, Value.type?]

theorem type?_binary_eq_some_iff {op : BinaryOp} {left right : Expr} {t : ScalarType} :
    (binary op left right).type? schema = some t ↔
      ∃ a, left.type? schema = some a ∧ ∃ b, right.type? schema = some b ∧
        op.resultType? a b = some t := by
  simp only [type?, Option.bind_eq_bind, Option.bind_eq_some_iff]

theorem type?_unary_eq_some_iff {op : UnaryOp} {arg : Expr} {t : ScalarType} :
    (unary op arg).type? schema = some t ↔
      ∃ a, arg.type? schema = some a ∧ op.resultType? a = some t := by
  simp only [type?, Option.bind_eq_bind, Option.bind_eq_some_iff]

/-! ## Accepted expressions -/

/-- A type that operators tell of an accepted expression is its checked type. -/
theorem eq_of_check_of_type? :
    ∀ (e : Expr) {r : Option ScalarType} {t : ScalarType}, e.check schema = .ok r →
      e.type? schema = some t →
      r = some t
  | .literal value, r, t, hcheck, htype => (Except.ok.inj hcheck).symm.trans htype
  | .column name none, r, t, hcheck, htype => by simp [check] at hcheck
  | .column name (some index), r, t, hcheck, htype => by
      obtain ⟨u, hu, rfl⟩ := check_column_eq_ok_iff.mp hcheck
      exact hu.symm.trans htype
  | .binary op left right, r, t, hcheck, htype => by
      obtain ⟨p, hp, q, hq, hcheck⟩ := check_binary_eq_ok_iff.mp hcheck
      obtain ⟨a, ha, b, hb, hresult⟩ := type?_binary_eq_some_iff.mp htype
      obtain rfl := eq_of_check_of_type? left hp ha
      obtain rfl := eq_of_check_of_type? right hq hb
      obtain ⟨u, hu, rfl⟩ := checkBinary_some_eq_ok_iff.mp hcheck
      exact hu.symm.trans hresult
  | .unary op arg, r, t, hcheck, htype => by
      obtain ⟨p, hp, hcheck⟩ := check_unary_eq_ok_iff.mp hcheck
      obtain ⟨a, ha, hresult⟩ := type?_unary_eq_some_iff.mp htype
      obtain rfl := eq_of_check_of_type? arg hp ha
      obtain ⟨u, hu, rfl⟩ := checkUnary_some_eq_ok_iff.mp hcheck
      exact hu.symm.trans hresult
  | .isIn arg items, r, t, hcheck, htype => (eq_boolean_of_check_isIn hcheck).trans htype
  | .between arg low high, r, t, hcheck, htype => (eq_boolean_of_check_between hcheck).trans htype

/-- Where all literals have types, an accepted expression has a type that operators tell. -/
theorem exists_type?_of_check :
    ∀ (e : Expr) {r : Option ScalarType}, e.hasTypedLiterals = true → e.check schema = .ok r →
      ∃ t, e.type? schema = some t
  | .literal value, r, htyped, hcheck => exists_type_of_literal htyped
  | .column name none, r, htyped, hcheck => by simp [check] at hcheck
  | .column name (some index), r, htyped, hcheck => by
      obtain ⟨t, ht, -⟩ := check_column_eq_ok_iff.mp hcheck
      exact ⟨t, ht⟩
  | .binary op left right, r, htyped, hcheck => by
      rw [hasTypedLiterals, Bool.and_eq_true] at htyped
      obtain ⟨p, hp, q, hq, hcheck⟩ := check_binary_eq_ok_iff.mp hcheck
      obtain ⟨a, ha⟩ := exists_type?_of_check left htyped.1 hp
      obtain ⟨b, hb⟩ := exists_type?_of_check right htyped.2 hq
      obtain rfl := eq_of_check_of_type? left hp ha
      obtain rfl := eq_of_check_of_type? right hq hb
      obtain ⟨u, hu, rfl⟩ := checkBinary_some_eq_ok_iff.mp hcheck
      exact ⟨u, type?_binary_eq_some_iff.mpr ⟨a, ha, b, hb, hu⟩⟩
  | .unary op arg, r, htyped, hcheck => by
      obtain ⟨p, hp, hcheck⟩ := check_unary_eq_ok_iff.mp hcheck
      obtain ⟨a, ha⟩ := exists_type?_of_check arg htyped hp
      obtain rfl := eq_of_check_of_type? arg hp ha
      obtain ⟨u, hu, rfl⟩ := checkUnary_some_eq_ok_iff.mp hcheck
      exact ⟨u, type?_unary_eq_some_iff.mpr ⟨a, ha, hu⟩⟩
  | .isIn _ _, _, _, _ | .between _ _ _, _, _, _ => ⟨.boolean, rfl⟩

/-- Without memberships and ranges, an expression of which operators tell a type is accepted with
that type. -/
theorem check_of_type? :
    ∀ (e : Expr) {t : ScalarType}, e.isOperational = true → e.type? schema = some t →
      e.check schema = .ok (some t)
  | .literal value, t, _, htype => congrArg Except.ok htype
  | .column name none, t, _, htype => by simp [type?] at htype
  | .column name (some index), t, _, htype => check_column_eq_ok_iff.mpr ⟨t, htype, rfl⟩
  | .binary op left right, t, hoperational, htype => by
      rw [isOperational, Bool.and_eq_true] at hoperational
      obtain ⟨a, ha, b, hb, hresult⟩ := type?_binary_eq_some_iff.mp htype
      exact check_binary_eq_ok_iff.mpr ⟨_, check_of_type? left hoperational.1 ha, _,
        check_of_type? right hoperational.2 hb, checkBinary_some_eq_ok_iff.mpr ⟨t, hresult, rfl⟩⟩
  | .unary op arg, t, hoperational, htype => by
      obtain ⟨a, ha, hresult⟩ := type?_unary_eq_some_iff.mp htype
      exact check_unary_eq_ok_iff.mpr
        ⟨_, check_of_type? arg hoperational ha, checkUnary_some_eq_ok_iff.mpr ⟨t, hresult, rfl⟩⟩

/-- The two types of an expression agree as far as both are there.  Where all literals have types,
an accepted expression has both; where there are no memberships and ranges, it is accepted as soon
as operators tell a type. -/
theorem types_agree (schema : List ScalarType) (e : Expr) :
    (∀ t u, e.check schema = .ok (some t) → e.type? schema = some u → t = u) ∧
      (e.hasTypedLiterals = true → ∀ r, e.check schema = .ok r → r.isSome = true ∧
        e.type? schema = r) ∧
        (e.isOperational = true → ∀ t,
          e.type? schema = some t → e.check schema = .ok (some t)) := by
  refine ⟨fun t u hcheck htype => ?_, fun htyped r hcheck => ?_, fun hoperational t htype => ?_⟩
  · exact Option.some.inj (eq_of_check_of_type? e hcheck htype)
  · obtain ⟨t, ht⟩ := exists_type?_of_check e htyped hcheck
    obtain rfl := eq_of_check_of_type? e hcheck ht
    exact ⟨rfl, ht⟩
  · exact check_of_type? e hoperational htype

/-- The lower case of a name that contains a word is told and checked alike.  Of a comparison with
null the checker alone knows the type; operators alone tell one of a membership of texts among
numbers. -/
theorem types_agree_title :
    let title := column "title" (some 0)
    let e := binary (.hasPart .contains) (unary .lower title) (literal (.text "harry"))
    e.hasTypedLiterals = true ∧ e.isOperational = true ∧ e.check [.text] = .ok (some .boolean) ∧
      e.type? [.text] = some .boolean ∧
      (compare .eq title (literal .null)).check [.text] = .ok (some .boolean) ∧
      (compare .eq title (literal .null)).type? [.text] = none ∧
      (isIn title [literal (.int32 1)]).type? [.text] = some .boolean ∧
      ¬ ∃ r, (isIn title [literal (.int32 1)]).check [.text] = .ok r := by
  intro title e
  obtain ⟨-, htyped, hoperational⟩ := types_agree [.text] e
  have hcheck := hoperational rfl .boolean rfl
  refine ⟨rfl, rfl, hcheck, (htyped rfl _ hcheck).2, rfl, rfl, rfl, ?_⟩
  rintro ⟨r, hr⟩
  cases hr

end Expr

end EntityQuery
