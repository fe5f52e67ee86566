import EntityQuery.Expr.Typing
import EntityQuery.Proofs.Expr.Truth

/-!
# Values of accepted expressions

An expression that the checker accepts has null or values of its checked type on every row of the
schema.  Where null has been written for an operand the checker may know no type.  Most such
expressions are null on every row, but a conjunction or a disjunction is not: false decides a
conjunction with null, true a disjunction.  What is of unknown type is therefore null or a truth
value.

## Main definitions

* `Row.OfTypes` : one value for every type, each null or of its type
* `Expr.isProper` : no literal is a list or not a number
* `Expr.mayBe` : the type of the values other than null that an accepted expression can have

## Main statements

* `within_of_eval` : an accepted expression has no other values than null and those of its type
* `null_or_boolean_of_checkPredicate` : what is accepted as a predicate is null or a truth value
-/

namespace EntityQuery

/-- Null, or a value of the type if there is one. -/
def Value.within (t : Option ScalarType) (v : Value) : Prop :=
  v = .null ∨ ∃ u ∈ t, v.ofType u = true

/-- One value for every type, each null or of its type. -/
def Row.OfTypes (types : List ScalarType) (row : Row) : Prop :=
  List.Forall₂ (fun t v => v.conforms t = true) types row

theorem Row.OfTypes.getElem? {types : List ScalarType} {row : Row} (hrow : row.OfTypes types)
    {i : Nat} {t : ScalarType} (ht : types[i]? = some t) :
    ∃ v, row[i]? = some v ∧ v.conforms t = true := by
  obtain ⟨hlt, rfl⟩ := List.getElem?_eq_some_iff.mp ht
  have hlt' : i < row.length := (List.Forall₂.length_eq hrow) ▸ hlt
  exact ⟨row[i], List.getElem?_eq_getElem hlt', List.Forall₂.get hrow hlt hlt'⟩

namespace Expr

mutual

/-- No literal is a list or a binary64 value that is not a number. -/
def isProper : Expr → Bool
  | .literal value => value.isProper
  | .column _ _ => true
  | .binary _ left right => left.isProper && right.isProper
  | .unary _ arg => arg.isProper
  | .isIn arg items => arg.isProper && areProper items
  | .between arg low high => arg.isProper && low.isProper && high.isProper

/-- All expressions are proper. -/
def areProper : List Expr → Bool
  | [] => true
  | item :: rest => item.isProper && areProper rest

end

/-- A conjunction or a disjunction. -/
def isConnective : Expr → Bool
  | .binary .and _ _ | .binary .or _ _ => true
  | _ => false

/-- The type of the values other than null that an accepted expression can have. -/
def mayBe (schema : List ScalarType) (e : Expr) : Option ScalarType :=
  match e.check schema with
  | .ok (some t) => some t
  | _ => if e.isConnective then some .boolean else none

variable {schema : List ScalarType} {row : Row}

/-! ## Accepted columns and operations -/

theorem check_column_eq_ok_iff {name : String} {index : Nat} {r : Option ScalarType} :
    (column name (some index)).check schema = .ok r ↔
      ∃ t, schema[index]? = some t ∧ r = some t := by
  rw [check]
  cases schema[index]? <;> simp [eq_comm]

theorem checkBinary_some_eq_ok_iff {op : BinaryOp} {left right : ScalarType}
    {r : Option ScalarType} :
    checkBinary op (some left) (some right) = .ok r ↔
      ∃ t, op.resultType? left right = some t ∧ r = some t := by
  unfold checkBinary
  cases h : op.resultType? left right <;> simp [h, eq_comm]

theorem checkUnary_some_eq_ok_iff {op : UnaryOp} {operand : ScalarType} {r : Option ScalarType} :
    checkUnary op (some operand) = .ok r ↔ ∃ t, op.resultType? operand = some t ∧ r = some t := by
  unfold checkUnary
  cases h : op.resultType? operand <;> simp [h, eq_comm]

theorem check_binary_eq_ok_iff {op : BinaryOp} {left right : Expr} {r : Option ScalarType} :
    (binary op left right).check schema = .ok r ↔
      ∃ p, left.check schema = .ok p ∧ ∃ q, right.check schema = .ok q ∧
        checkBinary op p q = .ok r := by
  simp only [check, Outcome.bind_eq_ok_iff]

theorem check_unary_eq_ok_iff {op : UnaryOp} {arg : Expr} {r : Option ScalarType} :
    (unary op arg).check schema = .ok r ↔
      ∃ p, arg.check schema = .ok p ∧ checkUnary op p = .ok r := by
  rw [check, Outcome.bind_eq_ok_iff]

/-! ## Results of operators -/

theorem exists_boolean_of_evalNonNull {op : BinaryOp} {a b v : Value}
    (hv : evalNonNull op a b = .ok v) : ∃ c, v = .boolean c := by
  unfold evalNonNull at hv
  split at hv
  · obtain ⟨o, -, hv⟩ := Outcome.bind_eq_ok_iff.mp hv
    exact ⟨_, (Except.ok.inj hv).symm⟩
  all_goals first
    | exact ⟨_, (Except.ok.inj hv).symm⟩
    | simp at hv

theorem null_or_boolean_of_evalBinary {op : BinaryOp} {a b v : Value}
    (hv : evalBinary op a b = .ok v) : v = .null ∨ ∃ c, v = .boolean c := by
  unfold evalBinary at hv
  split at hv
  · obtain rfl := Except.ok.inj hv
    unfold evalWithNull
    split <;> simp
  · exact .inr (exists_boolean_of_evalNonNull hv)

theorem null_of_evalBinary_hasPart {m : TextMatch} {a b v : Value}
    (hv : evalBinary (.hasPart m) a b = .ok v) :
    v = .null ∨ (∃ s, a = .text s) ∧ ∃ part, b = .text part := by
  unfold evalBinary at hv
  split at hv
  · exact .inl (Except.ok.inj hv).symm
  · unfold evalNonNull at hv
    split at hv <;> simp_all

theorem resultType?_eq_boolean {op : BinaryOp} {t u r : ScalarType}
    (h : op.resultType? t u = some r) : r = .boolean := by
  unfold BinaryOp.resultType? at h
  split at h
  · split at h <;> simp_all
  all_goals simp_all

/-! ## Values of accepted expressions -/

theorem mayBe_of_known {e : Expr} {t : ScalarType} (he : e.check schema = .ok (some t)) :
    e.mayBe schema = some t := by
  simp [mayBe, he]

theorem within_boolean {e : Expr} {v : Value} (he : e.check schema = .ok (some .boolean))
    (hv : v = .null ∨ ∃ b, v = .boolean b) : v.within (e.mayBe schema) := by
  rw [mayBe_of_known he]
  rcases hv with rfl | ⟨b, rfl⟩
  · exact .inl rfl
  · exact .inr ⟨.boolean, rfl, rfl⟩

theorem mayBe_of_connective {e : Expr} (he : e.check schema = .ok none)
    (hconn : e.isConnective = true) : e.mayBe schema = some .boolean := by
  simp [mayBe, he, hconn]

theorem null_or_boolean_of_unknown {e : Expr} {v : Value} (he : e.check schema = .ok none)
    (hv : v.within (e.mayBe schema)) : v = .null ∨ ∃ b, v = .boolean b := by
  rcases hv with hv | ⟨t, ht, hv⟩
  · exact .inl hv
  · obtain rfl : t = .boolean := by
      simp only [mayBe, he, Option.mem_def] at ht
      split at ht <;> simp_all
    cases v <;> simp_all [Value.ofType, Value.type?]

/-- The value of a binary operation whose operands have no other values than those of their
types. -/
theorem within_binary {op : BinaryOp} {left right : Expr} {p q c : Option ScalarType}
    {a b v : Value} (hleft : left.check schema = .ok p) (hright : right.check schema = .ok q)
    (hcheck : checkBinary op p q = .ok c) (ha : a.within (left.mayBe schema))
    (hb : b.within (right.mayBe schema)) (hv : evalBinary op a b = .ok v) :
    v.within ((binary op left right).mayBe schema) := by
  have he : (binary op left right).check schema = .ok c := by simp [check, hleft, hright, hcheck]
  rcases null_or_boolean_of_evalBinary hv with rfl | ⟨w, rfl⟩
  · exact .inl rfl
  · refine .inr ⟨.boolean, ?_, rfl⟩
    cases c with
    | some t =>
        rw [mayBe_of_known he]
        unfold checkBinary at hcheck
        split at hcheck
        · split at hcheck
          · next hresult =>
            simp_all [resultType?_eq_boolean hresult]
          · simp at hcheck
        · split at hcheck <;> simp_all
    | none =>
        cases op with
        | compare cmp =>
            unfold checkBinary at hcheck
            split at hcheck
            · split at hcheck <;> simp_all
            · simp [BinaryOp.isComparison] at hcheck
        | and => exact mayBe_of_connective he rfl
        | or => exact mayBe_of_connective he rfl
        | hasPart m =>
            -- two texts are there, so none of the types is unknown, and then the checker knows the
            -- result
            obtain ⟨⟨s, rfl⟩, part, rfl⟩ := (null_of_evalBinary_hasPart hv).resolve_left (by simp)
            cases p with
            | none => simpa using null_or_boolean_of_unknown hleft ha
            | some t =>
                cases q with
                | none => simpa using null_or_boolean_of_unknown hright hb
                | some u =>
                    obtain ⟨r, -, hr⟩ := checkBinary_some_eq_ok_iff.mp hcheck
                    cases hr

/-- The value of a unary operation whose operand has no other values than those of its type. -/
theorem within_unary {op : UnaryOp} {arg : Expr} {p c : Option ScalarType} {a v : Value}
    (harg : arg.check schema = .ok p) (hcheck : checkUnary op p = .ok c)
    (ha : a.within (arg.mayBe schema)) (hv : evalUnary op a = .ok v) :
    v.within ((unary op arg).mayBe schema) := by
  have he : (unary op arg).check schema = .ok c := by simp [check, harg, hcheck]
  cases op with
  | lower =>
      cases p with
      | none =>
          rcases null_or_boolean_of_unknown harg ha with rfl | ⟨b, rfl⟩
          · exact .inl (Except.ok.inj hv).symm
          · simp [evalUnary] at hv
      | some t =>
          cases t <;> simp [checkUnary, UnaryOp.resultType?] at hcheck
          subst hcheck
          rw [mayBe_of_known he]
          cases a <;> simp [evalUnary] at hv <;> subst hv
          · exact .inl rfl
          · exact .inr ⟨.text, rfl, rfl⟩
  | not | isNull | isNotNull | isTrue =>
      obtain rfl : c = some .boolean := by
        cases p with
        | none => exact (Except.ok.inj hcheck).symm
        | some t => cases t <;> simp_all [checkUnary, UnaryOp.resultType?]
      rw [mayBe_of_known he]
      cases a <;> simp [evalUnary] at hv <;> subst hv
      all_goals first
        | exact .inl rfl
        | exact .inr ⟨.boolean, rfl, rfl⟩

theorem exists_boolean_of_evalIsIn {value v : Value} {items : List Expr}
    (hv : evalIsIn row value items = .ok v) : ∃ b, v = .boolean b := by
  induction items with
  | nil => exact ⟨false, (Except.ok.inj hv).symm⟩
  | cons item items ih =>
      rw [evalIsIn] at hv
      obtain ⟨w, -, hv⟩ := Outcome.bind_eq_ok_iff.mp hv
      split at hv
      · exact ⟨true, (Except.ok.inj hv).symm⟩
      · exact ih hv

theorem null_or_boolean_of_evalBetween {value low high v : Value}
    (hv : evalBetween value low high = .ok v) : v = .null ∨ ∃ b, v = .boolean b := by
  unfold evalBetween at hv
  split at hv
  · exact .inl (Except.ok.inj hv).symm
  · obtain ⟨above, -, hv⟩ := Outcome.bind_eq_ok_iff.mp hv
    obtain ⟨below, -, hv⟩ := Outcome.bind_eq_ok_iff.mp hv
    exact .inr ⟨_, (Except.ok.inj hv).symm⟩

theorem eq_boolean_of_check_isIn {arg : Expr} {items : List Expr} {c : Option ScalarType}
    (h : (isIn arg items).check schema = .ok c) : c = some .boolean := by
  rw [check] at h
  obtain ⟨p, -, h⟩ := Outcome.bind_eq_ok_iff.mp h
  obtain ⟨u, -, h⟩ := Outcome.bind_eq_ok_iff.mp h
  exact (Except.ok.inj h).symm

theorem eq_boolean_of_check_between {arg low high : Expr} {c : Option ScalarType}
    (h : (between arg low high).check schema = .ok c) : c = some .boolean := by
  rw [check] at h
  obtain ⟨p, -, h⟩ := Outcome.bind_eq_ok_iff.mp h
  obtain ⟨q, -, h⟩ := Outcome.bind_eq_ok_iff.mp h
  obtain ⟨u, -, h⟩ := Outcome.bind_eq_ok_iff.mp h
  obtain ⟨r, -, h⟩ := Outcome.bind_eq_ok_iff.mp h
  obtain ⟨w, -, h⟩ := Outcome.bind_eq_ok_iff.mp h
  exact (Except.ok.inj h).symm

/-- An accepted expression has no other values than null and those of its type. -/
theorem within_of_eval (hrow : row.OfTypes schema) :
    ∀ (e : Expr) {c : Option ScalarType} {v : Value}, e.isProper = true → e.check schema = .ok c →
      e.eval row = .ok v → v.within (e.mayBe schema)
  | .literal value, c, v, hproper, hcheck, hv => by
      obtain rfl := Except.ok.inj hv
      cases htype : value.type? with
      | none => cases value <;> simp_all [Value.type?, isProper, Value.isProper, Value.within]
      | some t =>
          -- a literal that is not null is of the type that it is checked as
          rw [mayBe_of_known (t := t) (by simp [check, htype])]
          exact .inr ⟨t, rfl, by simpa [Value.ofType, htype, isProper] using hproper⟩
  | .column name none, c, v, hproper, hcheck, hv => by simp [check] at hcheck
  | .column name (some index), c, v, hproper, hcheck, hv => by
      obtain ⟨t, ht, rfl⟩ := check_column_eq_ok_iff.mp hcheck
      rw [mayBe_of_known hcheck]
      obtain ⟨w, hw, hconforms⟩ := hrow.getElem? ht
      obtain rfl : w = v := by simpa [eval, hw] using hv
      cases hnull : w.isNull with
      | true => exact .inl (Value.eq_null_of_isNull hnull)
      | false => exact .inr ⟨t, rfl, Value.ofType_of_conforms hconforms hnull⟩
  | .binary op left right, c, v, hproper, hcheck, hv => by
      rw [isProper, Bool.and_eq_true] at hproper
      obtain ⟨p, hp, q, hq, hcheck⟩ := check_binary_eq_ok_iff.mp hcheck
      rw [eval] at hv
      obtain ⟨a, ha, hv⟩ := Outcome.bind_eq_ok_iff.mp hv
      obtain ⟨b, hb, hv⟩ := Outcome.bind_eq_ok_iff.mp hv
      exact within_binary hp hq hcheck (within_of_eval hrow left hproper.1 hp ha)
        (within_of_eval hrow right hproper.2 hq hb) hv
  | .unary op arg, c, v, hproper, hcheck, hv => by
      obtain ⟨p, hp, hcheck⟩ := check_unary_eq_ok_iff.mp hcheck
      rw [eval] at hv
      obtain ⟨a, ha, hv⟩ := Outcome.bind_eq_ok_iff.mp hv
      exact within_unary hp hcheck (within_of_eval hrow arg hproper hp ha) hv
  | .isIn arg items, c, v, hproper, hcheck, hv => by
      obtain rfl := eq_boolean_of_check_isIn hcheck
      -- whatever is looked for, the answer is null or a truth value
      refine within_boolean hcheck ?_
      rw [eval] at hv
      obtain ⟨a, -, hv⟩ := Outcome.bind_eq_ok_iff.mp hv
      split at hv
      · exact .inl (Except.ok.inj hv).symm
      · exact .inr (exists_boolean_of_evalIsIn hv)
  | .between arg low high, c, v, hproper, hcheck, hv => by
      obtain rfl := eq_boolean_of_check_between hcheck
      refine within_boolean hcheck ?_
      rw [eval] at hv
      obtain ⟨a, -, hv⟩ := Outcome.bind_eq_ok_iff.mp hv
      obtain ⟨l, -, hv⟩ := Outcome.bind_eq_ok_iff.mp hv
      obtain ⟨h, -, hv⟩ := Outcome.bind_eq_ok_iff.mp hv
      exact null_or_boolean_of_evalBetween hv

/-- What is accepted as a predicate is null or a truth value. -/
theorem null_or_boolean_of_checkPredicate {e : Expr} {v : Value} (hproper : e.isProper = true)
    (hcheck : e.checkPredicate schema = .ok ()) (hrow : row.OfTypes schema)
    (hv : e.eval row = .ok v) : v = .null ∨ ∃ b, v = .boolean b := by
  unfold checkPredicate at hcheck
  obtain ⟨c, hc, hcheck⟩ := Outcome.bind_eq_ok_iff.mp hcheck
  have hwithin := within_of_eval hrow e hproper hc hv
  split at hcheck
  · exact null_or_boolean_of_unknown hc hwithin
  · rw [mayBe_of_known hc] at hwithin
    rcases hwithin with rfl | ⟨t, ht, hv⟩
    · exact .inl rfl
    · obtain rfl := Option.some.inj ht
      cases v <;> simp_all [Value.ofType, Value.type?]
  · simp at hcheck

end Expr

end EntityQuery
