import EntityQuery.Proofs.Search.Demands

/-!
# Attributes as members of a filter

A filter of one member compares an attribute: with a literal, to which it has to be equal, or by an
operator with what the operator takes.  Such a filter is read as the one test that it says, for
every attribute that holds a scalar and for every operator that applies to its type, unless the
attribute is called like an operator.

Names of operators are not reserved, so an accepted catalog may have such an attribute.  But a key
is looked up among the operators first, and one that stands in front of a field never gets as far as
the attributes, see `read_attribute_iff`.

## Strategy

A single member is the whole filter (`read_singleton`).  What is done with it depends on what its
key stands for: a scalar field takes the value as its condition (`member_of_scalar`), an operator
without a field is a fault whatever the value is (`member_of_error`).  It remains to read the
condition, where the literals are described by the values that they stand for
(`literal_eq_ok_iff_operand`).

## Main definitions

* `Grammar.Denotes` : the value of a literal
* `Grammar.OperandDenotes` : the value of what an operator takes

## Main statements

* `literal_eq_ok_iff_operand` : the literals that are read, with their values
* `read_attribute_iff` : when a filter of one attribute is read as the test of it
-/

namespace EntityQuery

/-! ## Values of literals -/

namespace Grammar

/-- The literal stands for the value: for one of the type, or else for a number where values of a
whole-number type are ordered. -/
def Denotes (op : FilterOperator) (t : ScalarType) (json : Json) (v : Value) : Prop :=
  Value.ofJson? t json = some v ∨
    Value.ofJson? t json = none ∧ op.ordersValues = true ∧ t.isInteger = true ∧
    Value.ofJson? .float64 json = some v

/-- What an operator takes on a field of the type, with its value: an array of literals, for
`between` of two at least, or a single literal. -/
def OperandDenotes (op : FilterOperator) (t : ScalarType) (json : Json) (v : Value) : Prop :=
  if op.takesList then
    ∃ items values, json = .arr items ∧ v = .list values ∧ (op = .between → 2 ≤ items.length) ∧
      List.Forall₂ (Denotes op t) items values
  else json.isScalar = true ∧ Denotes op t json v

end Grammar

theorem Value.isScalar_of_ofJson? {t : ScalarType} {json : Json} {v : Value}
    (hv : ofJson? t json = some v) : json.isScalar = true := by
  cases json with
  | arr | obj => cases t <;> simp [ofJson?] at hv
  | null | bool | int | real | str => rfl

namespace FilterReader

variable {c : Catalog} {root name : String} {path : Option Path} {f : FieldRef}
  {op : FilterOperator} {t : ScalarType} {json : Json} {v : Value}

theorem single_eq_ok_iff_denotes {text : String} :
    single op text t json = .ok v ↔ Grammar.Denotes op t json v := by
  unfold single Grammar.Denotes
  dsimp only
  rw [Option.orElse_eq_orElse, Option.orElse_eq_or]
  cases Value.ofJson? t json with
  | some found => simp
  | none =>
      cases op.ordersValues <;> cases t.isInteger <;> cases Value.ofJson? .float64 json <;> simp

/-- The literals that are read, with their values. -/
theorem literal_eq_ok_iff_operand {text : String} :
    literal op text t json = .ok v ↔ Grammar.OperandDenotes op t json v := by
  unfold literal Grammar.OperandDenotes
  by_cases hlist : op.takesList = true
  · rw [if_pos hlist, if_pos hlist]
    cases json with
    | arr items =>
        dsimp only
        by_cases hfew : op = .between ∧ items.length < 2
        · rw [if_pos hfew]
          refine iff_of_false (by simp) ?_
          rintro ⟨others, values, hothers, -, hlength, -⟩
          obtain rfl := Json.arr.inj hothers
          exact absurd hfew.2 (Nat.not_lt.mpr (hlength hfew.1))
        · rw [if_neg hfew, Outcome.bind_eq_ok_iff]
          simp only [Outcome.mapM_eq_ok_iff, single_eq_ok_iff_denotes]
          constructor
          · rintro ⟨values, hvalues, hv⟩
            refine ⟨items, values, rfl, (Except.ok.inj hv).symm, fun hop => ?_, hvalues⟩
            by_contra hlength
            exact hfew ⟨hop, by omega⟩
          · rintro ⟨others, values, hothers, rfl, -, hvalues⟩
            obtain rfl := Json.arr.inj hothers
            exact ⟨values, hvalues, rfl⟩
    | null | bool | int | real | str | obj => simp
  · rw [if_neg hlist, if_neg hlist]
    cases json.isScalar with
    | true => simp [single_eq_ok_iff_denotes]
    | false => simp

/-! ## Filters of one member -/

/-- A single member is the whole filter. -/
theorem read_singleton (name : String) (json : Json) :
    read c root (.obj [(name, json)]) = some <$> member c root none name json := by
  rw [← object_singleton none (name, json)]
  simp only [read, map_eq_pure_bind, bind_assoc]

theorem member_of_error {fault : SearchFault} (hmeaning : meaning c root path name = .error fault)
    (json : Json) : member c root path name json = .error fault := by
  cases json <;> simp [member, hmeaning]

theorem member_of_scalar (hmeaning : meaning c root path name = .ok (.scalar f)) (json : Json) :
    member c root path name json = scalar f json := by
  cases json <;> simp [member, hmeaning]

theorem scalar_of_isScalar (hscalar : json.isScalar = true) : scalar f json = test f .eq json := by
  have hoperations : operations f.pathText json = pure [(.eq, json)] := by
    cases json with
    | arr | obj => simp [Json.isScalar] at hscalar
    | null | bool | int | real | str => rfl
  simp only [scalar, hoperations, List.mapM_cons, List.mapM_nil, Outcome.pure_eq_ok,
    Outcome.ok_bind]
  cases test f .eq json with
  | error fault => rfl
  | ok tree => rfl

theorem member_of_logical (hname : FilterOperator.ofName? name = some op)
    (hscalar : json.isScalar = true) (tree : FilterTree) :
    member c root path name json ≠ .ok tree := by
  rw [member_of_isScalar hscalar, meaning, hname]
  dsimp only
  split
  · simp
  · simp

theorem test_of_operand (haccepts : op.accepts f.type.family = true)
    (hv : Grammar.OperandDenotes op f.type json v) : test f op json = .ok (.test op f v) := by
  have hop : op.isLogical = false := by
    cases op <;> first | rfl | simp [FilterOperator.accepts] at haccepts
  exact (test_eq_ok_iff hop).mpr ⟨haccepts, v, literal_eq_ok_iff_operand.mpr hv, rfl⟩

/-- An attribute that holds a scalar is compared with a literal, or by an operator that applies to
it with what the operator takes, by a filter of one member, exactly if it is not called like an
operator.  An operator that is not logical is refused in its place, whatever it is given. -/
theorem read_attribute_iff {f : Field} (hfield : c.field root (.single name) = .ok f)
    (hkind : f.kind = .scalar t) :
    (∀ json v, Value.ofJson? t json = some v →
        (read c root (.obj [(name, json)]) = .ok (some (.test .eq ⟨f, t⟩ v)) ↔
          FilterOperator.ofName? name = none)) ∧
      (∀ key op json v, FilterOperator.ofName? key = some op → op.accepts t.family = true →
        Grammar.OperandDenotes op t json v →
          (read c root (.obj [(name, .obj [(key, json)])]) = .ok (some (.test op ⟨f, t⟩ v)) ↔
            FilterOperator.ofName? name = none)) ∧
      ∀ op, FilterOperator.ofName? name = some op → op.isLogical = false → ∀ json,
        read c root (.obj [(name, json)]) = .error (.malformed "" (.operatorWithoutField op)) := by
  -- under a name of its own the attribute takes its condition
  have hmember (hname : FilterOperator.ofName? name = none) (json : Json) :
      member c root none name json = scalar ⟨f, t⟩ json := by
    refine member_of_scalar ?_ json
    rw [meaning_of_field hname hfield, Field.type?, hkind]
  -- under the name of an operator nothing but groups is read
  have hother {json : Json} (hjson : json.isScalar = true ∨ ∃ inner, json = .obj inner)
      {tree : FilterTree}
      (htree : member c root none name json = .ok tree) : FilterOperator.ofName? name = none := by
    by_contra hname
    obtain ⟨op, hop⟩ := Option.ne_none_iff_exists'.mp hname
    rcases hjson with hscalar | ⟨inner, rfl⟩
    · exact member_of_logical hop hscalar tree htree
    · exact member_of_operator hop inner tree htree
  refine ⟨fun json v hv => ?_, fun key op json v hkey haccepts hv => ?_,
    fun op hop hlogical json => ?_⟩
  · have hscalar := Value.isScalar_of_ofJson? hv
    rw [read_singleton, Outcome.map_eq_ok_iff]
    constructor
    · rintro ⟨tree, htree, -⟩
      exact hother (.inl hscalar) htree
    · intro hname
      refine ⟨_, ?_, rfl⟩
      rw [hmember hname, scalar_of_isScalar hscalar]
      exact test_of_operand rfl ⟨hscalar, .inl hv⟩
  · rw [read_singleton, Outcome.map_eq_ok_iff]
    constructor
    · rintro ⟨tree, htree, -⟩
      exact hother (.inr ⟨_, rfl⟩) htree
    · intro hname
      refine ⟨_, ?_, rfl⟩
      rw [hmember hname, scalar_singleton hkey]
      exact test_of_operand haccepts hv
  · have hmeaning : meaning c root none name =
        .error (.malformed "" (.operatorWithoutField op)) := by
      simp [meaning, hop, hlogical, pathText]
    rw [read_singleton, member_of_error hmeaning]
    rfl

/-- Books by their number, and between two bounds one of which is no whole number. -/
theorem read_attribute_iff_shelf :
    ∃ f, Shelf.catalog.field "Book" (.single "id") = .ok f ∧ f.kind = .scalar .int64 ∧
      read Shelf.catalog "Book" (.obj [("id", .int 7)]) =
        .ok (some (.test .eq ⟨f, .int64⟩ (.int64 7))) ∧
      read Shelf.catalog "Book" (.obj [("id", .obj [("Between", .arr [.int 1, .real 2.5])])]) =
        .ok (some (.test .between ⟨f, .int64⟩ (.list [.int64 1, .float64 2.5]))) := by
  have hfield : ∃ f, Shelf.catalog.field "Book" (.single "id") = .ok f ∧ f.kind = .scalar .int64 :=
    ⟨_, rfl, rfl⟩
  obtain ⟨f, hfield, hkind⟩ := hfield
  obtain ⟨hliteral, hoperator, -⟩ := read_attribute_iff hfield hkind
  have hbounds : Grammar.OperandDenotes .between .int64 (.arr [.int 1, .real 2.5])
      (.list [.int64 1, .float64 2.5]) :=
    ⟨_, _, rfl, rfl, by simp, .cons (.inl rfl) (.cons (.inr ⟨rfl, rfl, rfl, rfl⟩) .nil)⟩
  exact ⟨f, hfield, hkind, (hliteral _ _ rfl).mpr rfl,
    (hoperator "Between" _ _ _ rfl rfl hbounds).mpr rfl⟩

/-- Where a trip starts is an attribute of an accepted catalog, but trips cannot be filtered by
it. -/
theorem read_under_operator_name :
    ∃ c f,
        Catalog.of
          [⟨"Trip", none, [], none, "id", [⟨"id", .scalar .int64⟩, ⟨"starts", .scalar .text⟩],
            [], []⟩] none =
        .ok c ∧
      ⟨"starts", .scalar .text⟩ ∈ c.visible "Trip" ∧ c.field "Trip" (.single "starts") = .ok f ∧
      f.kind = .scalar .text ∧
      FilterOperator.ofName? "starts" = some .starts ∧ FilterOperator.starts.isLogical = false ∧
      Value.ofJson? .text (.str "Lima") = some (.text "Lima") ∧
      read c "Trip" (.obj [("starts", .str "Lima")]) =
        .error (.malformed "" (.operatorWithoutField .starts)) :=
  ⟨_, _, rfl, by decide, rfl, rfl, rfl, rfl, rfl, rfl⟩

end FilterReader

end EntityQuery
