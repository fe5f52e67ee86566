import EntityQuery.Proofs.Catalog.Places
import EntityQuery.Proofs.Filter.Evaluation

/-!
# The grammar of filters

A filter is an object, and what its members may be depends on the path at which it stands: logical
operators with filters at the same path, root paths at the top, associations with filters at a
longer path, and scalar fields with conditions.  The grammar says so without a reader, and the
reader accepts exactly what is in it.

A name can stand for one thing only if attributes and root paths are not called like operators,
which the reader looks for first; this is needed for filters of the grammar to be accepted, not for
accepted filters to be in it.

## Strategy

The reader decides by the meaning of a key, and goes on in the value.  So first come the meanings,
one lemma for each, and the conditions of scalar fields; then one induction over JSON shows for
members, objects and groups at once that they are read if and only if they are in the grammar.

## Main definitions

* `Grammar.Filter`, `Grammar.Member` : objects and members of the grammar
* `Grammar.Condition` : what a scalar field may be compared with
* `Catalog.OperatorFree` : no attribute and no root path is called like an operator

## Main statements

* `exists_scalar_iff` : the conditions that are read are those of the grammar
* `read_iff_grammar` : the reader accepts the empty object and the filters of the grammar
-/

namespace EntityQuery

/-! ## The grammar -/

namespace Grammar

/-- The literal is one of the type, or a number where values of a whole-number type are ordered. -/
def Coerces (op : FilterOperator) (t : ScalarType) (json : Json) : Prop :=
  (∃ v, Value.ofJson? t json = some v) ∨
    op.ordersValues = true ∧ t.isInteger = true ∧ ∃ v, Value.ofJson? .float64 json = some v

/-- What an operator takes on a field of the type: an array of literals, for `between` of two at
least, or a single literal. -/
def Operand (op : FilterOperator) (t : ScalarType) (json : Json) : Prop :=
  if op.takesList then
    ∃ items, json = .arr items ∧ (op = .between → 2 ≤ items.length) ∧ ∀ item ∈ items,
      Coerces op t item
  else json.isScalar = true ∧ Coerces op t json

/-- What a scalar field of the type may be compared with: a literal to be equal to, or some
operators that apply to the type with what they take. -/
inductive Condition (t : ScalarType) : Json → Prop
  | literal {json : Json} {v : Value} (hscalar : json.isScalar = true)
      (hv : Value.ofJson? t json = some v) :
      Condition t json
  | operators {operations : List (String × Json)} (hne : operations ≠ [])
      (hoperations : ∀ m ∈ operations, ∃ op,
        FilterOperator.ofName? m.1 = some op ∧ op.isLogical = false ∧
        op.accepts t.family = true ∧ Operand op t m.2) : Condition t (.obj operations)

mutual

/-- The filters at a path: objects of at least one member. -/
inductive Filter (c : Catalog) (root : String) : Option Path → Json → Prop
  | object {path : Option Path} {inner : List (String × Json)} (hne : inner ≠ [])
      (hmembers : ∀ m ∈ inner, Member c root path m.1 m.2) : Filter c root path (.obj inner)

/-- The members of filters at a path. -/
inductive Member (c : Catalog) (root : String) : Option Path → String → Json → Prop
  | logical {path : Option Path} {key : String} {op : FilterOperator} {groups : List Json}
      (hop : FilterOperator.ofName? key = some op) (hlogical : op.isLogical = true)
      (hne : groups ≠ []) (hgroups : ∀ group ∈ groups, Filter c root path group) :
      Member c root path key (.arr groups)
  | root {key : String} {e : Entity} {json : Json} (hroot : c.entity? root = some e)
      (hkey : key ∈ e.rootPaths) (hattribute : c.attribute? root key = none)
        (hfilter : Filter c root none json) : Member c root none key json
  | association {path : Option Path} {key : String} {f : Field} {target : String}
      {cardinality : Cardinality} {json : Json}
      (hfield : c.field root (Path.below path key) = .ok f)
      (hkind : f.kind = .association target cardinality)
      (hfilter : Filter c root (some (Path.below path key)) json) :
      Member c root path key json
  | scalar {path : Option Path} {key : String} {f : Field} {t : ScalarType} {json : Json}
      (hfield : c.field root (Path.below path key) = .ok f) (hkind : f.kind = .scalar t)
      (hcondition : Condition t json) : Member c root path key json

end

end Grammar

/-- No attribute and no root path is called like an operator. -/
def Catalog.OperatorFree (c : Catalog) : Prop :=
  ∀ e ∈ c.entities, (∀ a ∈ e.attributes, FilterOperator.ofName? a.name = none) ∧
    ∀ path ∈ e.rootPaths, FilterOperator.ofName? path = none

instance (c : Catalog) : Decidable c.OperatorFree :=
  inferInstanceAs
    (Decidable (∀ e ∈ c.entities, (∀ a ∈ e.attributes, FilterOperator.ofName? a.name = none) ∧
    ∀ path ∈ e.rootPaths, FilterOperator.ofName? path = none))

namespace FilterReader

variable {c : Catalog} {root : String} {path : Option Path} {key : String}

/-! ## Conditions -/

theorem exists_single_iff {op : FilterOperator} {text : String} {t : ScalarType} {json : Json} :
    (∃ v, single op text t json = .ok v) ↔ Grammar.Coerces op t json := by
  unfold single Grammar.Coerces
  dsimp only
  rw [Option.orElse_eq_orElse, Option.orElse_eq_or]
  cases Value.ofJson? t json with
  | some v => simp
  | none =>
      cases op.ordersValues <;> cases t.isInteger <;> cases Value.ofJson? .float64 json <;> simp

theorem exists_literal_iff {op : FilterOperator} {text : String} {t : ScalarType} {json : Json} :
    (∃ v, literal op text t json = .ok v) ↔ Grammar.Operand op t json := by
  unfold literal Grammar.Operand
  by_cases hlist : op.takesList = true
  · rw [if_pos hlist, if_pos hlist]
    cases json with
    | arr items =>
        dsimp only
        by_cases hfew : op = .between ∧ items.length < 2
        · rw [if_pos hfew]
          refine iff_of_false (by simp) ?_
          rintro ⟨others, hothers, hlength, -⟩
          obtain rfl := Json.arr.inj hothers
          exact absurd hfew.2 (Nat.not_lt.mpr (hlength hfew.1))
        · rw [if_neg hfew, Outcome.exists_bind_iff]
          have hitems : (∃ values, items.mapM (single op text t) = .ok values) ↔
              ∀ item ∈ items, Grammar.Coerces op t item := by
            rw [Outcome.exists_mapM_iff]
            exact forall₂_congr fun item _ => exists_single_iff
          constructor
          · rintro ⟨values, hvalues, -⟩
            refine ⟨items, rfl, fun hop => ?_, hitems.mp ⟨values, hvalues⟩⟩
            by_contra hlength
            exact hfew ⟨hop, by omega⟩
          · rintro ⟨others, hothers, -, hcoerces⟩
            obtain rfl := Json.arr.inj hothers
            obtain ⟨values, hvalues⟩ := hitems.mpr hcoerces
            exact ⟨values, hvalues, _, rfl⟩
    | _ => simp
  · rw [if_neg hlist, if_neg hlist]
    by_cases hscalar : json.isScalar = true
    · rw [if_pos hscalar, exists_single_iff]
      simp [hscalar]
    · simp [hscalar]

theorem exists_test_iff {f : FieldRef} {op : FilterOperator} {json : Json} :
    (∃ tree, test f op json = .ok tree) ↔
      op.isLogical = false ∧ op.accepts f.type.family = true ∧ Grammar.Operand op f.type json := by
  unfold test
  by_cases hlogical : op.isLogical = true
  · simp [hlogical]
  · by_cases haccepts : op.accepts f.type.family = true
    · rw [if_neg hlogical, haccepts, Bool.not_true, if_neg Bool.false_ne_true,
        Outcome.exists_bind_iff]
      simp only [Outcome.pure_eq_ok, Except.ok.injEq, exists_eq', and_true, exists_literal_iff]
      simp [hlogical]
    · simp [hlogical, haccepts]

theorem operand_eq_iff {t : ScalarType} {json : Json} (hscalar : json.isScalar = true) :
    Grammar.Operand .eq t json ↔ ∃ v, Value.ofJson? t json = some v := by
  simp [Grammar.Operand, Grammar.Coerces, FilterOperator.takesList, FilterOperator.ordersValues,
    hscalar]

theorem condition_iff_of_isScalar {t : ScalarType} {json : Json} (hscalar : json.isScalar = true) :
    Grammar.Condition t json ↔ ∃ v, Value.ofJson? t json = some v := by
  constructor
  · intro hcondition
    cases hcondition with
    | literal _ hv => exact ⟨_, hv⟩
    | operators _ _ => simp [Json.isScalar] at hscalar
  · rintro ⟨v, hv⟩
    exact .literal hscalar hv

theorem fold?_isSome_iff {op : FilterOperator} {trees : List FilterTree} :
    (∃ tree, FilterTree.fold? op trees = some tree) ↔ trees ≠ [] := by
  match trees with
  | [] => simp [FilterTree.fold?]
  | [single] => simp [FilterTree.fold?]
  | first :: second :: rest => simp [FilterTree.fold?]

/-- The operator that a member names, with what it is applied to. -/
def operation (path : String) (m : String × Json) : Except SearchFault (FilterOperator × Json) :=
  match FilterOperator.ofName? m.1 with
  | some op => pure (op, m.2)
  | none => throw (.malformed path (.unknownOperator m.1))

theorem operation_eq_ok_iff {text : String} {m : String × Json} {pair : FilterOperator × Json} :
    operation text m = .ok pair ↔ FilterOperator.ofName? m.1 = some pair.1 ∧ m.2 = pair.2 := by
  obtain ⟨op, json⟩ := pair
  unfold operation
  cases FilterOperator.ofName? m.1 <;> simp

/-- The tests of a field succeed together if there are any and each of them does. -/
theorem exists_scalar_of_operations {f : FieldRef} {json : Json}
    {pairs : List (FilterOperator × Json)} (hpairs : operations f.pathText json = .ok pairs) :
    (∃ tree, scalar f json = .ok tree) ↔
      pairs ≠ [] ∧ ∀ pair ∈ pairs, ∃ tree, test f pair.1 pair.2 = .ok tree := by
  unfold scalar
  rw [hpairs, Outcome.ok_bind, Outcome.exists_bind_iff, ← Outcome.exists_mapM_iff]
  constructor
  · rintro ⟨tests, htests, tree, htree⟩
    refine ⟨?_, tests, htests⟩
    rintro rfl
    obtain rfl := Except.ok.inj htests
    simp [FilterTree.fold?] at htree
  · rintro ⟨hne, tests, htests⟩
    have hlength := (Outcome.mapM_eq_ok_iff.mp htests).length_eq
    have hsome : tests ≠ [] :=
      fun hnil => hne (List.length_eq_zero_iff.mp (by simp [hlength, hnil]))
    obtain ⟨tree, htree⟩ := fold?_isSome_iff.mpr hsome
    exact ⟨tests, htests, tree, by rw [htree]; rfl⟩

/-- The members of an object are conditions if all their names are operators that the field can be
tested by. -/
theorem exists_scalar_obj_iff {f : FieldRef} {members : List (String × Json)} :
    (∃ tree, scalar f (.obj members) = .ok tree) ↔
      members ≠ [] ∧
        ∀ m ∈ members, ∃ op, FilterOperator.ofName? m.1 = some op ∧ ∃ tree,
          test f op m.2 = .ok tree := by
  by_cases hne : members = []
  · subst hne
    simp [scalar, operations]
  · rw [and_iff_right hne]
    have hoperations : operations f.pathText (.obj members) =
        members.mapM (operation f.pathText) := by
      obtain ⟨first, rest, rfl⟩ := List.exists_cons_of_ne_nil hne
      rfl
    constructor
    · rintro ⟨tree, htree⟩
      obtain ⟨pairs, hpairs, -⟩ := Outcome.bind_eq_ok_iff.mp htree
      have htests := ((exists_scalar_of_operations hpairs).mp ⟨tree, htree⟩).2
      intro m hm
      obtain ⟨pair, hpair, hm⟩ := Outcome.exists_mem_of_mapM (hoperations ▸ hpairs) hm
      obtain ⟨hop, hjson⟩ := operation_eq_ok_iff.mp hm
      exact ⟨pair.1, hop, hjson ▸ htests pair hpair⟩
    · intro hmembers
      obtain ⟨pairs, hpairs⟩ : ∃ pairs, members.mapM (operation f.pathText) = .ok pairs := by
        refine Outcome.exists_mapM_eq_ok fun m hm => ?_
        obtain ⟨op, hop, -⟩ := hmembers m hm
        exact ⟨(op, m.2), operation_eq_ok_iff.mpr ⟨hop, rfl⟩⟩
      rw [exists_scalar_of_operations (hoperations.trans hpairs)]
      refine ⟨?_, fun pair hpair => ?_⟩
      · rintro rfl
        -- as many conditions are read as there are members
        have hlength := (Outcome.mapM_eq_ok_iff.mp hpairs).length_eq
        exact hne (List.length_eq_zero_iff.mp hlength)
      · obtain ⟨m, hm, hpair⟩ := Outcome.exists_of_mem_mapM hpairs hpair
        obtain ⟨hop, hjson⟩ := operation_eq_ok_iff.mp hpair
        obtain ⟨op, hother, htest⟩ := hmembers m hm
        obtain rfl : op = pair.1 := Option.some.inj (hother.symm.trans hop)
        exact hjson ▸ htest

/-- The conditions that are read are those of the grammar. -/
theorem exists_scalar_iff {f : FieldRef} {json : Json} :
    (∃ tree, scalar f json = .ok tree) ↔ Grammar.Condition f.type json := by
  cases json with
  | obj members =>
      rw [exists_scalar_obj_iff]
      constructor
      · rintro ⟨hne, hmembers⟩
        refine .operators hne fun m hm => ?_
        obtain ⟨op, hop, htest⟩ := hmembers m hm
        exact ⟨op, hop, exists_test_iff.mp htest⟩
      · intro hcondition
        cases hcondition with
        | literal hscalar _ => simp [Json.isScalar] at hscalar
        | operators hne hoperations =>
            refine ⟨hne, fun m hm => ?_⟩
            obtain ⟨op, hop, htest⟩ := hoperations m hm
            exact ⟨op, hop, exists_test_iff.mpr htest⟩
  | arr items =>
      refine iff_of_false (by simp [scalar, operations]) fun hcondition => ?_
      cases hcondition with
      | literal hscalar _ => simp [Json.isScalar] at hscalar
  | null | bool | int | real | str =>
      -- the test for equality, which applies to all types
      rw [exists_scalar_of_operations rfl, condition_iff_of_isScalar rfl, ← operand_eq_iff rfl]
      simp [exists_test_iff, FilterOperator.isLogical, FilterOperator.group, FilterOperator.accepts]

/-! ## Meanings of keys -/

theorem exists_attribute_of_field {f : Field}
    (hfield : c.field root (Path.below path key) = .ok f) :
    ∃ e ∈ c.entities, ∃ a ∈ e.attributes, a.name = key := by
  obtain ⟨joins, owner, a, kind, -, ha, -, -⟩ := Catalog.field_eq_ok_iff.mp hfield
  obtain ⟨hname, e, he, hmem⟩ := Catalog.name_of_attribute? ha
  refine ⟨e, he, a, hmem, hname.trans ?_⟩
  cases path <;> rfl

theorem attribute?_of_field {f : Field} (hfield : c.field root (Path.below none key) = .ok f) :
    c.attribute? root key ≠ none := by
  obtain ⟨joins, owner, a, kind, hfollow, ha, -, -⟩ := Catalog.field_eq_ok_iff.mp hfield
  obtain ⟨-, rfl⟩ := Prod.mk.inj (Option.some.inj hfollow)
  exact Option.ne_none_iff_exists'.mpr ⟨a, ha⟩

theorem isRootPath_iff :
    isRootPath c root key = true ↔
      c.attribute? root key = none ∧ ∃ e, c.entity? root = some e ∧ key ∈ e.rootPaths := by
  unfold isRootPath
  rw [Bool.and_eq_true, Option.isNone_iff_eq_none]
  refine and_congr_right fun _ => ?_
  cases c.entity? root with
  | none => simp
  | some e => simp

/-- What a key stands for, if no key can stand for two things. -/
def Means (c : Catalog) (root : String) (path : Option Path) (key : String) : KeyMeaning → Prop
  | .logical op => FilterOperator.ofName? key = some op ∧ op.isLogical = true
  | .root => path = none ∧ isRootPath c root key = true
  | .association here =>
    here = Path.below path key ∧
      ∃ f target cardinality, c.field root here = .ok f ∧ f.kind = .association target cardinality
  | .scalar f => c.field root (Path.below path key) = .ok f.field ∧ f.field.kind = .scalar f.type

theorem means_of_meaning {m : KeyMeaning} (hmeaning : meaning c root path key = .ok m) :
    Means c root path key m := by
  unfold meaning at hmeaning
  split at hmeaning
  · next op hop =>
    split at hmeaning
    · next hlogical =>
      obtain rfl := Except.ok.inj hmeaning
      exact ⟨hop, hlogical⟩
    · simp at hmeaning
  · split at hmeaning
    · next hroot =>
      obtain rfl := Except.ok.inj hmeaning
      rw [Bool.and_eq_true, Option.isNone_iff_eq_none] at hroot
      exact hroot
    · obtain ⟨f, hfield, hmeaning⟩ := Outcome.bind_eq_ok_iff.mp hmeaning
      have hpath := Catalog.path_of_field hfield
      unfold Field.type? at hmeaning
      split at hmeaning
      · next t htype =>
        obtain rfl := Except.ok.inj hmeaning
        split at htype
        · next hkind => exact ⟨hfield, hkind.trans (congrArg _ (Option.some.inj htype))⟩
        · simp at htype
      · next htype =>
        obtain rfl := Except.ok.inj hmeaning
        split at htype
        · simp at htype
        · next target cardinality hkind =>
            exact ⟨hpath, f, target, cardinality, hpath.symm ▸ hfield, hkind⟩

/-- A key that is no operator stands for the field to which it leads. -/
theorem meaning_of_field (hkey : FilterOperator.ofName? key = none) {f : Field}
    (hfield : c.field root (Path.below path key) = .ok f) :
    meaning c root path key =
      .ok (match f.type? with
        | some type => .scalar ⟨f, type⟩
        | none => .association f.path) := by
  have hroot : ¬ (path.isNone && isRootPath c root key) = true := by
    rw [Bool.and_eq_true, Option.isNone_iff_eq_none, isRootPath_iff]
    rintro ⟨rfl, hattribute, -⟩
    exact attribute?_of_field hfield hattribute
  unfold meaning
  rw [hkey]
  dsimp only
  rw [if_neg hroot, hfield, Outcome.ok_bind]
  cases f.type? with
  | some type => rfl
  | none => rfl

/-- A key has the meaning that it can have: the names of operators lead nowhere, and what leads to a
field by itself is an attribute. -/
theorem meaning_of_means (hfree : c.OperatorFree) {m : KeyMeaning} (hm : Means c root path key m) :
    meaning c root path key = .ok m := by
  have hoperator {f : Field} (hfield : c.field root (Path.below path key) = .ok f) :
      FilterOperator.ofName? key = none := by
    obtain ⟨e, he, a, ha, rfl⟩ := exists_attribute_of_field hfield
    exact (hfree e he).1 a ha
  cases m with
  | logical op => simp [meaning, hm.1, hm.2]
  | root =>
      obtain ⟨rfl, hkey⟩ := hm
      obtain ⟨-, e, he, hmem⟩ := isRootPath_iff.mp hkey
      rw [meaning, (hfree e (Catalog.mem_of_entity? he).1).2 key hmem]
      simp [hkey]
  | association here =>
      obtain ⟨rfl, f, target, cardinality, hfield, hkind⟩ := hm
      rw [meaning_of_field (hoperator hfield) hfield, Field.type?, hkind,
        Catalog.path_of_field hfield]
  | scalar f =>
      obtain ⟨hfield, hkind⟩ := hm
      rw [meaning_of_field (hoperator hfield) hfield, Field.type?, hkind]

/-! ## Objects and groups -/

theorem exists_combine_iff {inner : List (String × Json)} {trees : List FilterTree} :
    (∃ tree, combine path inner trees = .ok tree) ↔ trees ≠ [] := by
  match trees with
  | [] => simp [combine, FilterTree.fold?]
  | [single] => simp [combine]
  | first :: second :: rest => simp [combine, FilterTree.fold?]

theorem exists_group_iff {op : FilterOperator} {trees : List FilterTree} :
    (∃ tree, group op path trees = .ok tree) ↔ trees ≠ [] := by
  constructor
  · rintro ⟨tree, htree⟩ rfl
    simp [group, FilterTree.fold?] at htree
  · intro hne
    have hfold (op : FilterOperator) : ∃ tree, FilterTree.fold? op trees = some tree :=
      fold?_isSome_iff.mpr hne
    obtain ⟨all, hall⟩ := hfold .and
    obtain ⟨folded, hfolded⟩ := hfold op
    by_cases hnot : op = .not
    · exact ⟨.unary .not all, by simp [group, hnot, hall]⟩
    · exact ⟨folded, by simp [group, hnot, hfolded]⟩

theorem length_members {inner : List (String × Json)} {trees : List FilterTree}
    (hmembers : members c root path inner = .ok trees) : trees.length = inner.length := by
  induction inner generalizing trees with
  | nil =>
      obtain rfl := Except.ok.inj hmembers
      rfl
  | cons m rest ih =>
      obtain ⟨tree, more, -, hmore, rfl⟩ := members_cons_eq_ok hmembers
      simp [ih hmore]

theorem length_groups {op : FilterOperator} {items : List Json} {trees : List FilterTree}
    (hgroups : groups c root op path items = .ok trees) : trees.length = items.length := by
  induction items generalizing trees with
  | nil =>
      obtain rfl := Except.ok.inj hgroups
      rfl
  | cons item rest ih =>
      cases item with
      | obj inner =>
          obtain ⟨inners, tree, more, -, -, hmore, rfl⟩ := groups_cons_eq_ok hgroups
          simp [ih hmore]
      | _ => simp [groups] at hgroups

/-- An object is read as one filter if it has members and all of them are read. -/
theorem exists_object_iff {inner : List (String × Json)} :
    (∃ tree, (do combine path inner (← members c root path inner)) = .ok tree) ↔
      inner ≠ [] ∧ ∃ trees, members c root path inner = .ok trees := by
  rw [Outcome.exists_bind_iff]
  constructor
  · rintro ⟨trees, htrees, hcombine⟩
    refine ⟨?_, trees, htrees⟩
    rintro rfl
    exact exists_combine_iff.mp hcombine (Except.ok.inj htrees).symm
  · rintro ⟨hne, trees, htrees⟩
    refine ⟨trees, htrees, exists_combine_iff.mpr ?_⟩
    rintro rfl
    exact hne (List.length_eq_zero_iff.mp (length_members htrees).symm)

theorem filter_obj_iff {inner : List (String × Json)} :
    Grammar.Filter c root path (.obj inner) ↔
      inner ≠ [] ∧ ∀ m ∈ inner, Grammar.Member c root path m.1 m.2 := by
  constructor
  · intro hfilter
    cases hfilter with
    | object hne hmembers => exact ⟨hne, hmembers⟩
  · rintro ⟨hne, hmembers⟩
    exact .object hne hmembers

/-! ## Reading -/

theorem not_filter {json : Json} (hjson : ∀ inner, json ≠ .obj inner) :
    ¬ Grammar.Filter c root path json := by
  intro hfilter
  cases hfilter with
  | object => exact hjson _ rfl

/-- A literal is a condition of a scalar field, and nothing else. -/
theorem exists_member_iff_of_isScalar (hfree : c.OperatorFree) {json : Json}
    (hscalar : json.isScalar = true) :
    (∃ tree, member c root path key json = .ok tree) ↔ Grammar.Member c root path key json := by
  have hjson (inner : List (String × Json)) : json ≠ .obj inner := by
    rintro rfl
    simp [Json.isScalar] at hscalar
  rw [member_of_isScalar hscalar, Outcome.exists_bind_iff]
  constructor
  · rintro ⟨m, hmeaning, htree⟩
    have hmeans := means_of_meaning hmeaning
    cases m with
    | scalar f => exact .scalar hmeans.1 hmeans.2 (exists_scalar_iff.mp htree)
    | logical | root | association => simp at htree
  · intro hmember
    cases hmember with
    | logical => simp [Json.isScalar] at hscalar
    | root _ _ _ hfilter => exact absurd hfilter (not_filter hjson)
    | association _ _ hfilter => exact absurd hfilter (not_filter hjson)
    | @scalar _ _ f t _ hfield hkind hcondition =>
        have hread : ∃ tree, scalar ⟨f, t⟩ json = .ok tree := exists_scalar_iff.mpr hcondition
        exact ⟨.scalar ⟨f, t⟩, meaning_of_means hfree ⟨hfield, hkind⟩, hread⟩

theorem exists_groups_iff_of_not_obj {op : FilterOperator} {item : Json}
    (hitem : ∀ inner, item ≠ .obj inner) (rest : List Json) :
    (∃ trees, groups c root op path (item :: rest) = .ok trees) ↔
      ∀ group ∈ item :: rest, Grammar.Filter c root path group := by
  refine iff_of_false ?_ fun h => not_filter hitem (h item (List.mem_cons_self ..))
  cases item with
  | obj inner => exact absurd rfl (hitem inner)
  | _ => simp [groups]

mutual

theorem exists_members_iff (hfree : c.OperatorFree) (path : Option Path) :
    ∀ inner : List (String × Json),
      (∃ trees, members c root path inner = .ok trees) ↔
        ∀ m ∈ inner, Grammar.Member c root path m.1 m.2
  | [] => by simp [members]
  | (key, json) :: rest => by
      rw [members, Outcome.exists_bind_iff, List.forall_mem_cons,
        ← exists_member_iff hfree path key json, ← exists_members_iff hfree path rest]
      constructor
      · rintro ⟨tree, htree, more, hmore⟩
        obtain ⟨trees, htrees, -⟩ := Outcome.bind_eq_ok_iff.mp hmore
        exact ⟨⟨tree, htree⟩, trees, htrees⟩
      · rintro ⟨⟨tree, htree⟩, trees, htrees⟩
        exact ⟨tree, htree, _, Outcome.bind_eq_ok_iff.mpr ⟨trees, htrees, rfl⟩⟩

theorem exists_member_iff (hfree : c.OperatorFree) (path : Option Path) (key : String) :
    ∀ json : Json, (∃ tree, member c root path key json = .ok tree) ↔
      Grammar.Member c root path key json
  | .obj inner => by
      -- a filter at a path, as it is read and as it is in the grammar
      have hobject (here : Option Path) :
          (∃ tree, (do combine here inner (← members c root here inner)) = .ok tree) ↔
            Grammar.Filter c root here (.obj inner) := by
        rw [exists_object_iff, filter_obj_iff, exists_members_iff hfree here inner]
      rw [member, Outcome.exists_bind_iff]
      constructor
      · rintro ⟨m, hmeaning, htree⟩
        have hmeans := means_of_meaning hmeaning
        cases m with
        | logical op => simp at htree
        | root =>
            obtain ⟨rfl, hkey⟩ := hmeans
            obtain ⟨hattribute, e, he, hmem⟩ := isRootPath_iff.mp hkey
            exact .root he hmem hattribute ((hobject none).mp htree)
        | association here =>
            obtain ⟨rfl, f, target, cardinality, hfield, hkind⟩ := hmeans
            exact .association hfield hkind ((hobject _).mp htree)
        | scalar f => exact .scalar hmeans.1 hmeans.2 (exists_scalar_iff.mp htree)
      · intro hmember
        cases hmember with
        | root he hmem hattribute hfilter =>
            have hmeaning :=
              meaning_of_means (m := .root) hfree ⟨rfl,
                isRootPath_iff.mpr ⟨hattribute, _, he, hmem⟩⟩
            exact ⟨.root, hmeaning, (hobject none).mpr hfilter⟩
        | association hfield hkind hfilter =>
            have hmeaning :=
              meaning_of_means (m := .association _) hfree ⟨rfl, _, _, _, hfield, hkind⟩
            exact ⟨.association _, hmeaning, (hobject _).mpr hfilter⟩
        | @scalar _ _ f t _ hfield hkind hcondition =>
            have hmeaning := meaning_of_means (m := .scalar ⟨f, t⟩) hfree ⟨hfield, hkind⟩
            exact ⟨.scalar ⟨f, t⟩, hmeaning, exists_scalar_iff.mpr hcondition⟩
  | .arr items => by
      rw [member, Outcome.exists_bind_iff]
      constructor
      · rintro ⟨m, hmeaning, htree⟩
        have hmeans := means_of_meaning hmeaning
        cases m with
        | logical op =>
            obtain ⟨trees, htrees, hgroup⟩ := Outcome.exists_bind_iff.mp htree
            refine .logical hmeans.1 hmeans.2 ?_
              ((exists_groups_iff hfree op path items).mp ⟨trees, htrees⟩)
            rintro rfl
            exact exists_group_iff.mp hgroup (Except.ok.inj htrees).symm
        | root => simp at htree
        | association here => simp at htree
        | scalar f => exact .scalar hmeans.1 hmeans.2 (exists_scalar_iff.mp htree)
      · intro hmember
        cases hmember with
        | @logical _ _ op _ hop hlogical hne hgroups =>
            obtain ⟨trees, htrees⟩ := (exists_groups_iff hfree op path items).mpr hgroups
            refine ⟨.logical op, meaning_of_means hfree ⟨hop, hlogical⟩,
              Outcome.exists_bind_iff.mpr ?_⟩
            refine ⟨trees, htrees, exists_group_iff.mpr ?_⟩
            rintro rfl
            exact hne (List.length_eq_zero_iff.mp (length_groups htrees).symm)
        | root _ _ _ hfilter => exact absurd hfilter (not_filter fun inner => by simp)
        | association _ _ hfilter => exact absurd hfilter (not_filter fun inner => by simp)
        | @scalar _ _ f t _ hfield hkind hcondition =>
            have hmeaning := meaning_of_means (m := .scalar ⟨f, t⟩) hfree ⟨hfield, hkind⟩
            exact ⟨.scalar ⟨f, t⟩, hmeaning, exists_scalar_iff.mpr hcondition⟩
  | .null => exists_member_iff_of_isScalar hfree rfl
  | .bool _ => exists_member_iff_of_isScalar hfree rfl
  | .int _ => exists_member_iff_of_isScalar hfree rfl
  | .real _ => exists_member_iff_of_isScalar hfree rfl
  | .str _ => exists_member_iff_of_isScalar hfree rfl

theorem exists_groups_iff (hfree : c.OperatorFree) (op : FilterOperator) (path : Option Path) :
    ∀ items : List Json,
      (∃ trees, groups c root op path items = .ok trees) ↔
        ∀ item ∈ items, Grammar.Filter c root path item
  | [] => by simp [groups]
  | .obj inner :: rest => by
      rw [groups, List.forall_mem_cons, filter_obj_iff, ← exists_members_iff hfree path inner,
        ← exists_object_iff, ← exists_groups_iff hfree op path rest, ← bind_assoc,
        Outcome.exists_bind_iff]
      constructor
      · rintro ⟨tree, htree, more, hmore⟩
        obtain ⟨trees, htrees, -⟩ := Outcome.bind_eq_ok_iff.mp hmore
        exact ⟨⟨tree, htree⟩, trees, htrees⟩
      · rintro ⟨⟨tree, htree⟩, trees, htrees⟩
        exact ⟨tree, htree, _, Outcome.bind_eq_ok_iff.mpr ⟨trees, htrees, rfl⟩⟩
  | .null :: rest => exists_groups_iff_of_not_obj (by simp) rest
  | .bool _ :: rest => exists_groups_iff_of_not_obj (by simp) rest
  | .int _ :: rest => exists_groups_iff_of_not_obj (by simp) rest
  | .real _ :: rest => exists_groups_iff_of_not_obj (by simp) rest
  | .str _ :: rest => exists_groups_iff_of_not_obj (by simp) rest
  | .arr _ :: rest => exists_groups_iff_of_not_obj (by simp) rest

end

/-- The reader accepts the empty object, which demands nothing, and the filters of the grammar;
nothing else. -/
theorem read_iff_grammar (hfree : c.OperatorFree) (root : String) (json : Json) :
    (read c root json = .ok none ↔ json = .obj []) ∧
      ((∃ tree, read c root json = .ok (some tree)) ↔ Grammar.Filter c root none json) := by
  cases json with
  | obj inner =>
      by_cases hne : inner = []
      · subst hne
        simp [read, filter_obj_iff]
      · have hread : read c root (.obj inner) =
            (do combine none inner (← members c root none inner)) >>= fun tree =>
              pure (some tree) := by
          rw [read, bind_assoc]
          exact hne
        rw [filter_obj_iff, ← exists_members_iff hfree none inner, ← exists_object_iff, hread]
        constructor
        · refine iff_of_false (fun h => ?_) fun h => hne (Json.obj.inj h)
          obtain ⟨tree, -, h⟩ := Outcome.bind_eq_ok_iff.mp h
          simp at h
        · refine exists_congr fun tree => ?_
          simp [Outcome.bind_eq_ok_iff]
  | null | bool | int | real | str | arr =>
      exact ⟨by simp [read], iff_of_false (by simp [read]) (not_filter (by simp))⟩

/-- Books of one author, or with a title that does not start with a letter; a text is not compared
by a range. -/
theorem read_iff_grammar_shelf :
    Shelf.catalog.OperatorFree ∧ Grammar.Filter Shelf.catalog "Book" none Shelf.filter ∧
      ¬ Grammar.Filter Shelf.catalog "Book" none
        (.obj [("title", .obj [("between", .arr [.str "A", .str "B"])])]) := by
  have hfree : Shelf.catalog.OperatorFree := by decide
  refine ⟨hfree, (read_iff_grammar hfree "Book" Shelf.filter).2.mp ⟨_, rfl⟩, fun hfilter => ?_⟩
  obtain ⟨tree, htree⟩ := (read_iff_grammar hfree "Book" _).2.mpr hfilter
  cases htree

end FilterReader

end EntityQuery
