import EntityQuery.Filter.Parameter
import EntityQuery.Proofs.Catalog.Places
import EntityQuery.Proofs.Filter.Meaning
import EntityQuery.Proofs.Value.Conforming

/-!
# Sound filter trees

A tree that is put together by hand need not make sense.  A sound one tests only fields that the
catalog knows, by operators that apply to their types and against literals that their values can be
compared with.  Every tree that is read from JSON is sound.

The reader builds trees in three ways only: a test of a field, a negation, and two trees under an
operator.  What holds of all tests and is kept by the two others therefore holds of all trees that
are read; soundness is an instance.

## Main definitions

* `FilterTree.Sound` : the tree makes sense for a root entity

## Main statements

* `of_read` : what is kept by building holds of every tree that is read
* `sound_of_read` : a tree that is read is sound
* `sound_of_readAll` : the tree of parameters is sound
-/

namespace EntityQuery

/-! ## Sound trees -/

/-- Values of the type can be compared with the value, if it is not null. -/
def Value.ComparableWith (t : ScalarType) (v : Value) : Prop :=
  ∃ u, t.comparable u = true ∧ v.conforms u = true

namespace FilterOperator

/-- The value is a literal for the operator on fields of a type: one that can be compared, or a list
of such. -/
def Takes (op : FilterOperator) (t : ScalarType) (v : Value) : Prop :=
  if op.takesList then
    ∃ items, v = .list items ∧ (op = .between → 2 ≤ items.length) ∧ ∀ item ∈ items,
      item.ComparableWith t
  else v.ComparableWith t

end FilterOperator

/-- The field is the one that its path leads to, and has the type. -/
structure FieldRef.Resolved (c : Catalog) (root : String) (f : FieldRef) : Prop where
  field : c.field root f.field.path = .ok f.field
  type : f.field.type? = some f.type

namespace FilterTree

/-- The tree makes sense for a root entity of a catalog. -/
def Sound (c : Catalog) (root : String) : FilterTree → Prop
  | .field _ | .literal _ => False
  | .test op f value => f.Resolved c root ∧ op.accepts f.type.family = true ∧ op.Takes f.type value
  | .unary op operand => op = .not ∧ operand.Sound c root
  | .compound op left right =>
    (op = .and ∨ op = .or ∨ op = .distinct) ∧ left.Sound c root ∧ right.Sound c root

end FilterTree

/-! ## Literals -/

namespace FilterReader

theorem comparable_self (t : ScalarType) : t.comparable t = true := by simp [ScalarType.comparable]

theorem isNumeric_of_isInteger {t : ScalarType} (ht : t.isInteger = true) : t.isNumeric = true := by
  cases t <;> simp_all [ScalarType.isInteger, ScalarType.isNumeric, ScalarType.family]

theorem comparableWith_of_single {op : FilterOperator} {path : String} {t : ScalarType}
    {json : Json} {v : Value} (hjson : json.isProper = true) (hv : single op path t json = .ok v) :
    v.ComparableWith t := by
  unfold single at hv
  dsimp only at hv
  split at hv
  · next value hvalue =>
    obtain rfl := Except.ok.inj hv
    rw [Option.orElse_eq_orElse, Option.orElse_eq_or] at hvalue
    rcases Option.or_eq_some_iff.mp hvalue with h | ⟨-, h⟩
    · exact ⟨t, comparable_self t, Value.conforms_ofJson? hjson h⟩
    · -- a whole number compared as a binary64 number
      split at h
      · next hwide =>
        have hinteger : t.isInteger = true := by simp_all
        refine ⟨.float64, ?_, Value.conforms_ofJson? hjson h⟩
        rw [ScalarType.comparable, isNumeric_of_isInteger hinteger]
        simp [ScalarType.isNumeric, ScalarType.family]
      · simp at h
  · simp at hv

/-- What is read as the literal of an operator is a literal for it. -/
theorem takes_of_literal {op : FilterOperator} {path : String} {t : ScalarType} {json : Json}
    {v : Value} (hjson : json.isProper = true) (hv : literal op path t json = .ok v) :
    op.Takes t v := by
  unfold literal at hv
  unfold FilterOperator.Takes
  split at hv
  · next hlist =>
    rw [if_pos hlist]
    split at hv
    · next items =>
      split at hv
      · simp at hv
      · next hlength =>
        obtain ⟨values, hvalues, hv⟩ := Outcome.bind_eq_ok_iff.mp hv
        obtain rfl := Except.ok.inj hv
        refine ⟨values, rfl, fun hop => ?_, fun item hitem => ?_⟩
        · have hsame := (Outcome.mapM_eq_ok_iff.mp hvalues).length_eq
          have : ¬ items.length < 2 := fun hlt => hlength ⟨hop, hlt⟩
          omega
        · obtain ⟨given, hgiven, hitem⟩ := Outcome.exists_of_mem_mapM hvalues hitem
          exact comparableWith_of_single (Json.areProper_iff.mp hjson given hgiven) hitem
    · simp at hv
  · next hlist =>
    rw [if_neg hlist]
    split at hv
    · exact comparableWith_of_single hjson hv
    · simp at hv

end FilterReader

namespace FilterReader

/-! ## Building trees -/

variable {c : Catalog} {root : String}

/-- Nothing that the reader does to trees takes a property from them that all tests have. -/
structure Kept (c : Catalog) (root : String) (P : FilterTree → Prop) : Prop where
  test : ∀ {path key f op json tree}, meaning c root path key = .ok (.scalar f) →
    json.isProper = true →
    test f op json = .ok tree → P tree
  not : ∀ {tree}, P tree → P (.unary .not tree)
  compound : ∀ {op left right}, op = .and ∨ op = .or ∨ op = .distinct → P left → P right →
    P (.compound op left right)

namespace Kept

variable {P : FilterTree → Prop}

theorem of_foldl (hkept : Kept c root P) {op : FilterOperator}
    (hop : op = .and ∨ op = .or ∨ op = .distinct) {trees : List FilterTree}
    (htrees : ∀ tree ∈ trees, P tree) {tree : FilterTree} (htree : P tree) :
    P (trees.foldl (.compound op) tree) := by
  induction trees generalizing tree with
  | nil => exact htree
  | cons next trees ih =>
      rw [List.forall_mem_cons] at htrees
      exact ih htrees.2 (hkept.compound hop htree htrees.1)

theorem of_fold? (hkept : Kept c root P) {op : FilterOperator}
    (hop : op = .and ∨ op = .or ∨ op = .distinct) {trees : List FilterTree}
    (htrees : ∀ tree ∈ trees, P tree) {tree : FilterTree}
    (hfold : FilterTree.fold? op trees = some tree) : P tree := by
  match trees, hfold with
  | [single], hfold =>
      have hsingle : P single := htrees single (List.mem_singleton.mpr rfl)
      obtain rfl := Option.some.inj hfold
      split
      · exact hkept.compound (.inr (.inr rfl)) hsingle hsingle
      · exact hsingle
  | first :: second :: rest, hfold =>
      obtain rfl := Option.some.inj hfold
      rw [List.forall_mem_cons] at htrees
      exact hkept.of_foldl hop htrees.2 htrees.1

theorem of_combine (hkept : Kept c root P) {path : Option Path} {inner : List (String × Json)}
    {trees : List FilterTree} (htrees : ∀ tree ∈ trees, P tree) {tree : FilterTree}
    (hcombine : combine path inner trees = .ok tree) : P tree := by
  unfold combine at hcombine
  split at hcombine
  · obtain rfl := Except.ok.inj hcombine
    exact htrees _ (List.mem_singleton.mpr rfl)
  · split at hcombine
    · next hfold =>
      obtain rfl := Except.ok.inj hcombine
      exact hkept.of_fold? (combining_cases inner) htrees hfold
    · simp at hcombine

theorem of_group (hkept : Kept c root P) {op : FilterOperator} (hop : op.isLogical = true)
    {path : Option Path} {trees : List FilterTree} (htrees : ∀ tree ∈ trees, P tree)
    {tree : FilterTree} (hgroup : group op path trees = .ok tree) : P tree := by
  unfold group at hgroup
  dsimp only at hgroup
  split at hgroup
  · next folded hfold =>
    obtain rfl := Except.ok.inj hgroup
    split at hfold
    · obtain ⟨inner, hinner, rfl⟩ := Option.map_eq_some_iff.mp hfold
      exact hkept.not (hkept.of_fold? (.inl rfl) htrees hinner)
    · next hnot =>
      refine hkept.of_fold? ?_ htrees hfold
      cases op <;> simp_all [FilterOperator.isLogical, FilterOperator.group]
  · simp at hgroup

theorem isProper_of_operations {path : String} {json : Json} (hjson : json.isProper = true)
    {pairs : List (FilterOperator × Json)} (hpairs : operations path json = .ok pairs)
    {pair : FilterOperator × Json} (hpair : pair ∈ pairs) : pair.2.isProper = true := by
  unfold operations at hpairs
  split at hpairs
  · simp at hpairs
  · obtain ⟨⟨name, given⟩, hgiven, hpair⟩ := Outcome.exists_of_mem_mapM hpairs hpair
    dsimp only at hpair
    split at hpair
    · obtain rfl := Except.ok.inj hpair
      exact Json.membersAreProper_iff.mp hjson _ hgiven
    · simp at hpair
  · simp at hpairs
  · obtain rfl := Except.ok.inj hpairs
    rw [List.mem_singleton.mp hpair]
    exact hjson

theorem of_scalar (hkept : Kept c root P) {path : Option Path} {key : String} {f : FieldRef}
    {json : Json} (hmeaning : meaning c root path key = .ok (.scalar f))
    (hjson : json.isProper = true) {tree : FilterTree} (hscalar : scalar f json = .ok tree) :
    P tree := by
  obtain ⟨pairs, tests, hpairs, htests, hfold⟩ := scalar_eq_ok hscalar
  refine hkept.of_fold? (.inl rfl) (fun t ht => ?_) hfold
  obtain ⟨pair, hpair, ht⟩ := Outcome.exists_of_mem_mapM htests ht
  exact hkept.test hmeaning (isProper_of_operations hjson hpairs hpair) ht

theorem of_literal (hkept : Kept c root P) (path : Option Path) (key : String) {json : Json}
    (hscalar : json.isScalar = true) (hjson : json.isProper = true) {tree : FilterTree}
    (hread : member c root path key json = .ok tree) : P tree := by
  obtain ⟨f, hmeaning, hread⟩ := member_eq_ok_of_isScalar hscalar hread
  exact hkept.of_scalar hmeaning hjson hread

mutual

theorem of_members (hkept : Kept c root P) (path : Option Path) :
    ∀ (inner : List (String × Json)) {trees : List FilterTree}, Json.membersAreProper inner = true →
      members c root path inner = .ok trees → ∀ tree ∈ trees, P tree
  | [], trees, _, hread => by
      obtain rfl := Except.ok.inj hread
      simp
  | (key, json) :: rest, trees, hproper, hread => by
      rw [Json.membersAreProper, Bool.and_eq_true] at hproper
      obtain ⟨tree, more, htree, hmore, rfl⟩ := members_cons_eq_ok hread
      rw [List.forall_mem_cons]
      exact ⟨of_member hkept path key json hproper.1 htree,
        of_members hkept path rest hproper.2 hmore⟩

theorem of_member (hkept : Kept c root P) (path : Option Path) (key : String) :
    ∀ (json : Json) {tree : FilterTree}, json.isProper = true →
      member c root path key json = .ok tree → P tree
  | .obj inner, tree, hproper, hread => by
      rw [member] at hread
      obtain ⟨m, hmeaning, hread⟩ := Outcome.bind_eq_ok_iff.mp hread
      cases m with
      | logical op => simp at hread
      | root =>
          obtain ⟨trees, htrees, hread⟩ := Outcome.bind_eq_ok_iff.mp hread
          exact hkept.of_combine (of_members hkept none inner hproper htrees) hread
      | association here =>
          obtain ⟨trees, htrees, hread⟩ := Outcome.bind_eq_ok_iff.mp hread
          exact hkept.of_combine (of_members hkept (some here) inner hproper htrees) hread
      | scalar f => exact hkept.of_scalar hmeaning hproper hread
  | .arr items, tree, hproper, hread => by
      rw [member] at hread
      obtain ⟨m, hmeaning, hread⟩ := Outcome.bind_eq_ok_iff.mp hread
      cases m with
      | logical op =>
          obtain ⟨trees, htrees, hread⟩ := Outcome.bind_eq_ok_iff.mp hread
          exact hkept.of_group (isLogical_of_meaning hmeaning)
            (of_groups hkept op path items hproper htrees) hread
      | root => simp at hread
      | association here => simp at hread
      | scalar f => exact hkept.of_scalar hmeaning hproper hread
  | .null, tree, hproper, hread => hkept.of_literal path key rfl hproper hread
  | .bool _, tree, hproper, hread => hkept.of_literal path key rfl hproper hread
  | .int _, tree, hproper, hread => hkept.of_literal path key rfl hproper hread
  | .real _, tree, hproper, hread => hkept.of_literal path key rfl hproper hread
  | .str _, tree, hproper, hread => hkept.of_literal path key rfl hproper hread

theorem of_groups (hkept : Kept c root P) (op : FilterOperator) (path : Option Path) :
    ∀ (items : List Json) {trees : List FilterTree}, Json.areProper items = true →
      groups c root op path items = .ok trees → ∀ tree ∈ trees, P tree
  | [], trees, _, hread => by
      obtain rfl := Except.ok.inj hread
      simp
  | .obj inner :: rest, trees, hproper, hread => by
      rw [Json.areProper, Bool.and_eq_true] at hproper
      obtain ⟨inners, tree, more, hinners, htree, hmore, rfl⟩ := groups_cons_eq_ok hread
      rw [List.forall_mem_cons]
      exact ⟨hkept.of_combine (of_members hkept path inner hproper.1 hinners) htree,
        of_groups hkept op path rest hproper.2 hmore⟩

end

end Kept

/-- What is kept by building holds of every tree that is read. -/
theorem Kept.of_read {P : FilterTree → Prop} (hkept : Kept c root P) {json : Json}
    (hjson : json.isProper = true) {tree : FilterTree}
    (hread : read c root json = .ok (some tree)) : P tree := by
  obtain ⟨inner, trees, rfl, htrees, hcombine⟩ := read_eq_ok hread
  exact hkept.of_combine (hkept.of_members none inner hjson htrees) hcombine

/-! ## Trees that are read -/

theorem resolved_of_meaning {path : Option Path} {key : String} {f : FieldRef}
    (hmeaning : meaning c root path key = .ok (.scalar f)) : f.Resolved c root := by
  unfold meaning at hmeaning
  split at hmeaning
  · split at hmeaning <;> simp at hmeaning
  · split at hmeaning
    · simp at hmeaning
    · obtain ⟨found, hfound, hmeaning⟩ := Outcome.bind_eq_ok_iff.mp hmeaning
      split at hmeaning
      · next type htype =>
        simp only [Outcome.pure_eq_ok, Except.ok.injEq, KeyMeaning.scalar.injEq] at hmeaning
        subst hmeaning
        exact ⟨by rw [Catalog.path_of_field hfound]; exact hfound, htype⟩
      · simp at hmeaning

theorem kept_sound (c : Catalog) (root : String) : Kept c root (FilterTree.Sound c root) where
  test := by
    intro path key f op json tree hmeaning hjson htest
    unfold test at htest
    split at htest
    · simp at htest
    · split at htest
      · simp at htest
      · next haccepts =>
        obtain ⟨value, hvalue, htree⟩ := Outcome.bind_eq_ok_iff.mp htest
        obtain rfl := Except.ok.inj htree
        exact ⟨resolved_of_meaning hmeaning, by simpa using haccepts, takes_of_literal hjson hvalue⟩
  not htree := ⟨rfl, htree⟩
  compound hop hleft hright := ⟨hop, hleft, hright⟩

/-- A tree that is read is sound. -/
theorem sound_of_read {json : Json} (hjson : json.isProper = true) {tree : FilterTree}
    (hread : read c root json = .ok (some tree)) : tree.Sound c root :=
  (kept_sound c root).of_read hjson hread

end FilterReader

/-! ## Parameters -/

namespace Parameter

variable {c : Catalog} {root : String}

theorem isProper_nest (names : List String) {leaf : Json} (hleaf : leaf.isProper = true) :
    (nest names leaf).isProper = true := by
  induction names with
  | nil => exact hleaf
  | cons name names ih =>
      change (Json.obj [(name, nest names leaf)]).isProper = true
      simp [Json.isProper, Json.membersAreProper, ih]

theorem isProper_of_leaf {p : Parameter} (hp : Json.areProper p.values = true) {type : ScalarType}
    {json : Json} (hleaf : p.leaf type = .ok json) : json.isProper = true := by
  have hequal {op : FilterOperator}
      (h : (do return .obj [(op.name, ← p.single)] : Except SearchFault Json) = .ok json) :
      json.isProper = true := by
    obtain ⟨value, hvalue, h⟩ := Outcome.bind_eq_ok_iff.mp h
    obtain rfl := Except.ok.inj h
    unfold single at hvalue
    split at hvalue
    · next hvalues =>
      obtain rfl := Except.ok.inj hvalue
      rw [hvalues] at hp
      simpa [Json.isProper, Json.membersAreProper, Json.areProper] using hp
    · simp at hvalue
  unfold leaf at hleaf
  split at hleaf
  · exact hequal hleaf
  · exact hequal hleaf
  all_goals
    obtain rfl := Except.ok.inj hleaf
    simpa [Json.isProper, Json.membersAreProper] using hp

theorem isProper_of_toFilter {p : Parameter} (hp : Json.areProper p.values = true) {json : Json}
    (hfilter : p.toFilter c root = .ok json) : json.isProper = true := by
  unfold toFilter at hfilter
  split at hfilter
  · simp at hfilter
  · obtain ⟨f, -, hfilter⟩ := Outcome.bind_eq_ok_iff.mp hfilter
    split at hfilter
    · simp at hfilter
    · obtain ⟨leaf, hleaf, hfilter⟩ := Outcome.bind_eq_ok_iff.mp hfilter
      obtain rfl := Except.ok.inj hfilter
      have hnested := isProper_nest ‹Path›.names (isProper_of_leaf hp hleaf)
      split
      · simp [Json.isProper, Json.membersAreProper, Json.areProper, hnested]
      · exact hnested

theorem sound_of_readAll {parameters : List Parameter}
    (hproper : ∀ p ∈ parameters, Json.areProper p.values = true) {tree : FilterTree}
    (hread : readAll c root parameters = .ok (some tree)) : tree.Sound c root := by
  unfold readAll at hread
  split at hread
  · simp at hread
  · obtain ⟨filters, hfilters, hread⟩ := Outcome.bind_eq_ok_iff.mp hread
    refine FilterReader.sound_of_read ?_ hread
    simp only [Json.isProper, Json.membersAreProper, Bool.and_true, Json.areProper_iff]
    intro json hjson
    obtain ⟨p, hp, hjson⟩ := Outcome.exists_of_mem_mapM hfilters hjson
    exact isProper_of_toFilter (hproper p hp) hjson

end Parameter

end EntityQuery
