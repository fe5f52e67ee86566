import EntityQuery.Proofs.Search.Parameters
import EntityQuery.Proofs.Value.SameKey

/-!
# What parameters demand

A parameter is turned into a filter, the filter is read again, and the tree that comes of it is
compiled.  What is left of this in the end is a test of one value by the operator of the parameter:
it is equal to a literal, or to one of several, or it is not.  The complements are exact.  A row
without a value is not equal to any literal but null, so it passes all complements but the one of
being null.

Some parameters are refused, and the ones that are can be told from their values and from the type
of the field.

## Main definitions

* `Parameter.LeadsTo` : a parameter is on a field
* `Parameter.demands` : the test of a value by a parameter
* `Parameter.Refused` : a parameter that does not fit its field

## Main statements

* `readAll_eq_ok_iff` : what is read from parameters
* `exists_readAll_iff` : which parameters are read
* `demands_of_readAll` : which parameters are refused, and what the filter of all others means
-/

namespace EntityQuery

variable {c : Catalog} {root : String}

/-! ## Tests of a field -/

namespace FilterReader

variable {f : FieldRef} {op : FilterOperator} {json : Json} {tree : FilterTree}

theorem scalar_singleton {name : String} (hname : FilterOperator.ofName? name = some op)
    (f : FieldRef) (json : Json) : scalar f (.obj [(name, json)]) = test f op json := by
  simp only [scalar, operations, List.mapM_cons, List.mapM_nil, hname, Outcome.pure_eq_ok,
    Outcome.ok_bind]
  cases test f op json with
  | error fault => rfl
  | ok tree => rfl

theorem test_eq_ok_iff (hop : op.isLogical = false) :
    test f op json = .ok tree ↔ op.accepts f.type.family = true ∧
      ∃ v, literal op f.pathText f.type json = .ok v ∧ tree = .test op f v := by
  rw [test, if_neg (by simp [hop])]
  cases op.accepts f.type.family with
  | false => simp
  | true =>
      simp only [Bool.not_true, Bool.false_eq_true, if_false, true_and, Outcome.bind_eq_ok_iff]
      exact exists_congr fun v => and_congr_right fun _ =>
        ⟨fun h => (Except.ok.inj h).symm, fun h => h ▸ rfl⟩

theorem single_eq_ok_iff (hop : op.ordersValues = false) {path : String} {type : ScalarType}
    {v : Value} : single op path type json = .ok v ↔ Value.ofJson? type json = some v := by
  simp only [single, hop, Bool.false_and, Bool.false_eq_true, if_false]
  cases Value.ofJson? type json <;> simp

theorem literal_eq_ok_iff (hlist : op.takesList = false) (hop : op.ordersValues = false)
    {path : String} {type : ScalarType} {v : Value} :
    literal op path type json = .ok v ↔
      json.isScalar = true ∧ Value.ofJson? type json = some v := by
  unfold literal
  rw [if_neg (by simp [hlist])]
  cases json.isScalar with
  | true => simp [single_eq_ok_iff hop]
  | false => simp

theorem literal_isIn_eq_ok_iff {path : String} {type : ScalarType} {items : List Json} {v : Value} :
    literal .isIn path type (.arr items) = .ok v ↔
      ∃ values, List.Forall₂ (fun json item => Value.ofJson? type json = some item) items values ∧
        v = .list values := by
  have hitems (values : List Value) : items.mapM (single .isIn path type) = .ok values ↔
      List.Forall₂ (fun json item => Value.ofJson? type json = some item) items values := by
    have hordered : FilterOperator.isIn.ordersValues = false := rfl
    rw [Outcome.mapM_eq_ok_iff]
    simp only [single_eq_ok_iff hordered]
  have hlist : FilterOperator.isIn.takesList = true := rfl
  unfold literal
  rw [if_pos hlist]
  dsimp only
  rw [if_neg (by simp), Outcome.bind_eq_ok_iff]
  exact exists_congr fun values =>
    and_congr (hitems values) ⟨fun h => (Except.ok.inj h).symm, fun h => h ▸ rfl⟩

/-- The complement of an object of one member. -/
theorem member_not_singleton (path : Option Path) (m : String × Json) :
    member c root path FilterOperator.not.name (.arr [.obj [m]]) =
      FilterTree.unary .not <$> member c root path m.1 m.2 := by
  have hmeaning : meaning c root path FilterOperator.not.name = .ok (.logical .not) := rfl
  rw [member, hmeaning, Outcome.ok_bind]
  dsimp only
  have hgroups : groups c root .not path [.obj [m]] = [m].mapM fun m =>
      member c root path m.1 m.2 :=
    groups_singletons .not path [m]
  rw [hgroups, List.mapM_cons, List.mapM_nil]
  cases member c root path m.1 m.2 with
  | error fault => rfl
  | ok tree => rfl

theorem group_and_eq_ok_iff {path : Option Path} {trees : List FilterTree} :
    group .and path trees = .ok tree ↔ FilterTree.fold? .and trees = some tree := by
  unfold group
  simp only [reduceCtorEq, if_false]
  cases FilterTree.fold? .and trees with
  | none => simp
  | some folded => simp

end FilterReader

theorem FilterTree.fields_of_fold? {trees : List FilterTree} {tree : FilterTree}
    (hfold : fold? .and trees = some tree) : tree.fields = trees.flatMap fields := by
  have hfoldl (first : FilterTree) (rest : List FilterTree) :
      (rest.foldl (.compound .and) first).fields = first.fields ++ rest.flatMap fields := by
    induction rest generalizing first with
    | nil => simp
    | cons next rest ih => simp [ih, fields]
  rcases trees with _ | ⟨first, _ | ⟨second, rest⟩⟩
  · simp [fold?] at hfold
  · obtain rfl := Option.some.inj hfold
    simp
  · obtain rfl := Option.some.inj hfold
    exact hfoldl first (second :: rest)

/-! ## Demands -/

namespace Parameter

/-- The path of the parameter leads to a field with a type, and no name of it is one of an
operator. -/
def LeadsTo (c : Catalog) (root : String) (p : Parameter) (f : FieldRef) : Prop :=
  ∃ path, Path.read? p.path = some path ∧ c.field root path = .ok f.field ∧
    f.field.type? = some f.type ∧
    ∀ name ∈ path.names, FilterOperator.ofName? name = none

/-- The value agrees with one of the literals of the parameter: it is equal to it, and among several
literals null does not count. -/
def agrees (p : Parameter) (type : ScalarType) (value : Value) : Bool :=
  p.values.any fun json => (Value.ofJson? type json).any fun literal =>
    match p.op with
    | .equals | .notEquals => value.equal literal
    | .isIn | .notIn => !literal.isNull && value.equal literal

/-- The test of the value of a field by the parameter. -/
def demands (p : Parameter) (type : ScalarType) (value : Value) : Bool :=
  if p.op.isNegated then !p.agrees type value else p.agrees type value

/-- The parameter does not fit a field of the type: it compares with something else than a single
scalar value, one of its values is not of the type, or it looks for a truth value among several. -/
def Refused (p : Parameter) (type : ScalarType) : Prop :=
  ((p.op = .equals ∨ p.op = .notEquals) ∧ ¬ ∃ json, p.values = [json] ∧ json.isScalar = true) ∨
    (∃ json ∈ p.values, Value.ofJson? type json = none) ∨
    ((p.op = .isIn ∨ p.op = .notIn) ∧ type = .boolean)

/-! ## The tree of a parameter -/

/-- The operator and the value by which the parameter tests a field of a type. -/
def Tests (p : Parameter) (type : ScalarType) (op : FilterOperator) (v : Value) : Prop :=
  match p.op with
  | .equals | .notEquals => op = equality type ∧
    ∃ json, p.values = [json] ∧ json.isScalar = true ∧ Value.ofJson? type json = some v
  | .isIn | .notIn => op = .isIn ∧ type ≠ .boolean ∧
    ∃ items, List.Forall₂ (fun json item => Value.ofJson? type json = some item) p.values items ∧
      v = .list items

/-- The tree as which the parameter is read on a field. -/
def IsRead (p : Parameter) (f : FieldRef) (tree : FilterTree) : Prop :=
  ∃ op v, p.Tests f.type op v ∧ tree =
    if p.op.isNegated then .unary .not (.test op f v) else .test op f v

variable {p : Parameter} {f : FieldRef} {tree : FilterTree}

theorem eq_of_single {json : Json} (hsingle : p.single = .ok json) : p.values = [json] := by
  unfold single at hsingle
  split at hsingle
  · next value hvalues =>
    rw [hvalues, Except.ok.inj hsingle]
  · simp at hsingle

/-- A comparison with a single literal is read exactly if it is a scalar of the type. -/
theorem scalar_equality_iff {json : Json} :
    FilterReader.scalar f (.obj [((equality f.type).name, json)]) = .ok tree ↔
      json.isScalar = true ∧ ∃ v, Value.ofJson? f.type json = some v ∧
        tree = .test (equality f.type) f v := by
  have hread {op : FilterOperator} (hop : op = .equals ∨ op = .eq) :
      FilterReader.scalar f (.obj [(op.name, json)]) = .ok tree ↔
        json.isScalar = true ∧ ∃ v, Value.ofJson? f.type json = some v ∧ tree = .test op f v := by
    have hname : FilterOperator.ofName? op.name = some op := by rcases hop with rfl | rfl <;> rfl
    have hlogical : op.isLogical = false := by rcases hop with rfl | rfl <;> rfl
    have hlist : op.takesList = false := by rcases hop with rfl | rfl <;> rfl
    have hordered : op.ordersValues = false := by rcases hop with rfl | rfl <;> rfl
    have haccepts : op.accepts f.type.family = true := by rcases hop with rfl | rfl <;> rfl
    rw [FilterReader.scalar_singleton hname, FilterReader.test_eq_ok_iff hlogical,
      and_iff_right haccepts]
    simp only [FilterReader.literal_eq_ok_iff hlist hordered, and_assoc, exists_and_left]
  exact hread (equality_cases f.type)

/-- A comparison with several literals is read exactly if they are of the type, which is not that of
truth values. -/
theorem scalar_isIn_iff {items : List Json} :
    FilterReader.scalar f (.obj [(FilterOperator.isIn.name, .arr items)]) = .ok tree ↔
      f.type ≠ .boolean ∧
      ∃ values, List.Forall₂ (fun json item => Value.ofJson? f.type json = some item) items values ∧
        tree = .test .isIn f (.list values) := by
  have hname : FilterOperator.ofName? FilterOperator.isIn.name = some .isIn := rfl
  have haccepts : FilterOperator.isIn.accepts f.type.family = true ↔ f.type ≠ .boolean := by
    cases f.type <;> decide
  rw [FilterReader.scalar_singleton hname, FilterReader.test_eq_ok_iff rfl, haccepts]
  refine and_congr_right fun _ => ?_
  simp only [FilterReader.literal_isIn_eq_ok_iff]
  constructor
  · rintro ⟨v, ⟨values, hvalues, rfl⟩, rfl⟩
    exact ⟨values, hvalues, rfl⟩
  · rintro ⟨values, hvalues, rfl⟩
    exact ⟨_, ⟨values, hvalues, rfl⟩, rfl⟩

/-- The object of operators of a parameter is read as its test. -/
theorem exists_leaf_iff : (∃ operations, p.leaf f.type = .ok (.obj operations) ∧
    FilterReader.scalar f (.obj operations) = .ok tree) ↔
      ∃ op v, p.Tests f.type op v ∧ tree = .test op f v := by
  obtain ⟨path, op, values⟩ := p
  cases op
  case equals | notEquals =>
    constructor
    · rintro ⟨operations, hleaf, hread⟩
      obtain ⟨json, hjson, hleaf⟩ := Outcome.bind_eq_ok_iff.mp hleaf
      obtain rfl := Json.obj.inj (Except.ok.inj hleaf)
      obtain ⟨hscalar, v, hv, rfl⟩ := scalar_equality_iff.mp hread
      exact ⟨_, v, ⟨rfl, json, eq_of_single hjson, hscalar, hv⟩, rfl⟩
    · rintro ⟨op, v, ⟨rfl, json, hvalues, hscalar, hv⟩, rfl⟩
      obtain rfl : values = [json] := hvalues
      exact ⟨_, rfl, scalar_equality_iff.mpr ⟨hscalar, v, hv, rfl⟩⟩
  case isIn | notIn =>
    constructor
    · rintro ⟨operations, hleaf, hread⟩
      obtain rfl := Json.obj.inj (Except.ok.inj hleaf)
      obtain ⟨htype, items, hitems, rfl⟩ := scalar_isIn_iff.mp hread
      exact ⟨_, _, ⟨rfl, htype, items, hitems, rfl⟩, rfl⟩
    · rintro ⟨op, v, ⟨rfl, htype, items, hitems, rfl⟩, rfl⟩
      exact ⟨_, rfl, scalar_isIn_iff.mpr ⟨htype, items, hitems, rfl⟩⟩

theorem exists_operations_of_leaf {type : ScalarType} {leaf : Json}
    (hleaf : p.leaf type = .ok leaf) : ∃ operations, leaf = .obj operations := by
  obtain ⟨path, op, values⟩ := p
  cases op
  case equals | notEquals =>
    obtain ⟨json, -, hleaf⟩ := Outcome.bind_eq_ok_iff.mp hleaf
    exact ⟨_, (Except.ok.inj hleaf).symm⟩
  case isIn | notIn => exact ⟨_, (Except.ok.inj hleaf).symm⟩

/-! ## Reading parameters -/

theorem exists_singleton_of_toFilter (hp : p.LeadsTo c root f) {json : Json}
    (hfilter : p.toFilter c root = .ok json) : ∃ m, json = .obj [m] := by
  obtain ⟨path, hpath, hfield, htype, -⟩ := hp
  obtain ⟨first, rest, a, hnames, -⟩ := Catalog.exists_attribute?_of_field hfield
  rw [toFilter, hpath] at hfilter
  simp only [hfield, htype, Outcome.ok_bind] at hfilter
  obtain ⟨leaf, -, hfilter⟩ := Outcome.bind_eq_ok_iff.mp hfilter
  rw [← Except.ok.inj hfilter, hnames]
  split
  · exact ⟨_, rfl⟩
  · exact ⟨_, rfl⟩

/-- A parameter is read by way of the member of an object. -/
theorem exists_member_iff (hp : p.LeadsTo c root f) :
    (∃ m, p.toFilter c root = .ok (.obj [m]) ∧ FilterReader.member c root none m.1 m.2 = .ok tree) ↔
      p.IsRead f tree := by
  obtain ⟨path, hpath, hfield, htype, hfree⟩ := hp
  obtain ⟨first, rest, a, hnames, -⟩ := Catalog.exists_attribute?_of_field hfield
  -- the names of the path are followed down to the test of the field
  have hnested (operations : List (String × Json)) (inner : FilterTree) :
      FilterReader.member c root none first (nest rest (.obj operations)) = .ok inner ↔
        FilterReader.scalar f (.obj operations) = .ok inner := by
    have hiff : FilterReader.member c root none first (nest rest (.obj operations)) = .ok inner ↔
        _ :=
      FilterReader.member_nest_eq_ok_iff hfield htype (hnames.trans (List.nil_append _).symm)
    rw [hiff, ← hnames]
    exact and_iff_right hfree
  have htoFilter : p.toFilter c root = p.leaf f.type >>= fun leaf =>
      .ok (if p.op.isNegated then
        .obj [(FilterOperator.not.name, .arr [.obj [(first, nest rest leaf)]])]
        else .obj [(first, nest rest leaf)]) := by
    rw [toFilter, hpath]
    simp only [hfield, htype, Outcome.ok_bind, hnames]
    rfl
  rw [htoFilter]
  constructor
  -- complements are read under a negation, all others as they are
  · rintro ⟨m, hfilter, hmember⟩
    obtain ⟨leaf, hleaf, hfilter⟩ := Outcome.bind_eq_ok_iff.mp hfilter
    obtain ⟨operations, rfl⟩ := exists_operations_of_leaf hleaf
    unfold IsRead
    cases hnegated : p.op.isNegated with
    | true =>
        rw [hnegated, if_pos rfl, Except.ok.injEq, Json.obj.injEq, List.singleton_inj] at hfilter
        rw [← hfilter, FilterReader.member_not_singleton, Outcome.map_eq_ok_iff] at hmember
        obtain ⟨inner, hinner, rfl⟩ := hmember
        obtain ⟨op, v, htests, rfl⟩ :=
          exists_leaf_iff.mp ⟨operations, hleaf, (hnested operations inner).mp hinner⟩
        exact ⟨op, v, htests, rfl⟩
    | false =>
        rw [hnegated, if_neg Bool.false_ne_true, Except.ok.injEq, Json.obj.injEq,
          List.singleton_inj] at hfilter
        rw [← hfilter] at hmember
        obtain ⟨op, v, htests, rfl⟩ :=
          exists_leaf_iff.mp ⟨operations, hleaf, (hnested operations tree).mp hmember⟩
        exact ⟨op, v, htests, rfl⟩
  · rintro ⟨op, v, htests, rfl⟩
    obtain ⟨operations, hleaf, hscalar⟩ := exists_leaf_iff.mpr ⟨op, v, htests, rfl⟩
    have hinner := (hnested operations _).mpr hscalar
    rw [hleaf, Outcome.ok_bind]
    cases hnegated : p.op.isNegated with
    | true =>
        refine ⟨_, rfl, ?_⟩
        rw [FilterReader.member_not_singleton, hinner]
        rfl
    | false => exact ⟨_, rfl, hinner⟩

/-! ## Reading several parameters -/

variable {parameters : List Parameter} {on : Parameter → FieldRef}

theorem exists_members_iff (hon : ∀ p ∈ parameters, p.LeadsTo c root (on p))
    {trees : List FilterTree} :
    (∃ ms : List (String × Json),
        parameters.mapM (toFilter c root) = .ok (ms.map fun m => .obj [m]) ∧
        (ms.mapM fun m => FilterReader.member c root none m.1 m.2) = .ok trees) ↔
      List.Forall₂ (fun p tree => p.IsRead (on p) tree) parameters trees := by
  simp only [Outcome.mapM_eq_ok_iff, List.forall₂_map_right_iff, Outcome.exists_forall₂_forall₂_iff]
  constructor
  · intro h
    exact ((List.forall₂_and_left _ _).mpr ⟨hon, h⟩).imp fun p tree h =>
      (exists_member_iff h.1).mp h.2
  · intro h
    exact ((List.forall₂_and_left _ _).mpr ⟨hon, h⟩).imp fun p tree h =>
      (exists_member_iff h.1).mpr h.2

theorem exists_singletons_of_toFilter (hon : ∀ p ∈ parameters, p.LeadsTo c root (on p))
    {filters : List Json} (hfilters : parameters.mapM (toFilter c root) = .ok filters) :
    ∃ ms : List (String × Json), filters = ms.map fun m => .obj [m] := by
  have hsingletons : ∀ json ∈ filters, ∃ m, json = .obj [m] := by
    intro json hjson
    obtain ⟨p, hp, hfilter⟩ := Outcome.exists_of_mem_mapM hfilters hjson
    exact exists_singleton_of_toFilter (hon p hp) hfilter
  obtain ⟨ms, hms⟩ := Outcome.exists_forall₂_iff.mpr hsingletons
  refine ⟨ms, ?_⟩
  rwa [← List.forall₂_map_right_iff (R := (· = ·)), List.forall₂_eq_eq_eq] at hms

/-- Parameters that lead to fields are read one by one and put together by `and`. -/
theorem readAll_eq_ok_iff (hne : parameters ≠ []) (hon : ∀ p ∈ parameters, p.LeadsTo c root (on p))
    {result : Option FilterTree} :
    readAll c root parameters = .ok result ↔ ∃ trees tree,
      List.Forall₂ (fun p tree => p.IsRead (on p) tree) parameters trees ∧
        FilterTree.fold? .and trees = some tree ∧ result = some tree := by
  rw [readAll, if_neg (by simpa using hne), Outcome.bind_eq_ok_iff]
  have hread (ms : List (String × Json)) :
      FilterReader.read c root (.obj [(FilterOperator.and.name, .arr (ms.map fun m => .obj [m]))]) =
        .ok result ↔
        ∃ trees tree, (ms.mapM fun m => FilterReader.member c root none m.1 m.2) = .ok trees ∧
          FilterTree.fold? .and trees = some tree ∧ result = some tree := by
    rw [FilterReader.read_and_singletons, Outcome.bind_eq_ok_iff]
    simp only [Outcome.map_eq_ok_iff, FilterReader.group_and_eq_ok_iff, exists_and_left,
      eq_comm (b := result)]
  constructor
  · rintro ⟨filters, hfilters, h⟩
    obtain ⟨ms, rfl⟩ := exists_singletons_of_toFilter hon hfilters
    obtain ⟨trees, tree, htrees, htree⟩ := (hread ms).mp h
    exact ⟨trees, tree, (exists_members_iff hon).mp ⟨ms, hfilters, htrees⟩, htree⟩
  · rintro ⟨trees, tree, hall, htree⟩
    obtain ⟨ms, hfilters, htrees⟩ := (exists_members_iff hon).mpr hall
    exact ⟨_, hfilters, (hread ms).mpr ⟨trees, tree, htrees, htree⟩⟩

/-! ## Parameters that are refused -/

/-- A parameter is read unless it does not fit its field. -/
theorem exists_isRead_iff : (∃ tree, p.IsRead f tree) ↔ ¬ p.Refused f.type := by
  have htests : (∃ tree, p.IsRead f tree) ↔ ∃ op v, p.Tests f.type op v :=
    ⟨fun ⟨_, op, v, h, _⟩ => ⟨op, v, h⟩, fun ⟨op, v, h⟩ => ⟨_, op, v, h, rfl⟩⟩
  rw [htests]
  obtain ⟨path, op, values⟩ := p
  cases op
  -- one value, which is a scalar of the type
  case equals | notEquals =>
    constructor
    · rintro ⟨_, v, -, json, hvalues, hscalar, hv⟩
        (⟨-, hsingle⟩ | ⟨other, hother, hnone⟩ | ⟨hop, -⟩)
      · exact hsingle ⟨json, hvalues, hscalar⟩
      · change other ∈ values at hother
        rw [show values = [json] from hvalues, List.mem_singleton] at hother
        rw [hother, hv] at hnone
        simp at hnone
      · simp at hop
    · intro h
      rw [Refused, not_or, not_or] at h
      obtain ⟨hsingle, hvalues, -⟩ := h
      obtain ⟨json, hjson, hscalar⟩ := not_not.mp fun hnone => hsingle ⟨by simp, hnone⟩
      obtain ⟨v, hv⟩ := Option.ne_none_iff_exists'.mp fun hnone =>
        hvalues ⟨json, hjson ▸ List.mem_singleton_self json, hnone⟩
      exact ⟨_, v, rfl, json, hjson, hscalar, hv⟩
  -- several values, all of the type, which must not be of truth values
  case isIn | notIn =>
    constructor
    · rintro ⟨_, v, -, htype, items, hitems, -⟩ (⟨hop, -⟩ | ⟨json, hjson, hnone⟩ | ⟨-, hboolean⟩)
      · simp at hop
      · obtain ⟨v, -, hv⟩ := Outcome.exists_of_mem_left hitems hjson
        rw [hv] at hnone
        simp at hnone
      · exact htype hboolean
    · intro h
      rw [Refused, not_or, not_or] at h
      obtain ⟨-, hvalues, htype⟩ := h
      obtain ⟨items, hitems⟩ := Outcome.exists_forall₂_iff.mpr fun json hjson =>
        Option.ne_none_iff_exists'.mp fun hnone => hvalues ⟨json, hjson, hnone⟩
      exact ⟨_, _, rfl, fun hboolean => htype ⟨by simp, hboolean⟩, items, hitems, rfl⟩

/-- Parameters that lead to fields are read unless one of them does not fit its field. -/
theorem exists_readAll_iff (hne : parameters ≠ [])
    (hon : ∀ p ∈ parameters, p.LeadsTo c root (on p)) :
    (∃ result, readAll c root parameters = .ok result) ↔
      ∀ p ∈ parameters, ¬ p.Refused (on p).type := by
  simp only [readAll_eq_ok_iff hne hon, ← exists_isRead_iff, ← Outcome.exists_forall₂_iff]
  constructor
  · rintro ⟨result, trees, tree, hall, -⟩
    exact ⟨trees, hall⟩
  · rintro ⟨trees, hall⟩
    have hsome : trees ≠ [] := by
      rintro rfl
      cases hall
      exact hne rfl
    obtain ⟨tree, htree⟩ := FilterReader.fold?_isSome_iff.mpr hsome
    exact ⟨some tree, trees, tree, hall, htree, rfl⟩

/-! ## What parameters mean -/

theorem holds_equality {type : ScalarType} {a b : Value} (ha : a.conforms type = true)
    (hb : b.conforms type = true) : (equality type).holds a b = a.equal b := by
  have hholds : (equality type).holds a b =
      if b.isNull then a.isNull else a.compare? b = some .eq := by
    rcases equality_cases type with h | h <;> rw [h] <;> rfl
  rw [hholds, Bool.eq_iff_iff]
  cases hnull : b.isNull with
  | true =>
      obtain rfl := Value.eq_null_of_isNull hnull
      rw [Value.equal_null_iff]
      simp
  | false => simp [Value.compare?_eq_iff_of_conforms ha hb, hnull]

/-- The test by which a parameter is read tells whether the value agrees with the parameter. -/
theorem holds_of_tests {type : ScalarType} {op : FilterOperator} {v : Value}
    (hproper : Json.areProper p.values = true) (htests : p.Tests type op v) {value : Value}
    (hvalue : value.conforms type = true) : op.holds value v = p.agrees type value := by
  rw [Json.areProper_iff] at hproper
  obtain ⟨path, operator, values⟩ := p
  cases operator
  case equals | notEquals =>
    obtain ⟨rfl, json, hvalues, -, hv⟩ := htests
    obtain rfl : values = [json] := hvalues
    have hliteral := Value.conforms_ofJson? (hproper json (List.mem_singleton_self json)) hv
    rw [holds_equality hvalue hliteral]
    simp [agrees, hv]
  case isIn | notIn =>
    obtain ⟨rfl, -, items, hitems, rfl⟩ := htests
    change List.Forall₂ _ values items at hitems
    -- value by value, membership is equality in order
    have hmatches : (values.map fun json => (Value.ofJson? type json).any fun literal =>
        !literal.isNull && value.equal literal) = items.map fun item =>
          decide (value.compare? item = some .eq) := by
      rw [← List.forall₂_eq_eq_eq, List.forall₂_map_left_iff, List.forall₂_map_right_iff]
      refine ((List.forall₂_and_left _ _).mpr ⟨hproper, hitems⟩).imp fun json item h => ?_
      obtain ⟨hjson, hv⟩ := h
      rw [hv, Bool.eq_iff_iff, decide_eq_true_iff,
        Value.compare?_eq_iff_of_conforms hvalue (Value.conforms_ofJson? hjson hv)]
      simp
    calc FilterOperator.isIn.holds value (.list items)
        = (items.map fun item => decide (value.compare? item = some .eq)).any id := by
          rw [List.any_map]
          rfl
      _ = agrees ⟨path, _, values⟩ type value := by
          rw [← hmatches, List.any_map]
          rfl

variable {cells : Cells}

theorem IsRead.fields (hread : p.IsRead f tree) : tree.fields = [f] := by
  obtain ⟨op, v, -, rfl⟩ := hread
  split <;> rfl

theorem IsRead.truth (hread : p.IsRead f tree) (hproper : Json.areProper p.values = true)
    (hcell : (cells f.field.columnPath).conforms f.type = true) :
    tree.truth cells = p.demands f.type (cells f.field.columnPath) := by
  obtain ⟨op, v, htests, rfl⟩ := hread
  have hholds := holds_of_tests hproper htests hcell
  unfold demands
  split
  · rw [← hholds]
    rfl
  · rw [← hholds]
    rfl

theorem fields_of_areRead {trees : List FilterTree}
    (hall : List.Forall₂ (fun p tree => p.IsRead (on p) tree) parameters trees)
    (hfold : FilterTree.fold? .and trees = some tree) : tree.fields = parameters.map on := by
  rw [FilterTree.fields_of_fold? hfold]
  clear hfold
  induction hall with
  | nil => rfl
  | cons hread _ ih =>
      rw [List.flatMap_cons, hread.fields, ih, List.map_cons, List.singleton_append]

theorem truth_of_areRead {trees : List FilterTree}
    (hall : List.Forall₂ (fun p tree => p.IsRead (on p) tree) parameters trees)
    (hfold : FilterTree.fold? .and trees = some tree)
    (hproper : ∀ p ∈ parameters, Json.areProper p.values = true)
    (hcells : ∀ p ∈ parameters, (cells (on p).field.columnPath).conforms (on p).type = true) :
    tree.truth cells = parameters.all fun p =>
      p.demands (on p).type (cells (on p).field.columnPath) := by
  have htruths : trees.map (FilterTree.truth cells) =
      parameters.map fun p => p.demands (on p).type (cells (on p).field.columnPath) := by
    rw [eq_comm, ← List.forall₂_eq_eq_eq, List.forall₂_map_left_iff, List.forall₂_map_right_iff]
    have hevery := fun p hp => And.intro (hproper p hp) (hcells p hp)
    exact ((List.forall₂_and_left _ _).mpr ⟨hevery, hall⟩).imp fun p tree h =>
      (h.2.truth h.1.1 h.1.2).symm
  rw [FilterReader.truth_of_fold? (.inl rfl) cells hfold, if_neg (by decide), htruths, List.all_map]
  rfl

/-! ## Null -/

/-- Null is not one of several values, though null may be among them. -/
theorem demands_null_of_notIn (hop : p.op = .notIn) (type : ScalarType) :
    p.demands type .null = true := by
  have hagrees : p.agrees type .null = false := by
    simp only [agrees, hop, List.any_eq_false, Option.any_eq_true, not_exists, not_and]
    intro json _ literal _
    cases hnull : literal.isNull with
    | true => simp
    | false => simp [Value.null_equal_iff, hnull]
  simp [demands, hop, ParameterOperator.isNegated, hagrees]

theorem demands_null_iff_of_notEquals (hop : p.op = .notEquals) {type : ScalarType}
    (hfits : ¬ p.Refused type) : p.demands type .null = true ↔ p.values ≠ [.null] := by
  rw [Refused, not_or, not_or] at hfits
  obtain ⟨hsingle, hvalues, -⟩ := hfits
  obtain ⟨json, hjson, -⟩ := not_not.mp fun hnone => hsingle ⟨.inr hop, hnone⟩
  obtain ⟨v, hv⟩ := Option.ne_none_iff_exists'.mp fun hnone =>
    hvalues ⟨json, hjson ▸ List.mem_singleton_self json, hnone⟩
  have hagrees : p.agrees type .null = true ↔ json = .null := by
    rw [← Value.isNull_iff_of_ofJson? hv, ← Value.null_equal_iff]
    simp [agrees, hop, hjson, hv]
  simp [demands, hop, ParameterOperator.isNegated, hjson, ← hagrees]

/-! ## The filter of parameters -/

/-- The filter of parameters that lead to fields means what they demand, all of them, and it is only
parameters that do not fit their fields that are refused.  A row without a value passes every
complement but the one of null. -/
theorem demands_of_readAll (hne : parameters ≠ []) (hon : ∀ p ∈ parameters, p.LeadsTo c root (on p))
    (hproper : ∀ p ∈ parameters, Json.areProper p.values = true) :
    ((∃ fault, readAll c root parameters = .error fault) ↔
      ∃ p ∈ parameters, p.Refused (on p).type) ∧
      ∀ {result}, readAll c root parameters = .ok result →
        (∃ tree compiled, result = some tree ∧ tree.compile .none = .ok compiled ∧
          ∀ layout : List String, (∀ p ∈ parameters, (on p).field.columnPath ∈ layout) →
            ∃ bound, compiled.predicate.bind layout = .ok bound ∧
              ∀ row : Row, row.length = layout.length →
                (∀ p ∈ parameters,
                  (row.cell layout (on p).field.columnPath).conforms (on p).type = true) →
                  bound.holds row = .ok (parameters.all fun p =>
                    p.demands (on p).type (row.cell layout (on p).field.columnPath))) ∧
        ∀ p ∈ parameters, (p.op = .notIn → p.demands (on p).type .null = true) ∧
          (p.op = .notEquals → (p.demands (on p).type .null = true ↔ p.values ≠ [.null])) := by
  have hreads := exists_readAll_iff hne hon
  refine ⟨?_, fun {result} hread =>
    ⟨?_, fun p hp => ⟨fun hop => demands_null_of_notIn hop _, fun hop => ?_⟩⟩⟩
  -- reading fails exactly if one of the parameters is not read
  · have hfaults : (∃ fault, readAll c root parameters = .error fault) ↔
        ¬ ∃ result, readAll c root parameters = .ok result := by
      cases readAll c root parameters with
      | error fault => simp
      | ok result => simp
    rw [hfaults, hreads]
    push Not
    rfl
  -- the filter is read, compiled and bound; then it holds of a row what the tree means
  · obtain ⟨trees, tree, hall, hfold, rfl⟩ := (readAll_eq_ok_iff hne hon).mp hread
    have hsound := sound_of_readAll hproper hread
    have hfields := fields_of_areRead hall hfold
    obtain ⟨compiled, hcompiled⟩ := FilterTree.exists_compile hsound
    refine ⟨tree, compiled, rfl, hcompiled, fun layout hlayout => ?_⟩
    -- the columns of the predicate are those of the fields of the parameters
    have hreadColumns : ∀ name ∈ compiled.predicate.reads, name ∈ layout := by
      intro name hname
      rw [FilterTree.reads_of_compile hcompiled, hfields, List.map_map] at hname
      obtain ⟨p, hp, rfl⟩ := List.mem_map.mp hname
      exact hlayout p hp
    obtain ⟨bound, hbound⟩ := Expr.exists_bind compiled.predicate hreadColumns
    refine ⟨bound, hbound, fun row hwidth hrow => ?_⟩
    have hcells : ∀ f ∈ tree.fields,
        (row.cell layout f.field.columnPath).conforms f.type = true := by
      rw [hfields]
      exact List.forall_mem_map.mpr hrow
    calc bound.holds row = .ok (tree.truth (row.cell layout)) :=
          FilterTree.holds_of_compile hsound hcompiled hbound hwidth hcells
      _ = _ := congrArg _ (truth_of_areRead hall hfold hproper hrow)
  · exact demands_null_iff_of_notEquals hop (hreads.mp ⟨result, hread⟩ p hp)

/-- Books with another title than one, of an author with a name out of some. -/
def otherBooks : List Parameter :=
  [⟨"title", .notEquals, [.str "Ficciones"]⟩, ⟨"author.name", .isIn, [.null, .str "Borges"]⟩]

/-- A book without a title has another title than the one. -/
theorem demands_of_readAll_shelf :
    ∃ on : Parameter → FieldRef, (∀ p ∈ otherBooks, p.LeadsTo Shelf.catalog "Book" (on p)) ∧
      (∀ p ∈ otherBooks, Json.areProper p.values = true) ∧
        ∃ tree compiled bound, readAll Shelf.catalog "Book" otherBooks = .ok (some tree) ∧
          tree.compile .none = .ok compiled ∧
          compiled.predicate.bind ["title", "author.name"] = .ok bound ∧
            bound.holds [.null, .text "Borges"] = .ok true := by
  have hfields : ∃ title name : FieldRef,
      (LeadsTo Shelf.catalog "Book" ⟨"title", .notEquals, [.str "Ficciones"]⟩ title ∧
        LeadsTo Shelf.catalog "Book" ⟨"author.name", .isIn, [.null, .str "Borges"]⟩ name) ∧
        (title.type = .text ∧ name.type = .text) ∧
        title.field.columnPath = "title" ∧ name.field.columnPath = "author.name" :=
    ⟨⟨_, .text⟩, ⟨_, .text⟩, ⟨⟨_, rfl, rfl, rfl, by decide⟩, ⟨_, rfl, rfl, rfl, by decide⟩⟩,
      ⟨rfl, rfl⟩, rfl, rfl⟩
  obtain ⟨title, name, hleads, ⟨htitle, hname⟩, htitleColumn, hnameColumn⟩ := hfields
  let on : Parameter → FieldRef := fun p => if p.path = "title" then title else name
  have hmem {P : Parameter → Prop} : (∀ p ∈ otherBooks, P p) ↔
      P ⟨"title", .notEquals, [.str "Ficciones"]⟩ ∧
      P ⟨"author.name", .isIn, [.null, .str "Borges"]⟩ := by
    simp [otherBooks]
  have hon : ∀ p ∈ otherBooks, p.LeadsTo Shelf.catalog "Book" (on p) := hmem.mpr hleads
  have hproper : ∀ p ∈ otherBooks, Json.areProper p.values = true := hmem.mpr ⟨rfl, rfl⟩
  have hne : otherBooks ≠ [] := List.cons_ne_nil _ _
  obtain ⟨hfaults, hmeans⟩ := demands_of_readAll hne hon hproper
  have hfits : ∀ p ∈ otherBooks, ¬ p.Refused (on p).type := by
    refine hmem.mpr ⟨?_, ?_⟩
    · show ¬ Refused _ title.type
      simp [htitle, Refused, Json.isScalar, Value.ofJson?]
    · show ¬ Refused _ name.type
      simp [hname, Refused, Value.ofJson?]
  cases hread : readAll Shelf.catalog "Book" otherBooks with
  | error fault =>
      obtain ⟨p, hp, hrefused⟩ := hfaults.mp ⟨fault, hread⟩
      exact absurd hrefused (hfits p hp)
  | ok result =>
      obtain ⟨⟨tree, compiled, rfl, hcompiled, hholds⟩, -⟩ := hmeans hread
      have hcolumns : ∀ p ∈ otherBooks, (on p).field.columnPath ∈ ["title", "author.name"] := by
        refine hmem.mpr ?_
        show title.field.columnPath ∈ _ ∧ name.field.columnPath ∈ _
        simp [htitleColumn, hnameColumn]
      obtain ⟨bound, hbound, hrow⟩ := hholds ["title", "author.name"] hcolumns
      refine ⟨on, hon, hproper, tree, compiled, bound, rfl, hcompiled, hbound, ?_⟩
      rw [hrow [.null, .text "Borges"] rfl]
      · show Except.ok (demands _ title.type (Row.cell _ _ title.field.columnPath) &&
          (demands _ name.type (Row.cell _ _ name.field.columnPath) && true)) = .ok true
        rw [htitle, hname, htitleColumn, hnameColumn]
        rfl
      · refine hmem.mpr ?_
        show (Row.cell _ _ title.field.columnPath).conforms title.type = true ∧
          (Row.cell _ _ name.field.columnPath).conforms name.type = true
        rw [htitle, hname, htitleColumn, hnameColumn]
        exact ⟨rfl, rfl⟩

end Parameter

end EntityQuery
