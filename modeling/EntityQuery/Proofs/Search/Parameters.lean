import EntityQuery.Proofs.Filter.Grammar
import EntityQuery.Proofs.Search.Shown
import EntityQuery.Proofs.Search.Spelled

/-!
# Parameters and the fields that they mean

A parameter is turned into a filter, one object inside the other along the names of its path, and
the filter is read again.  Here this way of reading a parameter is compared with the way in which
the path of a selected field is resolved.

On the way through a filter every name is a key, and a key is first looked up among the operators.
Besides, a path is followed from the root entity before it is turned into a filter, without a look
at the root paths.  So a parameter means the field to which its path leads as a selected field,
unless a root path stands in front or a name is one of an operator, see `read_equal_iff`.  With such
a path a parameter is refused, though the field can be selected.

## Strategy

The names of a path are read from the first to the last.  At every name but the last the path so far
leads to an association (`exists_association_of_prefix`), and the reader goes on in the object
below; the last one leads to the field.  This is an induction over the names that are still to come,
`member_nest_eq_ok_iff`.

## Main statements

* `FilterReader.member_nest_eq_ok_iff` : what is read along the names of a path
* `Parameter.readAll_equal_iff` : what is read from a parameter
* `WireRequest.read_equal_iff` : when a request with one parameter is understood, and as what
-/

namespace EntityQuery

variable {c : Catalog} {root marker : String}

/-! ## Names in front of a field -/

namespace Path

theorem below_ofNames? {p : Path} {before : List String} {name : String}
    (hnames : p.names = before ++ [name]) : below (ofNames? before) name = p := by
  refine names_injective ?_
  rw [hnames]
  cases before using List.reverseRecOn with
  | nil => rfl
  | append_singleton steps field =>
      have hbefore : ofNames? (steps ++ [field]) = some ⟨steps, field⟩ :=
        ofNames?_names ⟨steps, field⟩
      rw [hbefore]
      rfl

end Path

/-! ## Reading along the names of a path -/

namespace FilterReader

variable {path : Option Path} {key : String}

theorem object_singleton (path : Option Path) (m : String × Json) :
    (members c root path [m] >>= combine path [m]) = member c root path m.1 m.2 := by
  obtain ⟨key, json⟩ := m
  rw [members, members]
  cases member c root path key json with
  | error fault => rfl
  | ok tree => rfl

theorem member_of_operator {op : FilterOperator} (hkey : FilterOperator.ofName? key = some op)
    (inner : List (String × Json)) (tree : FilterTree) :
    member c root path key (.obj inner) ≠ .ok tree := by
  rw [member, meaning, hkey]
  dsimp only
  split
  · simp
  · simp

/-- Along the names of a path that leads to a scalar field the filter of the field is read, if no
name is one of an operator. -/
theorem member_nest_eq_ok_iff {p : Path} {f : Field} (hfield : c.field root p = .ok f)
    {type : ScalarType} (htype : f.type? = some type) {before rest : List String} {name : String}
    (hnames : p.names = before ++ name :: rest) {operations : List (String × Json)}
    {tree : FilterTree} :
    member c root (Path.ofNames? before) name (Parameter.nest rest (.obj operations)) = .ok tree ↔
      (∀ n ∈ name :: rest, FilterOperator.ofName? n = none) ∧
      scalar ⟨f, type⟩ (.obj operations) = .ok tree := by
  -- on the names of the path; the last one is that of the field
  induction rest generalizing before name with
  | nil =>
      cases hname : FilterOperator.ofName? name with
      | some op =>
          exact iff_of_false (member_of_operator hname operations tree) fun h => by
            simp [hname] at h
      | none =>
          have hmeaning : meaning c root (Path.ofNames? before) name = .ok (.scalar ⟨f, type⟩) := by
            rw [meaning_of_field hname (by rwa [Path.below_ofNames? hnames]), htype]
          change member c root (Path.ofNames? before) name (.obj operations) = .ok tree ↔ _
          rw [member, hmeaning]
          simp [hname]
  | cons next rest ih =>
      cases hname : FilterOperator.ofName? name with
      | some op =>
          exact iff_of_false (member_of_operator hname _ tree) fun h => by simp [hname] at h
      | none =>
          have hlonger : p.names = before ++ [name] ++ next :: rest := by
            rw [hnames, List.append_assoc]
            rfl
          have hbelow : Path.below (Path.ofNames? before) name = ⟨before, name⟩ :=
            Path.below_ofNames? rfl
          have hhere : Path.ofNames? (before ++ [name]) = some ⟨before, name⟩ :=
            Path.ofNames?_names ⟨before, name⟩
          -- names in front of others lead to associations
          obtain ⟨g, hg, hassociation⟩ : ∃ g, c.field root ⟨before, name⟩ = .ok g ∧
              g.type? = none :=
            Catalog.exists_association_of_prefix (List.cons_ne_nil next rest) hlonger hfield
          have hmeaning : meaning c root (Path.ofNames? before) name =
              .ok (.association ⟨before, name⟩) := by
            rw [meaning_of_field hname (by rwa [hbelow]), hassociation, Catalog.path_of_field hg]
          change member c root (Path.ofNames? before) name
            (.obj [(next, Parameter.nest rest (.obj operations))]) =
            .ok tree ↔ _
          rw [member, hmeaning, Outcome.ok_bind]
          dsimp only
          rw [object_singleton, ← hhere]
          dsimp only
          rw [ih hlonger]
          simp [hname]

theorem groups_singletons (op : FilterOperator) (path : Option Path) (ms : List (String × Json)) :
    groups c root op path (ms.map fun m => .obj [m]) = ms.mapM fun m =>
      member c root path m.1 m.2 := by
  induction ms with
  | nil => rw [List.map_nil, groups, List.mapM_nil]
  | cons m ms ih =>
      rw [List.map_cons, groups, ih, List.mapM_cons, ← object_singleton path m, bind_assoc]

theorem read_and_singletons (ms : List (String × Json)) :
    read c root (.obj [(FilterOperator.and.name, .arr (ms.map fun m => .obj [m]))]) =
      (ms.mapM fun m => member c root none m.1 m.2) >>= fun trees =>
        some <$> group .and none trees := by
  have hmeaning : meaning c root none FilterOperator.and.name = .ok (.logical .and) := rfl
  rw [read, ← bind_assoc, object_singleton]
  · dsimp only
    rw [member, hmeaning, Outcome.ok_bind]
    dsimp only
    rw [groups_singletons, bind_assoc]
    rfl
  · simp

/-- The test of a field for equality with a literal. -/
theorem scalar_equal {f : FieldRef} {op : FilterOperator} (hop : op = .equals ∨ op = .eq)
    {json : Json} (hscalar : json.isScalar = true) {v : Value}
    (hv : Value.ofJson? f.type json = some v) :
    scalar f (.obj [(op.name, json)]) = .ok (.test op f v) := by
  have hname : FilterOperator.ofName? op.name = some op := by
    rcases hop with rfl | rfl <;> rfl
  have hsingle : single op f.pathText f.type json = .ok v := by
    simp [single, hv]
  have htest : test f op json = .ok (.test op f v) := by
    rcases hop with rfl | rfl <;>
      simp [test, FilterOperator.isLogical, FilterOperator.group, FilterOperator.accepts, literal,
        FilterOperator.takesList, hscalar, hsingle]
  simp [scalar, operations, hname, htest, FilterTree.fold?]

end FilterReader

/-! ## Parameters -/

namespace Parameter

/-- The operator by which a parameter compares a field of a type with a value. -/
def equality (type : ScalarType) : FilterOperator := if type.family = .textual then .equals else .eq

theorem equality_cases (type : ScalarType) : equality type = .equals ∨ equality type = .eq := by
  unfold equality
  split
  · exact .inl rfl
  · exact .inr rfl

variable {text : String} {p : Path} {f : Field} {type : ScalarType} {json : Json}

theorem toFilter_equal (hp : Path.read? text = some p) (hfield : c.field root p = .ok f)
    (htype : f.type? = some type) :
    toFilter c root ⟨text, .equals, [json]⟩ =
      .ok (nest p.names (.obj [((equality type).name, json)])) := by
  simp [toFilter, hp, hfield, htype, leaf, single, equality, ParameterOperator.isNegated]

theorem readAll_singleton {q : Parameter} {m : String × Json}
    (hfilter : q.toFilter c root = .ok (.obj [m])) :
    readAll c root [q] = some <$> FilterReader.member c root none m.1 m.2 := by
  have hfilters : [q].mapM (toFilter c root) = .ok ([m].map fun m => .obj [m]) := by
    simp [hfilter]
  rw [readAll, if_neg (by simp), hfilters, Outcome.ok_bind, FilterReader.read_and_singletons,
    List.mapM_cons, List.mapM_nil]
  cases FilterReader.member c root none m.1 m.2 with
  | error fault => rfl
  | ok tree => rfl

theorem exists_field_of_readAll {q : Parameter} {tree : Option FilterTree}
    (hread : readAll c root [q] = .ok tree) :
    ∃ p f, Path.read? q.path = some p ∧ c.field root p = .ok f := by
  rw [readAll, if_neg (by simp)] at hread
  obtain ⟨filters, hfilters, -⟩ := Outcome.bind_eq_ok_iff.mp hread
  obtain ⟨filter, -, hfilter⟩ := Outcome.exists_mem_of_mapM hfilters (List.mem_singleton.mpr rfl)
  unfold toFilter at hfilter
  split at hfilter
  · simp at hfilter
  · next p hp =>
    obtain ⟨f, hf, -⟩ := Outcome.bind_eq_ok_iff.mp hfilter
    exact ⟨p, f, hp, hf⟩

/-- What is read from a parameter that demands a value of a field. -/
theorem readAll_equal_iff (hp : Path.read? text = some p) (hfield : c.field root p = .ok f)
    (htype : f.type? = some type) (hscalar : json.isScalar = true) {v : Value}
    (hv : Value.ofJson? type json = some v) {tree : Option FilterTree} :
    readAll c root [⟨text, .equals, [json]⟩] = .ok tree ↔
      (∀ name ∈ p.names, FilterOperator.ofName? name = none) ∧
      tree = some (.test (equality type) ⟨f, type⟩ v) := by
  obtain ⟨first, rest, a, hnames, -⟩ := Catalog.exists_attribute?_of_field hfield
  have hfilter : toFilter c root ⟨text, .equals, [json]⟩ =
      .ok (.obj [(first, nest rest (.obj [((equality type).name, json)]))]) := by
    rw [toFilter_equal hp hfield htype, hnames]
    rfl
  -- at the end of the path stands the test of the field for the value
  have htest : FilterReader.scalar ⟨f, type⟩ (.obj [((equality type).name, json)]) =
      .ok (.test (equality type) ⟨f, type⟩ v) :=
        FilterReader.scalar_equal (equality_cases type) hscalar hv
  have hmember (inner : FilterTree) :
      FilterReader.member c root none first (nest rest (.obj [((equality type).name, json)])) =
        .ok inner ↔
        (∀ name ∈ p.names, FilterOperator.ofName? name = none) ∧
        inner = .test (equality type) ⟨f, type⟩ v := by
    have hnested :
        FilterReader.member c root none first (nest rest (.obj [((equality type).name, json)])) =
          .ok inner ↔
        _ := FilterReader.member_nest_eq_ok_iff hfield htype (hnames.trans (List.nil_append _).symm)
    rw [hnested, htest, hnames, Except.ok.injEq, eq_comm (a := inner)]
  rw [readAll_singleton hfilter, Outcome.map_eq_ok_iff]
  simp only [hmember]
  constructor
  · rintro ⟨inner, ⟨hfree, rfl⟩, rfl⟩
    exact ⟨hfree, rfl⟩
  · rintro ⟨hfree, rfl⟩
    exact ⟨_, ⟨hfree, rfl⟩, rfl⟩

end Parameter

/-! ## Requests with one parameter -/

namespace WireRequest

theorem read_of_parameters (parameters : List (String × WireParameter)) :
    read c root marker { empty with parameters } =
      (fun tree => { Request.all with parameters := tree }) <$>
        readParameters c root marker parameters := by
  simp only [read, empty, readGroups, List.mapM_nil, Outcome.pure_eq_ok, Outcome.ok_bind]
  cases readParameters c root marker parameters with
  | error fault => rfl
  | ok tree => rfl

theorem readParameters_singleton {path op : String} {values : List Json}
    {operator : ParameterOperator} (hop : ParameterOperator.ofName? op = some operator) :
    readParameters c root marker [(path, ⟨op, values⟩)] =
      Parameter.readAll c root [⟨Spelling.plain marker path, operator, values⟩] := by
  simp [readParameters, sortedParameters, readParameter, hop]

/-- A request demands by a parameter that a field has a value.  It is understood so exactly if the
path leads to the field as it stands, with no root path in front, and no name of it is one of an
operator. -/
theorem read_equal_iff {path : String} {f : Field}
    (hresolve : Planner.resolve c root marker path = .ok f) {type : ScalarType}
    (htype : f.type? = some type) {json : Json} (hscalar : json.isScalar = true) {v : Value}
    (hv : Value.ofJson? type json = some v) {op : String}
    (hop : ParameterOperator.ofName? op = some .equals) {r : Request} :
    read c root marker { empty with parameters := [(path, ⟨op, [json]⟩)] } = .ok r ↔
      (Path.read? (Spelling.plain marker path) = some f.path ∧
        ∀ name ∈ f.path.names, FilterOperator.ofName? name = none) ∧
      r =
        { Request.all with parameters := some (.test (Parameter.equality type) ⟨f, type⟩ v) } := by
  have hfield := Planner.field_of_resolve hresolve
  rw [read_of_parameters, readParameters_singleton hop, Outcome.map_eq_ok_iff]
  constructor
  · rintro ⟨tree, htree, rfl⟩
    obtain ⟨p, g, hp, hg⟩ := Parameter.exists_field_of_readAll htree
    -- the first name is an attribute, so the field is that of the whole path
    obtain ⟨first, rest, a, hnames, ha⟩ := Catalog.exists_attribute?_of_field hg
    obtain ⟨found, e, hfound, -, hfollowed⟩ := Planner.resolve_eq_ok_iff.mp hresolve
    obtain rfl : p = found := Option.some.inj (hp.symm.trans hfound)
    rw [Planner.withoutRoot_of_attribute? hnames ha] at hfollowed
    obtain rfl := Catalog.path_of_field hfollowed
    obtain ⟨hfree, rfl⟩ := (Parameter.readAll_equal_iff hp hfield htype hscalar hv).mp htree
    exact ⟨⟨hp, hfree⟩, rfl⟩
  · rintro ⟨⟨hp, hfree⟩, rfl⟩
    exact ⟨_, (Parameter.readAll_equal_iff hp hfield htype hscalar hv).mpr ⟨hfree, rfl⟩, rfl⟩

/-- Books of an author of some name. -/
theorem read_equal_iff_shelf :
    ∃ f r, Planner.resolve Shelf.catalog "Book" "data" "data.author.name" = .ok f ∧
      f.columnPath = "author.name" ∧
      read Shelf.catalog "Book" "data"
        { empty with parameters := [("data.author.name", ⟨"EQUALS", [.str "Borges"]⟩)] } =
        .ok r ∧
      r.parameters = some (.test .equals ⟨f, .text⟩ (.text "Borges")) := by
  have hresolve : ∃ f, Planner.resolve Shelf.catalog "Book" "data" "data.author.name" = .ok f ∧
      f.type? = some .text ∧ f.columnPath = "author.name" ∧ f.path = ⟨["author"], "name"⟩ :=
        ⟨_, rfl, rfl, rfl, rfl⟩
  obtain ⟨f, hresolve, htype, hcolumn, hpath⟩ := hresolve
  have hop : ParameterOperator.ofName? "EQUALS" = some .equals := by decide +kernel
  have hv : Value.ofJson? .text (.str "Borges") = some (.text "Borges") := rfl
  have hread :=
    (read_equal_iff hresolve htype rfl hv hop).mpr
      ⟨⟨by rw [hpath]; rfl, by rw [hpath]; decide⟩, rfl⟩
  exact ⟨f, _, hresolve, hcolumn, hread, rfl⟩

/-- A field can be selected with a root path in front, but no parameter can be set on it so. -/
theorem read_behind_rootPath :
    Catalog.of Shelf.catalog.entities none = .ok Shelf.catalog ∧
      (∃ f, Planner.resolve Shelf.catalog "Book" "data" "book.title" = .ok f ∧
        f.type? = some .text) ∧
      Value.ofJson? .text (.str "Ficciones") = some (.text "Ficciones") ∧
      ParameterOperator.ofName? "EQUALS" = some .equals ∧
      ∀ r,
        read Shelf.catalog "Book" "data"
          { empty with parameters := [("book.title", ⟨"EQUALS", [.str "Ficciones"]⟩)] } ≠
        .ok r := by
  have hop : ParameterOperator.ofName? "EQUALS" = some .equals := by decide +kernel
  have hread : Parameter.readAll Shelf.catalog "Book"
      [⟨Spelling.plain "data" "book.title", .equals, [.str "Ficciones"]⟩] =
        .error (.unresolvable "Book" "book.title") := rfl
  refine ⟨rfl, ⟨_, rfl, rfl⟩, rfl, hop, fun r hr => ?_⟩
  rw [read_of_parameters, readParameters_singleton hop, hread] at hr
  simp at hr

end WireRequest

end EntityQuery
