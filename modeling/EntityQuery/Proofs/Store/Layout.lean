import EntityQuery.Proofs.Flow.Rows
import EntityQuery.Proofs.Store.Columns
import EntityQuery.Search.Planner

/-!
# Layouts of joined rows

A joined row has the columns of all places, each named by the names that lead to its place and its
own.  The names are distinct, so a column is found by its name wherever it stands.  Every join
continues the layout: the column that it starts from is at a place that is there, the column that it
leads to is in the table of its target, and both have the type of the same identifier.

## Main definitions

* `Laid` : a schema holds the columns of some places

## Main statements

* `Laid.snoc` : a layout with one more place
* `join_eq_ok` : what a join is
* `keys_of_toOne`, `keys_of_toMany` : which columns a join leads from and to
* `exists_stored_of_join`, `exists_keys_of_join` : they are there, and have one type
* `Laid.mem_of_field` : the column of a field
-/

namespace EntityQuery

variable {c : Catalog} {entities : List Entity} {fallback : Option ScalarType} {root : String}

/-- A schema holds the columns of the tables at some places, under distinct names. -/
structure Laid (c : Catalog) (places : List Place) (schema : Schema) : Prop where
  nodup : schema.names.Nodup
  mem : ∀ p ∈ places, ∀ own, c.HasSchema p.entity own → ∀ column ∈ own,
    ⟨Path.dotted (p.names ++ [column.name]), column.type⟩ ∈ schema
  names : ∀ name ∈ schema.names, ∃ p ∈ places, ∃ column, Path.Dotless column ∧
    name = Path.dotted (p.names ++ [column])

theorem Catalog.HasSchema.unique {entity : String} {first second : Schema}
    (hfirst : c.HasSchema entity first) (hsecond : c.HasSchema entity second) : first = second := by
  obtain ⟨columns, hcolumns, rfl⟩ := hfirst
  obtain ⟨others, hothers, rfl⟩ := hsecond
  rw [Except.ok.inj (hcolumns.symm.trans hothers)]

namespace Laid

variable {places : List Place} {schema : Schema}

/-! ## Building a layout -/

theorem ofRoot (hplain : c.Plain) (hroot : c.Knows root) (hschema : c.HasSchema root schema) :
    Laid c [⟨[], root⟩] schema where
  nodup := hschema.nodup hplain hroot
  mem := by
    intro p hp own hown column hcolumn
    obtain rfl := List.mem_singleton.mp hp
    obtain rfl := hown.unique hschema
    simpa using hcolumn
  names := by
    intro name hname
    exact ⟨_, List.mem_singleton.mpr rfl, name, hschema.dotless hplain hroot name hname, by simp⟩

theorem name_under {names : List String} (hnames : names ≠ []) (column : String) :
    Path.dotted names ++ "." ++ column = Path.dotted (names ++ [column]) :=
  (Path.dotted_append hnames column).symm

/-- A table at one more place is joined to a layout. -/
theorem snoc (hplain : c.Plain) (hlaid : Laid c places schema) {names : List String}
    (hnames : names ≠ []) (hdotless : ∀ p ∈ places, ∀ name ∈ p.names, Path.Dotless name)
    (hnew : ∀ p ∈ places, p.names ≠ names) (hnamesDotless : ∀ name ∈ names, Path.Dotless name)
    {target : String} (htarget : c.Knows target) {own : Schema} (hown : c.HasSchema target own) :
    Laid c (places ++ [⟨names, target⟩]) (schema ++ own.under (Path.dotted names)) := by
  have hunder : (own.under (Path.dotted names)).names =
      own.names.map fun column => Path.dotted (names ++ [column]) := by
    simp [Schema.under, Schema.names, name_under hnames]
  have hownDotless := hown.dotless hplain htarget
  have hlong (column : String) (hcolumn : Path.Dotless column) :
      ∀ name ∈ names ++ [column], Path.Dotless name := by
    rw [List.forall_mem_append]
    exact ⟨hnamesDotless, by simpa using hcolumn⟩
  refine ⟨?_, ?_, ?_⟩
  · rw [Schema.names_append, hunder, List.nodup_append]
    refine ⟨hlaid.nodup, ?_, ?_⟩
    · refine List.Nodup.map_on ?_ (hown.nodup hplain htarget)
      intro first hfirst second hsecond heq
      have := Path.dotted_injective (by simp) (by simp) (hlong first (hownDotless first hfirst))
        (hlong second (hownDotless second hsecond)) heq
      simpa using this
    · rintro _ hfirst _ hsecond rfl
      -- a name of both sides would be the path of two places
      obtain ⟨p, hp, column, hcolumn, hname⟩ := hlaid.names _ hfirst
      obtain ⟨last, hlast, rfl⟩ := List.mem_map.mp hsecond
      have hplaced : ∀ name ∈ p.names ++ [column], Path.Dotless name := by
        rw [List.forall_mem_append]
        exact ⟨hdotless p hp, by simpa using hcolumn⟩
      have heq :=
        Path.dotted_injective (by simp) (by simp)
          (hlong last (hownDotless last hlast)) hplaced hname
      exact hnew p hp (List.append_inj_left' heq rfl).symm
  · intro p hp found hfound column hcolumn
    rcases List.mem_append.mp hp with hp | hp
    · exact List.mem_append_left _ (hlaid.mem p hp found hfound column hcolumn)
    · obtain rfl := List.mem_singleton.mp hp
      obtain rfl := hfound.unique hown
      refine List.mem_append_right _ (List.mem_map.mpr ⟨column, hcolumn, ?_⟩)
      rw [name_under hnames]
  · intro name hname
    rw [Schema.names_append, hunder] at hname
    rcases List.mem_append.mp hname with hname | hname
    · obtain ⟨p, hp, column, hcolumn, rfl⟩ := hlaid.names name hname
      exact ⟨p, List.mem_append_left _ hp, column, hcolumn, rfl⟩
    · obtain ⟨column, hcolumn, rfl⟩ := List.mem_map.mp hname
      exact ⟨_, List.mem_append_right _ (List.mem_singleton.mpr rfl), column,
        hownDotless column hcolumn, rfl⟩

/-! ## Columns of fields -/

/-- The layout has the column of a scalar field at one of its places, with the type of the field. -/
theorem mem_of_field (hplain : c.Plain) (hlaid : Laid c places schema) {path : Path} {f : Field}
    (hfield : c.field root path = .ok f) {type : ScalarType} (htype : f.type? = some type)
    (hplace : ⟨path.steps, f.owner⟩ ∈ places) {own : Schema} (hown : c.HasSchema f.owner own) :
    ⟨f.columnPath, type⟩ ∈ schema := by
  rw [Field.columnPath_of_field hfield]
  exact hlaid.mem _ hplace own hown _ (hown.mem_of_field hplain hfield htype)

end Laid

/-! ## The columns of a join -/

/-- What the join of a step is.  With one target it leads from the join column to the identifier of
the target, with many targets from the identifier of the source to the column of the attribute that
leads back. -/
theorem Planner.join_eq_ok {step : JoinStep} {j : Join} (hj : join c step = .ok j) :
    ∃ e, c.entity? step.target = some e ∧
      ((∃ joinColumn id, step.cardinality = .toOne joinColumn ∧ c.idAttribute step.target = .ok id ∧
          j = ⟨step.path, step.target, e.tableName,
            qualified (Text.beforeLast? '.' step.path) joinColumn,
            c.columnName step.target id.name, false⟩) ∨
        ∃ mappedBy id back, step.cardinality = .toMany mappedBy ∧
          c.idAttribute step.source = .ok id ∧
          c.field step.target (.single mappedBy) = .ok back ∧
          j = ⟨step.path, step.target, e.tableName,
            qualified (Text.beforeLast? '.' step.path) (c.columnName step.source id.name),
            match back.overridden, (c.attribute? step.target mappedBy).map Attribute.type with
            | false, some (.association _ (.toOne joinColumn)) => joinColumn
            | _, _ => back.column,
            true⟩) := by
  unfold join at hj
  dsimp only at hj
  split at hj
  · next joinColumn hcardinality =>
    obtain ⟨id, hid, hj⟩ := Outcome.bind_eq_ok_iff.mp hj
    obtain ⟨e, he, hj⟩ := Outcome.bind_eq_ok_iff.mp hj
    exact ⟨e, Catalog.knows_of_entity he,
      .inl ⟨joinColumn, id, hcardinality, hid, (Except.ok.inj hj).symm⟩⟩
  · next mappedBy hcardinality =>
    obtain ⟨id, hid, hj⟩ := Outcome.bind_eq_ok_iff.mp hj
    obtain ⟨back, hback, hj⟩ := Outcome.bind_eq_ok_iff.mp hj
    obtain ⟨e, he, hj⟩ := Outcome.bind_eq_ok_iff.mp hj
    exact ⟨e, Catalog.knows_of_entity he,
      .inr ⟨mappedBy, id, back, hcardinality, hid, hback, (Except.ok.inj hj).symm⟩⟩

theorem Planner.path_of_join {step : JoinStep} {j : Join} (hj : join c step = .ok j) :
    j.path = step.path ∧ j.entity = step.target := by
  obtain ⟨e, -, ⟨_, _, -, -, rfl⟩ | ⟨_, _, _, -, -, -, rfl⟩⟩ := join_eq_ok hj
  · exact ⟨rfl, rfl⟩
  · exact ⟨rfl, rfl⟩

/-- An association with one target is joined from its column to the identifier of the target. -/
theorem Planner.keys_of_toOne {path source name target joinColumn : String} {j : Join}
    (hj : join c ⟨path, source, name, target, .toOne joinColumn⟩ = .ok j) :
    ∃ id, c.idAttribute target = .ok id ∧
      j.leftKey = qualified (Text.beforeLast? '.' path) joinColumn ∧
      j.rightKey = c.columnName target id.name := by
  obtain ⟨e, -, ⟨column, id, hcardinality, hid, rfl⟩ | ⟨_, _, _, hmany, -⟩⟩ := join_eq_ok hj
  · obtain rfl := Cardinality.toOne.inj hcardinality
    exact ⟨id, hid, rfl, rfl⟩
  · simp at hmany

/-- An association with many targets is joined from the identifier of its source to the column of
the attribute that it is mapped by. -/
theorem Planner.keys_of_toMany {path source name target mappedBy joinColumn : String} {j : Join}
    (hj : join c ⟨path, source, name, target, .toMany mappedBy⟩ = .ok j) {m : Attribute}
    (hm : c.attribute? target mappedBy = some m)
    (htype : m.type = .association source (.toOne joinColumn)) :
    ∃ id, c.idAttribute source = .ok id ∧
      j.leftKey = qualified (Text.beforeLast? '.' path) (c.columnName source id.name) ∧
      c.physicalColumn? target m = some j.rightKey := by
  obtain ⟨e, -, ⟨_, _, hone, -⟩ | ⟨found, id, back, hcardinality, hid, hback, rfl⟩⟩ := join_eq_ok hj
  · simp at hone
  · obtain rfl := Cardinality.toMany.inj hcardinality
    refine ⟨id, hid, rfl, ?_⟩
    -- the column is the join column, unless another one overrides it
    obtain ⟨rfl, -⟩ := Catalog.name_of_attribute? hm
    obtain ⟨kind, -, rfl⟩ := (Catalog.field_single_eq_ok_iff hm).mp hback
    dsimp only
    rw [hm, Option.map_some, htype, Catalog.physicalColumn?, htype]
    cases hoverride : c.override? target m.name with
    | none => rfl
    | some column => simp [Catalog.columnName, hoverride]

theorem Planner.exists_entity_of_join {step : JoinStep} {j : Join} (hj : join c step = .ok j) :
    ∃ e, c.entity? step.target = some e ∧ j.table = e.tableName := by
  obtain ⟨e, he, ⟨_, _, -, -, rfl⟩ | ⟨_, _, _, -, -, -, rfl⟩⟩ := join_eq_ok hj
  · exact ⟨e, he, rfl⟩
  · exact ⟨e, he, rfl⟩

/-- The two columns of a join have one type, the first is at the place that the join continues from,
the second in the table of the target. -/
theorem exists_stored_of_join (haccepted : Catalog.of entities fallback = .ok c)
    (hrepeat : c.Unrepeated) {names : List String} {source name target : String} {a : Attribute}
    {cardinality : Cardinality} (hdotless : ∀ n ∈ names ++ [name], Path.Dotless n)
    (ha : c.attribute? source name = some a) (htype : a.type = .association target cardinality)
    (hoverride : c.override? source name = none) {own other : Schema}
    (hown : c.HasSchema source own) (hother : c.HasSchema target other) {j : Join}
    (hj : Planner.join c ⟨Path.dotted (names ++ [name]), source, name, target,
      cardinality⟩ = .ok j) :
    ∃ column type, j.leftKey = Path.dotted (names ++ [column]) ∧ c.Stores source ⟨column, type⟩ ∧
      c.Stores target ⟨j.rightKey, type⟩ := by
  obtain ⟨e, -, ⟨joinColumn, id, hcardinality, hid, rfl⟩
      | ⟨mappedBy, id, back, hcardinality, hid, hback, rfl⟩⟩ :=
    Planner.join_eq_ok hj
  · obtain rfl : cardinality = .toOne joinColumn := hcardinality
    obtain ⟨type, hidType, hstores⟩ := hown.stores_of_toOne hrepeat ha hoverride htype
    refine ⟨joinColumn, type, ?_, hstores, ?_⟩
    · exact Path.qualified_beforeLast? hdotless joinColumn
    · exact hother.stores_of_id hrepeat hid hidType
  · obtain rfl : cardinality = .toMany mappedBy := hcardinality
    obtain ⟨type, hidType⟩ := Catalog.exists_idType haccepted (Catalog.knows_of_attribute? ha)
    refine ⟨c.columnName source id.name, type, ?_, ?_, ?_⟩
    · exact Path.qualified_beforeLast? hdotless _
    · exact hown.stores_of_id hrepeat hid hidType
    · -- the attribute that leads back is stored in its join column, or in one that overrides it
      obtain ⟨b, joinColumn, hb, hbtype⟩ := Catalog.leadsBack_of_toMany haccepted hrepeat ha htype
      obtain ⟨rfl, -⟩ := Catalog.name_of_attribute? hb
      obtain ⟨kind, hkind, rfl⟩ := (Catalog.field_single_eq_ok_iff hb).mp hback
      dsimp only
      rw [hb, Option.map_some, hbtype]
      rw [Catalog.kindOf, hbtype] at hkind
      cases hcolumn : c.override? target b.name with
      | none =>
          obtain ⟨found, hfound, hstores⟩ := hother.stores_of_toOne hrepeat hb hcolumn hbtype
          obtain rfl : type = found := Except.ok.inj (hidType.symm.trans hfound)
          exact hstores
      | some column =>
          dsimp only at hkind
          rw [hcolumn, Option.isSome_some, if_pos rfl, hidType] at hkind
          obtain rfl := Except.ok.inj hkind
          exact Catalog.HasSchema.stores_of_field hrepeat hback rfl hother

/-- Where no column is shared, the two columns of a join are in their tables. -/
theorem exists_keys_of_join (haccepted : Catalog.of entities fallback = .ok c) (hplain : c.Plain)
    {names : List String} {source name target : String} {a : Attribute} {cardinality : Cardinality}
    (hdotless : ∀ n ∈ names ++ [name], Path.Dotless n) (ha : c.attribute? source name = some a)
    (htype : a.type = .association target cardinality) (hoverride : c.override? source name = none)
    {own other : Schema} (hown : c.HasSchema source own)
    (hother : c.HasSchema target other) {j : Join}
    (hj : Planner.join c ⟨Path.dotted (names ++ [name]), source, name, target,
      cardinality⟩ = .ok j) :
    j.path = Path.dotted (names ++ [name]) ∧ j.entity = target ∧
      (∃ e, c.entity? target = some e ∧ j.table = e.tableName) ∧
      ∃ column type, j.leftKey = Path.dotted (names ++ [column]) ∧ ⟨column, type⟩ ∈ own ∧
        ⟨j.rightKey, type⟩ ∈ other := by
  obtain ⟨hpath, hentity⟩ := Planner.path_of_join hj
  obtain ⟨column, type, hleft, hsource, htarget⟩ :=
    exists_stored_of_join haccepted hplain.attributes hdotless ha htype hoverride hown hother hj
  exact ⟨hpath, hentity, Planner.exists_entity_of_join hj, column, type, hleft,
    hown.mem_of_stores hplain hsource, hother.mem_of_stores hplain htarget⟩

end EntityQuery
