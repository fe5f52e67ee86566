import EntityQuery.Proofs.Catalog.Places
import EntityQuery.Store.Table

/-!
# Columns of the tables of a catalog

The columns of a table are computed from the visible attributes of its entity, fields are resolved
from paths.  Both computations agree: a scalar field is stored in its column with its type, an
association with one target in its join column with the type of the identifier of the target.

Where visible attributes have different columns no attribute loses its column to another, and the
names of the columns of a table are distinct.

## Main definitions

* `Catalog.Stores` : an attribute of an entity is stored in a column
* `Catalog.HasSchema` : the columns of the table of an entity

## Main statements

* `nodup_columns` : no two columns of a table have one name
* `HasSchema.nodup`, `HasSchema.dotless` : names of columns
* `HasSchema.stores_of_field` : a scalar field is stored
* `HasSchema.stores_of_toOne` : the identifier of the target of an association is stored
* `HasSchema.stores_of_id` : the identifier of an entity is stored
* `HasSchema.name_mem_of_stores`, `HasSchema.mem_of_stores` : the table has the columns in which
  something is stored
-/

namespace EntityQuery

theorem Table.names_schema (t : Table) : t.schema.names = t.columns.map (·.column.name) :=
  List.map_map ..

namespace Catalog

variable {c : Catalog}

/-! ## The field of an attribute -/

/-- The field of an attribute of an entity itself. -/
theorem field_single_eq_ok_iff {entity : String} {a : Attribute}
    (ha : c.attribute? entity a.name = some a) {f : Field} :
    c.field entity (.single a.name) = .ok f ↔
      ∃ kind, c.kindOf entity a (c.override? entity a.name).isSome = .ok kind ∧
        f = ⟨.single a.name, entity, c.columnName entity a.name, kind,
          (c.override? entity a.name).isSome, []⟩ := by
  rw [field_eq_ok_iff]
  constructor
  · rintro ⟨joins, owner, found, kind, hfollow, hfound, hkind, rfl⟩
    obtain ⟨rfl, rfl⟩ := Prod.mk.inj (Option.some.inj hfollow)
    obtain rfl : found = a := by simpa [Path.single, ha] using hfound.symm
    exact ⟨kind, hkind, rfl⟩
  · rintro ⟨kind, hkind, rfl⟩
    exact ⟨[], entity, a, kind, rfl, ha, hkind, rfl⟩

theorem exists_field_single {root : String} {path : Path} {f : Field}
    (hfield : c.field root path = .ok f) :
    ∃ own, c.field f.owner (.single path.field) = .ok own ∧ own.column = f.column ∧
      own.type? = f.type? := by
  obtain ⟨joins, owner, a, kind, hfollow, ha, hkind, rfl⟩ := field_eq_ok_iff.mp hfield
  obtain ⟨hname, -⟩ := name_of_attribute? ha
  refine ⟨_, field_eq_ok_iff.mpr ⟨[], owner, a, kind, rfl, ha, hkind, rfl⟩, rfl, rfl⟩

/-! ## Stored columns -/

/-- An attribute takes the column that it is said to take. -/
theorem name_of_storedColumn? {entity : String} {a : Attribute}
    (ha : c.attribute? entity a.name = some a) {stored : Option StoredColumn}
    (hstored : c.storedColumn? entity a = .ok stored) :
    stored.map (·.column.name) = c.physicalColumn? entity a := by
  obtain ⟨f, hf, hstored⟩ := Outcome.bind_eq_ok_iff.mp hstored
  obtain ⟨kind, hkind, rfl⟩ := (field_single_eq_ok_iff ha).mp hf
  unfold kindOf at hkind
  unfold physicalColumn?
  cases htype : a.type with
  | scalar type =>
      rw [htype] at hkind hstored
      obtain rfl := Except.ok.inj hkind
      obtain rfl := Except.ok.inj hstored
      cases hoverride : c.override? entity a.name <;> simp [columnName, hoverride]
  | parameter parameter =>
      rw [htype] at hkind hstored
      obtain ⟨type, -, hkind⟩ := Outcome.bind_eq_ok_iff.mp hkind
      obtain rfl := Except.ok.inj hkind
      obtain rfl := Except.ok.inj hstored
      cases hoverride : c.override? entity a.name <;> simp [columnName, hoverride]
  | association target cardinality =>
      -- an override makes any association a scalar field
      rw [htype] at hkind hstored
      dsimp only at hkind
      cases hoverride : c.override? entity a.name with
      | some column =>
          rw [hoverride, Option.isSome_some, if_pos rfl] at hkind
          obtain ⟨type, -, hkind⟩ := Outcome.bind_eq_ok_iff.mp hkind
          obtain rfl := Except.ok.inj hkind
          obtain ⟨id, -, hstored⟩ := Outcome.bind_eq_ok_iff.mp hstored
          obtain rfl := Except.ok.inj hstored
          simp [columnName, hoverride]
      | none =>
          rw [hoverride, Option.isSome_none, if_neg (by simp)] at hkind
          obtain rfl := Except.ok.inj hkind
          cases cardinality with
          | toOne joinColumn =>
              obtain ⟨type, -, hstored⟩ := Outcome.bind_eq_ok_iff.mp hstored
              obtain ⟨id, -, hstored⟩ := Outcome.bind_eq_ok_iff.mp hstored
              obtain rfl := Except.ok.inj hstored
              rfl
          | toMany mappedBy =>
              obtain rfl := Except.ok.inj hstored
              rfl

/-- A scalar attribute is stored in the column of its field, with its type. -/
theorem storedColumn?_of_type? {entity : String} {a : Attribute} {f : Field}
    (hf : c.field entity (.single a.name) = .ok f) {type : ScalarType} (htype : f.type? = some type)
    {stored : Option StoredColumn} (hstored : c.storedColumn? entity a = .ok stored) :
    ∃ s, stored = some s ∧ s.column = ⟨f.column, type⟩ := by
  obtain ⟨g, hg, hstored⟩ := Outcome.bind_eq_ok_iff.mp hstored
  obtain rfl : f = g := Except.ok.inj (hf.symm.trans hg)
  rw [htype] at hstored
  cases hattribute : a.type with
  | association target cardinality =>
      rw [hattribute] at hstored
      obtain ⟨id, -, hstored⟩ := Outcome.bind_eq_ok_iff.mp hstored
      obtain rfl := Except.ok.inj hstored
      exact ⟨_, rfl, rfl⟩
  | scalar _ | parameter _ =>
      rw [hattribute] at hstored
      obtain rfl := Except.ok.inj hstored
      exact ⟨_, rfl, rfl⟩

/-- An association with one target is stored in its join column, with the type of the identifier of
the target. -/
theorem storedColumn?_of_toOne {entity : String} {a : Attribute}
    (ha : c.attribute? entity a.name = some a) (hoverride : c.override? entity a.name = none)
    {target joinColumn : String} (htype : a.type = .association target (.toOne joinColumn))
    {stored : Option StoredColumn} (hstored : c.storedColumn? entity a = .ok stored) :
    ∃ s type, stored = some s ∧ s.column = ⟨joinColumn, type⟩ ∧ c.idType target = .ok type := by
  obtain ⟨f, hf, hstored⟩ := Outcome.bind_eq_ok_iff.mp hstored
  obtain ⟨kind, hkind, rfl⟩ := (field_single_eq_ok_iff ha).mp hf
  rw [kindOf, htype, hoverride] at hkind
  obtain rfl := Except.ok.inj hkind
  rw [htype] at hstored
  obtain ⟨type, hid, hstored⟩ := Outcome.bind_eq_ok_iff.mp hstored
  obtain ⟨id, -, hstored⟩ := Outcome.bind_eq_ok_iff.mp hstored
  obtain rfl := Except.ok.inj hstored
  exact ⟨_, type, rfl, rfl, hid⟩

/-! ## Tables -/

/-- An attribute of an entity is stored in a column, which it may share with others. -/
def Stores (c : Catalog) (entity : String) (column : Column) : Prop :=
  ∃ a s, c.attribute? entity a.name = some a ∧ c.storedColumn? entity a = .ok (some s) ∧
    s.column = column

/-- The columns of the table of an entity. -/
def HasSchema (c : Catalog) (entity : String) (schema : Schema) : Prop :=
  ∃ columns, c.tableColumns entity = .ok columns ∧ schema = columns.map StoredColumn.column

/-- No two columns of a table have one name. -/
theorem nodup_columns {entity : String} {columns : List StoredColumn}
    (hcolumns : c.tableColumns entity = .ok columns) : (columns.map (·.column.name)).Nodup := by
  obtain ⟨stored, -, hcolumns⟩ := Outcome.bind_eq_ok_iff.mp hcolumns
  obtain rfl := Except.ok.inj hcolumns
  exact Keyed.nodup_map_addAll _ _ List.nodup_nil

theorem filterMap_stored (hplain : c.Plain) {entity : String} {columns : List (Option StoredColumn)}
    {attributes : List Attribute} (hvisible : ∀ a ∈ attributes, a ∈ c.visible entity)
    (hcolumns : attributes.mapM (c.storedColumn? entity) = .ok columns) :
    (columns.filterMap id).map (·.column.name) =
      attributes.filterMap (c.physicalColumn? entity) := by
  rw [Outcome.mapM_eq_ok_iff] at hcolumns
  induction hcolumns with
  | nil => rfl
  | @cons a stored attributes columns hstored _ ih =>
      rw [List.forall_mem_cons] at hvisible
      have hname := name_of_storedColumn? (visible_of_mem hplain.attributes hvisible.1) hstored
      rw [List.filterMap_cons, List.filterMap_cons, ← hname]
      cases stored with
      | none => exact ih hvisible.2
      | some s => simpa using ih hvisible.2

/-- No attribute loses its column to another. -/
theorem exists_of_tableColumns (hplain : c.Plain) {entity : String} (hentity : c.Knows entity)
    {columns : List StoredColumn} (hcolumns : c.tableColumns entity = .ok columns) :
    ∃ stored, (c.visible entity).mapM (c.storedColumn? entity) = .ok stored ∧
      columns = stored.filterMap id ∧
      columns.map (·.column.name) = (c.visible entity).filterMap (c.physicalColumn? entity) ∧
      (columns.map (·.column.name)).Nodup := by
  obtain ⟨e, he⟩ := hentity
  obtain ⟨hmem, rfl⟩ := mem_of_entity? he
  obtain ⟨stored, hstored, hcolumns⟩ := Outcome.bind_eq_ok_iff.mp hcolumns
  have hnames := filterMap_stored hplain (fun _ h => h) hstored
  have hnodup : ((stored.filterMap id).map (·.column.name)).Nodup := hnames ▸ hplain.columns e hmem
  have hdistinct : distinctColumns (stored.filterMap id) = stored.filterMap id := by
    unfold distinctColumns
    rw [Keyed.addAll_eq_append _ (by simpa using hnodup), List.nil_append]
  obtain rfl : stored.filterMap id = columns := hdistinct ▸ Except.ok.inj hcolumns
  exact ⟨stored, hstored, rfl, hnames, hnodup⟩

namespace HasSchema

variable {entity : String} {schema : Schema}

theorem nodup (hplain : c.Plain) (hentity : c.Knows entity)
    (hschema : c.HasSchema entity schema) : schema.names.Nodup := by
  obtain ⟨columns, hcolumns, rfl⟩ := hschema
  obtain ⟨_, _, _, _, hnodup⟩ := exists_of_tableColumns hplain hentity hcolumns
  rw [Schema.names, List.map_map]
  exact hnodup

theorem dotless (hplain : c.Plain) (hentity : c.Knows entity)
    (hschema : c.HasSchema entity schema) : ∀ name ∈ schema.names, Path.Dotless name := by
  obtain ⟨columns, hcolumns, rfl⟩ := hschema
  obtain ⟨_, _, _, hnames, _⟩ := exists_of_tableColumns hplain hentity hcolumns
  rw [Schema.names, List.map_map]
  change ∀ name ∈ columns.map (·.column.name), _
  rw [hnames]
  intro name hname
  obtain ⟨a, ha, hname⟩ := List.mem_filterMap.mp hname
  have hattribute := visible_of_mem hplain.attributes ha
  unfold physicalColumn? at hname
  split at hname
  · next hoverride =>
    obtain rfl := Option.some.inj hname
    exact dotless_of_override? hplain hoverride
  · next htype =>
    obtain rfl := Option.some.inj hname
    exact dotless_of_joinColumn hplain hattribute htype
  · simp at hname
  · obtain rfl := Option.some.inj hname
    exact dotless_of_attribute? hplain.names hattribute

/-! ### Columns of stored attributes -/

theorem exists_storedColumn? (hrepeat : c.Unrepeated) (hschema : c.HasSchema entity schema)
    {name : String} {a : Attribute} (ha : c.attribute? entity name = some a) :
    ∃ stored, c.storedColumn? entity a = .ok stored := by
  obtain ⟨columns, hcolumns, -⟩ := hschema
  obtain ⟨all, hall, -⟩ := Outcome.bind_eq_ok_iff.mp hcolumns
  obtain ⟨stored, -, hstored⟩ :=
    Outcome.exists_mem_of_mapM hall ((attribute?_eq_some_iff hrepeat).mp ha).1
  exact ⟨stored, hstored⟩

/-- The column of a stored attribute is there by its name, even if another attribute has taken
it. -/
theorem name_mem_of_stores (hrepeat : c.Unrepeated) (hschema : c.HasSchema entity schema)
    {column : Column} (hstores : c.Stores entity column) : column.name ∈ schema.names := by
  obtain ⟨columns, hcolumns, rfl⟩ := hschema
  obtain ⟨all, hall, hcolumns⟩ := Outcome.bind_eq_ok_iff.mp hcolumns
  obtain rfl := Except.ok.inj hcolumns
  obtain ⟨a, s, ha, hs, rfl⟩ := hstores
  obtain ⟨stored, hmem, hstored⟩ :=
    Outcome.exists_mem_of_mapM hall ((attribute?_eq_some_iff hrepeat).mp ha).1
  obtain rfl : stored = some s := Except.ok.inj (hstored.symm.trans hs)
  have hthere : s ∈ all.filterMap id := List.mem_filterMap.mpr ⟨some s, hmem, rfl⟩
  rw [Schema.names, List.map_map]
  change s.column.name ∈ (distinctColumns (all.filterMap id)).map (·.column.name)
  rw [distinctColumns, Keyed.mem_map_addAll]
  exact .inr (List.mem_map_of_mem hthere)

/-- The column of a stored attribute is there with its type, if no other attribute has it. -/
theorem mem_of_stores (hplain : c.Plain) (hschema : c.HasSchema entity schema) {column : Column}
    (hstores : c.Stores entity column) : column ∈ schema := by
  obtain ⟨columns, hcolumns, rfl⟩ := hschema
  obtain ⟨a, s, ha, hs, rfl⟩ := hstores
  obtain ⟨all, hall, rfl, -⟩ := exists_of_tableColumns hplain (knows_of_attribute? ha) hcolumns
  obtain ⟨stored, hmem, hstored⟩ :=
    Outcome.exists_mem_of_mapM hall ((attribute?_eq_some_iff hplain.attributes).mp ha).1
  obtain rfl : stored = some s := Except.ok.inj (hstored.symm.trans hs)
  exact List.mem_map_of_mem (List.mem_filterMap.mpr ⟨some s, hmem, rfl⟩)

/-- A scalar field is stored in its column, with its type. -/
theorem stores_of_field (hrepeat : c.Unrepeated) {root : String} {path : Path} {f : Field}
    (hfield : c.field root path = .ok f) {type : ScalarType} (htype : f.type? = some type)
    (hschema : c.HasSchema f.owner schema) : c.Stores f.owner ⟨f.column, type⟩ := by
  obtain ⟨own, hown, hcolumn, hkind⟩ := exists_field_single hfield
  obtain ⟨_, owner, a, _, _, ha, _, rfl⟩ := field_eq_ok_iff.mp hfield
  obtain ⟨stored, hstored⟩ := exists_storedColumn? hrepeat hschema ha
  have hname := (name_of_attribute? ha).1
  rw [← hname] at hown ha
  obtain ⟨s, rfl, hs⟩ := storedColumn?_of_type? hown (hkind.trans htype) hstored
  exact ⟨a, s, ha, hstored, by rw [hs, hcolumn]⟩

/-- The identifier of the target of an association is stored in the join column. -/
theorem stores_of_toOne (hrepeat : c.Unrepeated) (hschema : c.HasSchema entity schema)
    {name : String} {a : Attribute} (ha : c.attribute? entity name = some a)
    (hoverride : c.override? entity name = none) {target joinColumn : String}
    (htype : a.type = .association target (.toOne joinColumn)) :
    ∃ type, c.idType target = .ok type ∧ c.Stores entity ⟨joinColumn, type⟩ := by
  obtain ⟨stored, hstored⟩ := exists_storedColumn? hrepeat hschema ha
  obtain ⟨rfl, -⟩ := name_of_attribute? ha
  obtain ⟨s, type, rfl, hcolumn, hid⟩ := storedColumn?_of_toOne ha hoverride htype hstored
  exact ⟨type, hid, a, s, ha, hstored, hcolumn⟩

/-- The identifier of an entity is stored in its column, with its type. -/
theorem stores_of_id (hrepeat : c.Unrepeated) (hschema : c.HasSchema entity schema) {id : Attribute}
    (hid : c.idAttribute entity = .ok id) {type : ScalarType} (htype : c.idType entity = .ok type) :
    c.Stores entity ⟨c.columnName entity id.name, type⟩ := by
  obtain ⟨found, hfound, hkind⟩ := exists_idAttribute htype
  obtain rfl : id = found := Except.ok.inj (hid.symm.trans hfound)
  have ha := attribute?_of_idAttribute hid
  have hfield := (field_single_eq_ok_iff ha).mpr ⟨_, hkind _, rfl⟩
  exact stores_of_field hrepeat hfield rfl hschema

theorem mem_of_field (hplain : c.Plain) {root : String} {path : Path} {f : Field}
    (hfield : c.field root path = .ok f) {type : ScalarType} (htype : f.type? = some type)
    (hschema : c.HasSchema f.owner schema) :
    ⟨f.column, type⟩ ∈ schema :=
  hschema.mem_of_stores hplain (stores_of_field hplain.attributes hfield htype hschema)

theorem mem_of_id (hplain : c.Plain) (hschema : c.HasSchema entity schema) {id : Attribute}
    (hid : c.idAttribute entity = .ok id) {type : ScalarType} (htype : c.idType entity = .ok type) :
    ⟨c.columnName entity id.name, type⟩ ∈ schema :=
  hschema.mem_of_stores hplain (hschema.stores_of_id hplain.attributes hid htype)

end HasSchema

end Catalog

end EntityQuery
