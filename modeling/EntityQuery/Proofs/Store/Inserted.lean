import EntityQuery.Proofs.Store.Filled
import EntityQuery.Proofs.Value.Written

/-!
# Rows that have been given

After rows have been added to the empty tables of a catalog, every table holds what has been given
for its entity, row by row and in the order in which it was given.  What a row holds in the column
of an attribute can be told from the JSON object alone: it is what the object holds under the name
of the attribute, or else under the name of its column, read in the type of the attribute.

## Strategy

The invariant `Store.Holds` says that the rows of a table are those that its columns read from what
has been given for the entity.  It holds of empty tables, and a row that is added extends both sides
by one, since entities have tables of their own.  Which column an attribute has, and how the column
reads, follows the computation of the columns (`storedColumn?_eq_ok`).

## Main definitions

* `Inserts` : rows given for entities
* `Catalog.given?`, `Catalog.valueIn?` : what a row given as JSON holds for an attribute
* `Store.Holds` : the tables hold what has been given

## Main statements

* `holds_of_insertEach` : after all rows have been added the tables hold them
* `valueIn?_of_ofJson` : the value of a row in the column of an attribute
-/

namespace EntityQuery

/-! ## Rows given as JSON -/

/-- Rows given for entities, in the order in which they are added. -/
abbrev Inserts := List (String × Json)

/-- The rows given for an entity. -/
def Inserts.rows (inserts : Inserts) (entity : String) : List Json :=
  inserts.filterMap fun i => if i.1 = entity then some i.2 else none

theorem Inserts.rows_concat (inserts : Inserts) (entity other : String) (json : Json) :
    Inserts.rows (inserts ++ [(entity, json)]) other =
      inserts.rows other ++ if entity = other then [json] else [] := by
  unfold Inserts.rows
  rw [List.filterMap_append]
  split <;> simp [*]

theorem Inserts.isFinite_of_mem_rows {inserts : Inserts}
    (hfinite : ∀ i ∈ inserts, i.2.isFinite = true) {entity : String} {json : Json}
    (hjson : json ∈ inserts.rows entity) : json.isFinite = true := by
  obtain ⟨i, hi, hjson⟩ := List.mem_filterMap.mp hjson
  obtain rfl := Option.some.inj (Option.ite_none_right_eq_some.mp hjson).2
  exact hfinite i hi

/-- Rows added one after the other, up to the first that is refused. -/
def Store.insertEach (s : Store) (inserts : Inserts) : Except StoreFault Store :=
  inserts.foldlM (fun s i => s.insert i.1 i.2) s

namespace Catalog

variable (c : Catalog)

/-- The type in which an attribute of an entity is stored; of an association, the identifier of the
target is. -/
def storedType (entity : String) (a : Attribute) : Except SearchFault ScalarType :=
  match a.type with
  | .scalar type => pure type
  | .parameter parameter => c.parameterType entity parameter
  | .association target _ => c.idType target

/-- The name of the attribute that identifies the target of an association. -/
def targetId? (a : Attribute) : Option String :=
  match a.type with
  | .association target _ => (c.idAttribute target).toOption.map Attribute.name
  | _ => none

/-- What a row given as JSON holds for an attribute: under its name, or else under the name of its
column.  If that is an object which is given for an association, what it holds for the identifier of
the target. -/
def given? (entity : String) (a : Attribute) (row : Json) : Option Json :=
  match row.get? a.name <|> row.get? ((c.physicalColumn? entity a).getD a.name), c.targetId? a with
  | some (.obj nested), some id => Json.member? id nested
  | given, _ => given

/-- The value of an attribute in a row given as JSON, null if nothing is given for it. -/
def valueIn? (entity : String) (a : Attribute) (row : Json) : Option Value := do
  Value.ofJson? (← (c.storedType entity a).toOption) ((c.given? entity a row).getD .null)

/-- The identifier in a row given as JSON. -/
def idIn? (entity : String) (row : Json) : Option Value := do
  c.valueIn? entity (← (c.idAttribute entity).toOption) row

end Catalog

/-! ## Columns of attributes -/

namespace Catalog

variable {c : Catalog} {entity : String} {a : Attribute}

/-- The type of a field of an attribute that is a scalar is the type in which the attribute is
stored. -/
theorem storedType_of_kindOf {overridden : Bool} {type : ScalarType}
    (hkind : c.kindOf entity a overridden = .ok (.scalar type)) :
    c.storedType entity a = .ok type := by
  unfold kindOf at hkind
  cases htype : a.type with
  | scalar found =>
      rw [htype] at hkind
      simpa [storedType, htype] using hkind
  | parameter parameter =>
      rw [htype] at hkind
      obtain ⟨found, hfound, hkind⟩ := Outcome.bind_eq_ok_iff.mp hkind
      simpa [storedType, htype, hfound] using hkind
  | association target cardinality =>
      rw [htype] at hkind
      dsimp only at hkind
      split at hkind
      · obtain ⟨found, hfound, hkind⟩ := Outcome.bind_eq_ok_iff.mp hkind
        simpa [storedType, htype, hfound] using hkind
      · simp at hkind

/-- What the column of an attribute is computed from. -/
theorem storedColumn?_eq_ok (ha : c.attribute? entity a.name = some a) {stored : StoredColumn}
    (hstored : c.storedColumn? entity a = .ok (some stored)) :
    c.physicalColumn? entity a = some stored.column.name ∧
    c.storedType entity a = .ok stored.column.type ∧
      stored.attributeName = a.name ∧ stored.targetId = c.targetId? a := by
  have hname : some stored.column.name = c.physicalColumn? entity a :=
    name_of_storedColumn? ha hstored
  refine ⟨hname.symm, ?_⟩
  clear hname
  obtain ⟨f, hf, hstored⟩ := Outcome.bind_eq_ok_iff.mp hstored
  obtain ⟨kind, hkind, rfl⟩ := (field_single_eq_ok_iff ha).mp hf
  unfold Field.type? at hstored
  cases kind with
  | scalar type =>
      have hstoredType := storedType_of_kindOf hkind
      cases htype : a.type with
      | association target cardinality =>
          rw [htype] at hstored
          obtain ⟨id, hid, hstored⟩ := Outcome.bind_eq_ok_iff.mp hstored
          obtain rfl := Option.some.inj (Except.ok.inj hstored)
          exact ⟨hstoredType, rfl, by simp [targetId?, htype, hid, Except.toOption]⟩
      | scalar _ | parameter _ =>
          rw [htype] at hstored
          obtain rfl := Option.some.inj (Except.ok.inj hstored)
          exact ⟨hstoredType, rfl, by simp [targetId?, htype]⟩
  | association =>
      -- only the identifier of one target is stored
      cases htype : a.type with
      | association target cardinality =>
          rw [htype] at hstored
          cases cardinality with
          | toOne joinColumn =>
              obtain ⟨type, hidType, hstored⟩ := Outcome.bind_eq_ok_iff.mp hstored
              obtain ⟨id, hid, hstored⟩ := Outcome.bind_eq_ok_iff.mp hstored
              obtain rfl := Option.some.inj (Except.ok.inj hstored)
              exact ⟨by simp [storedType, htype, hidType], rfl,
                by simp [targetId?, htype, hid, Except.toOption]⟩
          | toMany mappedBy => simp at hstored
      | scalar _ | parameter _ =>
          rw [htype] at hstored
          simp at hstored

/-- A column reads what a row holds for its attribute. -/
theorem valueIn?_of_read (ha : c.attribute? entity a.name = some a) {stored : StoredColumn}
    (hstored : c.storedColumn? entity a = .ok (some stored)) {members : List (String × Json)}
    {v : Value} (hv : stored.read members = .ok v) :
    c.valueIn? entity a (.obj members) = some v := by
  obtain ⟨hcolumn, htype, hname, hid⟩ := storedColumn?_eq_ok ha hstored
  have hgiven : stored.given? members = c.given? entity a (.obj members) := by
    unfold StoredColumn.given? given?
    rw [hcolumn, hname, hid]
    rfl
  unfold valueIn?
  rw [htype, ← hgiven]
  rcases StoredColumn.read_eq_ok_iff.mp hv with ⟨hnone, rfl⟩ | ⟨json, hjson, hv⟩
  · rw [hnone]
    cases stored.column.type <;> rfl
  · rw [hjson]
    exact hv

theorem isFinite_of_given? {row json : Json} (hrow : row.isFinite = true)
    (hgiven : c.given? entity a row = some json) : json.isFinite = true := by
  have hheld {found : Json}
      (hfound : (row.get? a.name <|> row.get? ((c.physicalColumn? entity a).getD a.name)) =
        some found) :
      found.isFinite = true := by
    rw [Option.orElse_eq_orElse, Option.orElse_eq_or, Option.or_eq_some_iff] at hfound
    rcases hfound with hfound | ⟨-, hfound⟩ <;> exact Json.isFinite_of_get? hrow hfound
  unfold given? at hgiven
  split at hgiven
  · next nested id hfound _ => exact Json.isFinite_of_member? (hheld hfound) hgiven
  · exact hheld hgiven

theorem isNull_toJson_of_valueIn? {row : Json} (hrow : row.isFinite = true) {v : Value}
    (hv : c.valueIn? entity a row = some v) : v.toJson.isNull = v.isNull := by
  obtain ⟨type, -, hv⟩ := Option.bind_eq_some_iff.mp hv
  refine Value.isNull_toJson ?_ hv
  cases hgiven : c.given? entity a row with
  | none => rfl
  | some json => exact isFinite_of_given? hrow hgiven

theorem exists_mem_columns (hplain : c.Plain) {columns : List StoredColumn}
    (hcolumns : c.tableColumns entity = .ok columns) (ha : c.attribute? entity a.name = some a)
    {column : String} (hcolumn : c.physicalColumn? entity a = some column) :
    ∃ stored ∈ columns, c.storedColumn? entity a = .ok (some stored) ∧
      stored.column.name = column := by
  obtain ⟨all, hall, rfl, -⟩ := exists_of_tableColumns hplain (knows_of_attribute? ha) hcolumns
  obtain ⟨found, hfound, hstored⟩ :=
    Outcome.exists_mem_of_mapM hall ((attribute?_eq_some_iff hplain.attributes).mp ha).1
  have hname := name_of_storedColumn? ha hstored
  rw [hcolumn] at hname
  obtain ⟨stored, rfl, rfl⟩ := Option.map_eq_some_iff.mp hname
  exact ⟨stored, List.mem_filterMap.mpr ⟨_, hfound, rfl⟩, hstored, rfl⟩

/-- What a row holds in the column of an attribute is what is given for the attribute. -/
theorem valueIn?_of_ofJson (hplain : c.Plain) {table : Table}
    (hcolumns : c.tableColumns entity = .ok table.columns)
    (ha : c.attribute? entity a.name = some a) {column : String}
    (hcolumn : c.physicalColumn? entity a = some column) {json : Json} {row : Row}
    (hrow : Row.ofJson table.columns json = .ok row) :
    c.valueIn? entity a json = some (row.cell table.schema.names column) := by
  obtain ⟨stored, hmem, hstored, rfl⟩ := exists_mem_columns hplain hcolumns ha hcolumn
  have hschema : c.HasSchema entity table.schema := ⟨_, hcolumns, rfl⟩
  -- the column stands where its value stands
  obtain ⟨k, hk, rfl⟩ := List.mem_iff_getElem.mp hmem
  have hposition := Table.position?_getElem (hschema.nodup hplain (knows_of_attribute? ha)) hk
  obtain ⟨members, rfl, -, hread⟩ := Row.ofJson_eq_ok_iff.mp hrow
  obtain ⟨v, hv, hread⟩ := Outcome.getElem?_of_mapM hread (List.getElem?_eq_getElem hk)
  rw [Row.cell_eq_getD hposition, List.getD_eq_getElem?_getD, hv]
  exact valueIn?_of_read ha hstored hread

end Catalog

namespace Store

variable {c : Catalog} {entities : List Entity} {fallback : Option ScalarType} {s next : Store}
  {inserts : Inserts}

/-! ## Tables that hold what has been given -/

/-- The tables of a store hold what has been given for their entities, row by row. -/
structure Holds (c : Catalog) (inserts : Inserts) (s : Store) : Prop where
  names : ∀ entity name, s.entityTables.lookup entity = some name → ∃ e, c.entity? entity = some e ∧
    e.tableName = name
  tables : ∀ e ∈ c.entities, ∃ table, s.tables.lookup e.tableName = some table ∧
    c.tableColumns e.name = .ok table.columns ∧
    (inserts.rows e.name).mapM (Row.ofJson table.columns) = .ok table.rows

theorem exists_of_lookup_names (hs : ofCatalog c = .ok s) {entity name : String}
    (hname : s.entityTables.lookup entity = some name) :
    ∃ e ∈ c.entities, e.name = entity ∧ e.tableName = name :=
  (of_lookup_foldlM_addEntity lookup_names_addEntity hs hname).resolve_right (by simp)

theorem holds_ofCatalog (haccepted : Catalog.of entities fallback = .ok c) (hplain : c.Plain)
    (hs : ofCatalog c = .ok s) : s.Holds c [] := by
  obtain ⟨-, hnames, -⟩ := Catalog.check_of_accepted haccepted
  constructor
  · intro entity name hname
    obtain ⟨e, he, rfl, rfl⟩ := exists_of_lookup_names hs hname
    exact ⟨e, (Keyed.find?_eq_some_iff Entity.name hnames).mpr ⟨he, rfl⟩, rfl⟩
  · intro e he
    obtain ⟨columns, hcolumns, hlookup⟩ := (lookup_addEntities hplain.tables hs).1 e he
    exact ⟨_, hlookup, hcolumns, rfl⟩

/-- A row that is added is held by the table of its entity, and all other tables hold what they held
before. -/
theorem Holds.insert (haccepted : Catalog.of entities fallback = .ok c) (hplain : c.Plain)
    (hs : s.Holds c inserts) {entity : String} {json : Json}
    (hinsert : s.insert entity json = .ok next) : next.Holds c (inserts ++ [(entity, json)]) := by
  obtain ⟨name, table, row, hname, htable, hrow, rfl⟩ := insert_eq_ok hinsert
  refine ⟨hs.names, fun other hother => ?_⟩
  obtain ⟨e, he, rfl⟩ := hs.names entity name hname
  obtain ⟨hmem, rfl⟩ := Catalog.mem_of_entity? he
  obtain ⟨found, hfound, hcolumns, hrows⟩ := hs.tables other hother
  simp only [lookup_putTable, Inserts.rows_concat]
  by_cases hsame : other = e
  · subst hsame
    obtain rfl : found = table := Option.some.inj (hfound.symm.trans htable)
    refine ⟨_, if_pos rfl, hcolumns, ?_⟩
    rw [if_pos rfl, List.mapM_append, hrows]
    simp [hrow]
  · -- entities have names and tables of their own
    obtain ⟨-, hnames, -⟩ := Catalog.check_of_accepted haccepted
    have htableName : other.tableName ≠ e.tableName := fun h =>
      hsame (List.inj_on_of_nodup_map hplain.tables hother hmem h)
    have hentity : e.name ≠ other.name :=
      fun h => hsame (List.inj_on_of_nodup_map hnames hother hmem h.symm)
    refine ⟨found, by rw [if_neg htableName, hfound], hcolumns, ?_⟩
    rwa [if_neg hentity, List.append_nil]

theorem insertEach_cons {i : String × Json} : s.insertEach (i :: inserts) = .ok next ↔
    ∃ first, s.insert i.1 i.2 = .ok first ∧ first.insertEach inserts = .ok next := by
  unfold insertEach
  rw [List.foldlM_cons]
  exact Outcome.bind_eq_ok_iff

/-- After all rows have been added the tables hold them. -/
theorem holds_of_insertEach (haccepted : Catalog.of entities fallback = .ok c) (hplain : c.Plain)
    (hs : ofCatalog c = .ok s) (hnext : s.insertEach inserts = .ok next) :
    next.Holds c inserts := by
  -- rows that are still to be added come behind those that are held
  suffices hall : ∀ {more done : Inserts} {s : Store},
      s.Holds c done → s.insertEach more = .ok next →
      next.Holds c (done ++ more) from hall (holds_ofCatalog haccepted hplain hs) hnext
  intro more
  induction more with
  | nil =>
      intro done s hs hnext
      obtain rfl := Except.ok.inj hnext
      rwa [List.append_nil]
  | cons i more ih =>
      intro done s hs hnext
      obtain ⟨first, hfirst, hnext⟩ := insertEach_cons.mp hnext
      rw [List.append_cons]
      exact ih (hs.insert haccepted hplain hfirst) hnext

theorem filled_of_insertEach (hs : s.Filled c) (hfinite : ∀ i ∈ inserts, i.2.isFinite = true)
    (hnext : s.insertEach inserts = .ok next) : next.Filled c := by
  induction inserts generalizing s with
  | nil =>
      obtain rfl := Except.ok.inj hnext
      exact hs
  | cons i inserts ih =>
      rw [List.forall_mem_cons] at hfinite
      obtain ⟨first, hfirst, hnext⟩ := insertEach_cons.mp hnext
      exact ih (hs.insert (Json.isProper_of_isFinite hfinite.1) hfirst) hfinite.2 hnext

end Store

end EntityQuery
