import EntityQuery.Proofs.Store.Inserted

/-!
# Attributes that can be written

A row given as JSON names attributes, while a table has columns.  A column belongs to the first
visible attribute that is stored in it, and it takes its value from the name of that attribute, or
else from its own name.  So an attribute that shares its column can be written only under the name
of the column, and an attribute whose name is that of the column of another one is written to that
column too, if only it can be read in the type of that one.

## Strategy

A row with one member reads the value in the columns that go by the name of the member, and null in
all others (`ofJson_single_eq_ok_iff`).  Which attribute a column of a table stems from is decided
by the first visible attribute that takes the column (`find?_columns_eq_some_iff`).

## Main definitions

* `Catalog.keeper?` : the attribute that a column belongs to
* `Store.Writes` : a value written under a name goes to a column
* `ScalarType.Admits` : what is read in one type is read in another one

## Main statements

* `ofJson_single_eq_ok_iff` : rows with one member
* `Filled.writes_iff` : the attributes that can be written under their names
-/

namespace EntityQuery

namespace Keyed

variable {α : Type} {key : α → String}

theorem find?_add (key : α → String) (entry : α) (k : String) (entries : List α) :
    (add key entries entry).find? (key · = k) =
      (entries.find? (key · = k)).or (if key entry = k then some entry else none) := by
  unfold add
  split
  · next there =>
    by_cases hk : key entry = k
    · have hsome : (entries.find? (key · = k)).isSome = true := by simpa [hk] using there
      rw [Option.or_of_isSome hsome]
    · simp [hk]
  · by_cases hk : key entry = k <;> simp [hk]

/-- The entry that is found for a key after entries have been added: the old one, else the first
among the new ones. -/
theorem find?_addAll (key : α → String) (k : String) (entries more : List α) :
    (addAll key entries more).find? (key · = k) =
      (entries.find? (key · = k)).or (more.find? (key · = k)) := by
  induction more generalizing entries with
  | nil => simp [addAll]
  | cons entry more ih =>
      have step : addAll key entries (entry :: more) = addAll key (add key entries entry) more :=
        rfl
      rw [step, ih, find?_add, Option.or_assoc, List.find?_cons]
      by_cases hk : key entry = k <;> simp [hk]

end Keyed

/-! ## Scalars -/

namespace ScalarType

/-- Every scalar that is read in the one type is read in the other one. -/
def Admits (type other : ScalarType) : Prop :=
  ∀ json : Json, json.isScalar = true → (Value.ofJson? type json).isSome = true →
    (Value.ofJson? other json).isSome = true

theorem Admits.refl (type : ScalarType) : type.Admits type := fun _ _ h => h

/-- There is a scalar that is read as a value other than null. -/
theorem exists_literal (type : ScalarType) :
    ∃ json v, json.isScalar = true ∧ Value.ofJson? type json = some v ∧ v ≠ .null := by
  cases type with
  | boolean => exact ⟨.bool true, _, rfl, rfl, Value.noConfusion⟩
  | int32 => exact ⟨.int 0, _, rfl, rfl, Value.noConfusion⟩
  | int64 => exact ⟨.int 0, _, rfl, rfl, Value.noConfusion⟩
  | float64 => exact ⟨.int 0, _, rfl, rfl, Value.noConfusion⟩
  | text => exact ⟨.str "", _, rfl, rfl, Value.noConfusion⟩
  | uuid => exact ⟨.str "00000000000000000000000000000000", _, rfl, rfl, Value.noConfusion⟩
  | date => exact ⟨.str "2000-01-01", _, rfl, rfl, Value.noConfusion⟩
  | dateTime => exact ⟨.str "2000-01-01", _, rfl, rfl, Value.noConfusion⟩
  | moment => exact ⟨.str "2000-01-01", _, rfl, rfl, Value.noConfusion⟩

end ScalarType

/-! ## Rows with one member -/

theorem StoredColumn.goesBy_iff {s : StoredColumn} {name : String} :
    s.goesBy name = true ↔ s.attributeName = name ∨ s.column.name = name := by
  simp [goesBy]

theorem StoredColumn.given?_single (s : StoredColumn) (name : String) {json : Json}
    (hjson : json.isScalar = true) :
    s.given? [(name, json)] = if s.goesBy name then some json else none := by
  have hmember (key : String) : Json.member? key [(name, json)] =
      if key = name then some json else none := by
    rw [Json.member?, List.lookup_cons, List.lookup_nil]
    split <;> simp_all
  unfold given? goesBy
  rw [hmember, hmember]
  by_cases hname : s.attributeName = name <;> by_cases hcolumn : s.column.name = name <;>
    cases json <;> simp_all [Json.isScalar]

theorem StoredColumn.read_single_eq_ok_iff (s : StoredColumn) (name : String) {json : Json}
    (hjson : json.isScalar = true) {v : Value} :
    s.read [(name, json)] = .ok v ↔ if s.goesBy name then Value.ofJson? s.column.type json = some v
      else v = .null := by
  rw [read_eq_ok_iff, given?_single s name hjson]
  by_cases hname : s.goesBy name = true <;> simp [hname]

/-- A row with one scalar is read exactly if a column goes by its name, and is read from the scalar
in the columns that do. -/
theorem Row.ofJson_single_eq_ok_iff {columns : List StoredColumn} {name : String} {json : Json}
    (hjson : json.isScalar = true) {row : Row} :
    Row.ofJson columns (.obj [(name, json)]) = .ok row ↔ (∃ s ∈ columns, s.goesBy name = true) ∧
      List.Forall₂ (fun s v =>
        if s.goesBy name then Value.ofJson? s.column.type json = some v else v = .null)
        columns row := by
  have hread : columns.mapM (·.read [(name, json)]) = .ok row ↔
      List.Forall₂ (fun s v =>
        if s.goesBy name then Value.ofJson? s.column.type json = some v else v = .null)
        columns row := by
    rw [Outcome.mapM_eq_ok_iff]
    simp only [StoredColumn.read_single_eq_ok_iff _ name hjson]
  simp [Row.ofJson_eq_ok_iff, hread]

theorem Row.cell_of_forall₂ {R : StoredColumn → Value → Prop} {table : Table}
    (hnodup : (table.columns.map (·.column.name)).Nodup) {row : Row}
    (hrow : List.Forall₂ R table.columns row) {s : StoredColumn} (hs : s ∈ table.columns) :
    R s (row.cell table.schema.names s.column.name) := by
  obtain ⟨k, hk, rfl⟩ := List.mem_iff_getElem.mp hs
  rw [← Table.names_schema] at hnodup
  have hlt : k < row.length := hrow.length_eq ▸ hk
  rw [Row.cell_eq_getD (Table.position?_getElem hnodup hk), List.getD_eq_getElem?_getD,
    List.getElem?_eq_getElem hlt]
  exact hrow.get hk hlt

/-- All scalars of a type, given alone under a name, are read into a column of the type exactly if
the column goes by the name and all columns that do read them. -/
theorem Table.reads_iff {table : Table} (hnodup : (table.columns.map (·.column.name)).Nodup)
    {stored : StoredColumn} (hstored : stored ∈ table.columns) (name : String) :
    (∀ json v, json.isScalar = true → Value.ofJson? stored.column.type json = some v →
      ∃ row, Row.ofJson table.columns (.obj [(name, json)]) = .ok row ∧
        row.cell table.schema.names stored.column.name = v) ↔
      stored.goesBy name = true ∧
        ∀ s ∈ table.columns, s.goesBy name = true → stored.column.type.Admits s.column.type := by
  constructor
  · intro hreads
    constructor
    · -- a column of another name would hold null
      obtain ⟨json, v, hjson, hv, hvalue⟩ := stored.column.type.exists_literal
      obtain ⟨row, hrow, rfl⟩ := hreads json v hjson hv
      by_contra hname
      have hcell :=
        Row.cell_of_forall₂ hnodup ((Row.ofJson_single_eq_ok_iff hjson).mp hrow).2 hstored
      rw [if_neg hname] at hcell
      exact hvalue hcell
    -- another column that goes by the name reads the same scalar
    · intro s hs hname json hjson hsome
      obtain ⟨v, hv⟩ := Option.isSome_iff_exists.mp hsome
      obtain ⟨row, hrow, -⟩ := hreads json v hjson hv
      have hcell := Row.cell_of_forall₂ hnodup ((Row.ofJson_single_eq_ok_iff hjson).mp hrow).2 hs
      rw [if_pos hname] at hcell
      exact Option.isSome_iff_exists.mpr ⟨_, hcell⟩
  · rintro ⟨hname, hadmits⟩ json v hjson hv
    have hvalue (s : StoredColumn) (hs : s ∈ table.columns) :
        ∃ w, if s.goesBy name then Value.ofJson? s.column.type json = some w else w = .null := by
      split
      · next hgoes =>
          exact Option.isSome_iff_exists.mp (hadmits s hs hgoes json hjson (by simp [hv]))
      · exact ⟨_, rfl⟩
    obtain ⟨row, hvalues⟩ := Outcome.exists_forall₂_iff.mpr hvalue
    refine ⟨row, (Row.ofJson_single_eq_ok_iff hjson).mpr ⟨⟨stored, hstored, hname⟩, hvalues⟩, ?_⟩
    have hcell := Row.cell_of_forall₂ hnodup hvalues hstored
    rw [if_pos hname, hv] at hcell
    exact (Option.some.inj hcell).symm

/-! ## Attributes of columns -/

namespace Catalog

variable {c : Catalog} {entity name : String} {columns : List StoredColumn}

/-- The attribute that a column of an entity belongs to: the first visible one that is stored in
it. -/
def keeper? (c : Catalog) (entity column : String) : Option Attribute :=
  (c.visible entity).find? fun a => c.physicalColumn? entity a = some column

theorem keeper?_eq_some (c : Catalog) {column : String} {a : Attribute}
    (ha : c.keeper? entity column = some a) :
    a ∈ c.visible entity ∧ c.physicalColumn? entity a = some column :=
  ⟨List.mem_of_find?_eq_some ha, by simpa using List.find?_some ha⟩

theorem find?_stored_eq_some_iff (hrepeat : c.Unrepeated) {attributes : List Attribute}
    (hvisible : ∀ a ∈ attributes, a ∈ c.visible entity) {stored : List (Option StoredColumn)}
    (hstored : attributes.mapM (c.storedColumn? entity) = .ok stored) {s : StoredColumn} :
    (stored.filterMap id).find? (·.column.name = name) = some s ↔
      ∃ a, attributes.find? (fun a => c.physicalColumn? entity a = some name) = some a ∧
        c.storedColumn? entity a = .ok (some s) := by
  rw [Outcome.mapM_eq_ok_iff] at hstored
  induction hstored with
  | nil => simp
  | @cons a found attributes stored hfound _ ih =>
      rw [List.forall_mem_cons] at hvisible
      have hname := name_of_storedColumn? (visible_of_mem hrepeat hvisible.1) hfound
      rw [List.find?_cons, ← hname]
      cases found with
      | none => simpa using ih hvisible.2
      | some t =>
          by_cases ht : t.column.name = name
          · simp [ht, hfound]
          · simpa [ht] using ih hvisible.2

/-- The column of a table is that of the attribute it belongs to. -/
theorem find?_columns_eq_some_iff (hrepeat : c.Unrepeated)
    (hcolumns : c.tableColumns entity = .ok columns) {s : StoredColumn} :
    columns.find? (·.column.name = name) = some s ↔
      ∃ a, c.keeper? entity name = some a ∧ c.storedColumn? entity a = .ok (some s) := by
  obtain ⟨stored, hstored, hcolumns⟩ := Outcome.bind_eq_ok_iff.mp hcolumns
  obtain rfl := Except.ok.inj hcolumns
  have hfind := Keyed.find?_addAll (·.column.name) name [] (stored.filterMap id)
  rw [List.find?_nil, Option.none_or] at hfind
  rw [distinctColumns, hfind]
  exact find?_stored_eq_some_iff hrepeat (fun _ h => h) hstored

theorem mem_columns_iff (hrepeat : c.Unrepeated) (hcolumns : c.tableColumns entity = .ok columns)
    {s : StoredColumn} :
    s ∈ columns ↔ ∃ a, c.keeper? entity s.column.name = some a ∧
      c.storedColumn? entity a = .ok (some s) := by
  rw [← find?_columns_eq_some_iff hrepeat hcolumns,
    Keyed.find?_eq_some_iff _ (nodup_columns hcolumns), and_iff_left rfl]

theorem storedType_of_stored (hrepeat : c.Unrepeated) {a : Attribute} (ha : a ∈ c.visible entity)
    {s : StoredColumn} (hs : c.storedColumn? entity a = .ok (some s)) :
    c.storedType entity a = .ok s.column.type :=
  (storedColumn?_eq_ok (visible_of_mem hrepeat ha) hs).2.1

theorem goesBy_iff (hrepeat : c.Unrepeated) {a b : Attribute} (ha : a ∈ c.visible entity)
    (hb : b ∈ c.visible entity) {s : StoredColumn} (hs : c.storedColumn? entity b = .ok (some s)) :
    s.goesBy a.name = true ↔ b = a ∨ s.column.name = a.name := by
  obtain ⟨-, -, hname, -⟩ := storedColumn?_eq_ok (visible_of_mem hrepeat hb) hs
  rw [StoredColumn.goesBy_iff, hname]
  have hsame : b.name = a.name ↔ b = a :=
    ⟨List.inj_on_of_nodup_map (Keyed.nodup_map_ofList _ _) hb ha, congrArg Attribute.name⟩
  rw [hsame]

theorem exists_stored (hrepeat : c.Unrepeated) (hcolumns : c.tableColumns entity = .ok columns)
    {a : Attribute} (ha : a ∈ c.visible entity) (hcolumn : c.physicalColumn? entity a = some name) :
    ∃ s, c.storedColumn? entity a = .ok (some s) ∧ s.column.name = name ∧
      c.storedType entity a = .ok s.column.type := by
  obtain ⟨all, hall, -⟩ := Outcome.bind_eq_ok_iff.mp hcolumns
  obtain ⟨found, -, hfound⟩ := Outcome.exists_mem_of_mapM hall ha
  have hname := name_of_storedColumn? (visible_of_mem hrepeat ha) hfound
  rw [hcolumn] at hname
  obtain ⟨s, rfl, hs⟩ := Option.map_eq_some_iff.mp hname
  exact ⟨s, hfound, hs, storedType_of_stored hrepeat ha hfound⟩

theorem exists_stored_of_keeper? (hrepeat : c.Unrepeated)
    (hcolumns : c.tableColumns entity = .ok columns) {a : Attribute}
    (ha : c.keeper? entity name = some a) :
    ∃ s, c.storedColumn? entity a = .ok (some s) ∧ s.column.name = name ∧
      c.storedType entity a = .ok s.column.type :=
  exists_stored hrepeat hcolumns (c.keeper?_eq_some ha).1 (c.keeper?_eq_some ha).2

end Catalog

namespace Store

variable {c : Catalog} {entities : List Entity} {fallback : Option ScalarType} {s next : Store}

/-! ## Names of tables -/

theorem lookup_names_ofCatalog (haccepted : Catalog.of entities fallback = .ok c)
    (hs : ofCatalog c = .ok s) :
    ∀ e ∈ c.entities, s.entityTables.lookup e.name = some e.tableName := by
  obtain ⟨-, hnames, -⟩ := Catalog.check_of_accepted haccepted
  intro e he
  obtain ⟨_, rfl, hlookup⟩ := (lookup_foldlM_addEntity lookup_names_addEntity hnames hs).1 e he
  exact hlookup

theorem Filled.lookup_names (haccepted : Catalog.of entities fallback = .ok c) (hs : s.Filled c) :
    ∀ e ∈ c.entities, s.entityTables.lookup e.name = some e.tableName := by
  induction hs with
  | empty hs => exact lookup_names_ofCatalog haccepted hs
  | insert _ _ hinsert ih =>
      obtain ⟨_, _, _, -, -, -, rfl⟩ := insert_eq_ok hinsert
      exact ih

/-! ## Writing an attribute -/

section

variable {entity tableName name column : String} {table : Table} {json : Json} {row : Row}
  {type : ScalarType}

/-- A row is added exactly if the columns of the table of its entity read it. -/
theorem insert_eq_ok_iff (hname : s.entityTables.lookup entity = some name)
    (htable : s.tables.lookup name = some table) :
    s.insert entity json = .ok next ↔ ∃ row, Row.ofJson table.columns json = .ok row ∧
      next = s.putTable name { table with rows := table.rows ++ [row] } := by
  constructor
  · intro hinsert
    obtain ⟨found, other, row, hfound, hother, hrow, rfl⟩ := insert_eq_ok hinsert
    obtain rfl : name = found := Option.some.inj (hname.symm.trans hfound)
    obtain rfl : table = other := Option.some.inj (htable.symm.trans hother)
    exact ⟨row, hrow, rfl⟩
  · rintro ⟨row, hrow, rfl⟩
    simp [insert, tableName, hname, Store.table, htable, hrow, Except.mapError]

theorem tableOf_eq_ok (hname : s.entityTables.lookup entity = some name)
    (htable : s.tables.lookup name = some table) : s.tableOf entity = .ok table := by
  simp [tableOf, tableName, hname, Store.table, htable]

theorem tableOf_putTable (hname : s.entityTables.lookup entity = some name) :
    (s.putTable name table).tableOf entity = .ok table :=
  tableOf_eq_ok hname (by rw [lookup_putTable, if_pos rfl])

theorem columnType_eq_ok_iff (htable : s.tableOf entity = .ok table) :
    s.columnType entity column = .ok (some type) ↔
      ∃ stored, table.columns.find? (·.column.name = column) = some stored ∧
        stored.column.type = type := by
  have htype : s.columnType entity column =
      .ok ((table.schema.find? (·.name = column)).map Column.type) := by
    rw [columnType, htable]
    rfl
  rw [htype, Table.schema, List.find?_map]
  simp [Function.comp_def]

/-- A scalar of a type, given alone under a name, is added to the table of an entity, with its value
in a column that has the type. -/
def Writes (s : Store) (entity name column : String) (type : ScalarType) : Prop :=
  ∀ json v, json.isScalar = true → Value.ofJson? type json = some v →
    ∃ next table row, s.insert entity (.obj [(name, json)]) = .ok next ∧
      s.tableOf entity = .ok table ∧
      next.tableOf entity = .ok { table with rows := table.rows ++ [row] } ∧
      row.cell table.schema.names column = v ∧ next.columnType entity column = .ok (some type)

theorem writes_iff_reads (hname : s.entityTables.lookup entity = some tableName)
    (htable : s.tables.lookup tableName = some table) :
    s.Writes entity name column type ↔
      (∃ stored, table.columns.find? (·.column.name = column) = some stored ∧
        stored.column.type = type) ∧
        ∀ json v, json.isScalar = true → Value.ofJson? type json = some v →
          ∃ row, Row.ofJson table.columns (.obj [(name, json)]) = .ok row ∧
            row.cell table.schema.names column = v := by
  have htableOf := tableOf_eq_ok hname htable
  constructor
  · intro hwrites
    constructor
    -- null can be written in every type, so the column is there
    · obtain ⟨next, found, row, -, hfound, hnext, -, htype⟩ :=
        hwrites .null .null rfl (by cases type <;> rfl)
      obtain rfl : table = found := Except.ok.inj (htableOf.symm.trans hfound)
      exact (columnType_eq_ok_iff hnext).mp htype
    · intro json v hjson hv
      obtain ⟨next, found, row, hinsert, hfound, hnext, hcell, -⟩ := hwrites json v hjson hv
      obtain rfl : table = found := Except.ok.inj (htableOf.symm.trans hfound)
      obtain ⟨read, hread, rfl⟩ := (insert_eq_ok_iff hname htable).mp hinsert
      -- the row that has been read is the one that stands last
      rw [tableOf_putTable hname] at hnext
      obtain rfl : read = row := by simpa using hnext
      exact ⟨read, hread, hcell⟩
  · rintro ⟨hstored, hreads⟩ json v hjson hv
    obtain ⟨row, hrow, hcell⟩ := hreads json v hjson hv
    have hnext : (s.putTable tableName { table with rows := table.rows ++ [row] }).tableOf entity =
        .ok { table with rows := table.rows ++ [row] } := tableOf_putTable hname
    exact ⟨_, table, row, (insert_eq_ok_iff hname htable).mpr ⟨row, hrow, rfl⟩, htableOf, hnext,
      hcell, (columnType_eq_ok_iff hnext).mpr hstored⟩

end

/-- An attribute can be written under its own name, into its column and in its type, exactly if the
column belongs to an attribute of this type, takes what is given under the name, and whatever is
read in the type is also read in that of the column that is called like the attribute, if there is
one. -/
theorem Filled.writes_iff (haccepted : Catalog.of entities fallback = .ok c)
    (hrepeat : c.Unrepeated) (htables : (c.entities.map Entity.tableName).Nodup) (hs : s.Filled c)
    {e : Entity} (he : e ∈ c.entities) {a : Attribute} (ha : a ∈ c.visible e.name) {column : String}
    (hcolumn : c.physicalColumn? e.name a = some column) :
    ∃ type, c.storedType e.name a = .ok type ∧
      (s.Writes e.name a.name column type ↔
        ∃ keeper, c.keeper? e.name column = some keeper ∧ c.storedType e.name keeper = .ok type ∧
          (keeper = a ∨ column = a.name) ∧
          ∀ other otherType, c.keeper? e.name a.name = some other →
            c.storedType e.name other = .ok otherType →
            type.Admits otherType) := by
  -- the table of the entity, and the column that the attribute would have there
  obtain ⟨table, htable, hcolumns⟩ := (hs.fits_of_nodup htables).tables e he
  have hname := hs.lookup_names haccepted e he
  obtain ⟨own, hown, rfl, htype⟩ := Catalog.exists_stored hrepeat hcolumns ha hcolumn
  have hnodup := Catalog.nodup_columns hcolumns
  refine ⟨own.column.type, htype, ?_⟩
  rw [writes_iff_reads hname htable]
  constructor
  -- the column that is there belongs to its keeper, which then has the name or the column of the
  -- attribute
  · rintro ⟨⟨stored, hfind, htypes⟩, hreads⟩
    obtain ⟨hmem, hstoredName⟩ := (Keyed.find?_eq_some_iff _ hnodup).mp hfind
    rw [← htypes, ← hstoredName, Table.reads_iff hnodup hmem] at hreads
    obtain ⟨keeper, hkeeper, hstored⟩ :=
      (Catalog.find?_columns_eq_some_iff hrepeat hcolumns).mp hfind
    have hvisible := (c.keeper?_eq_some hkeeper).1
    have hgoes := (Catalog.goesBy_iff hrepeat ha hvisible hstored).mp hreads.1
    rw [hstoredName] at hgoes
    refine ⟨keeper, hkeeper, htypes ▸ Catalog.storedType_of_stored hrepeat hvisible hstored, hgoes,
      ?_⟩
    intro other otherType hother hotherType
    -- the column that is called like the attribute goes by its name as well
    obtain ⟨called, hcalled, hcalledName, hcalledType⟩ :=
      Catalog.exists_stored_of_keeper? hrepeat hcolumns hother
    obtain rfl := Except.ok.inj (hotherType.symm.trans hcalledType)
    have hcalledMem : called ∈ table.columns := by
      rw [Catalog.mem_columns_iff hrepeat hcolumns, hcalledName]
      exact ⟨other, hother, hcalled⟩
    exact htypes ▸ hreads.2 called hcalledMem (StoredColumn.goesBy_iff.mpr (.inr hcalledName))
  · rintro ⟨keeper, hkeeper, hkeeperType, hgoes, hadmits⟩
    obtain ⟨stored, hstored, hstoredName, hstoredType⟩ :=
      Catalog.exists_stored_of_keeper? hrepeat hcolumns hkeeper
    have htypes : stored.column.type = own.column.type :=
      Except.ok.inj (hstoredType.symm.trans hkeeperType)
    have hfind :=
      (Catalog.find?_columns_eq_some_iff hrepeat hcolumns).mpr ⟨keeper, hkeeper, hstored⟩
    obtain ⟨hmem, -⟩ := (Keyed.find?_eq_some_iff _ hnodup).mp hfind
    refine ⟨⟨stored, hfind, htypes⟩, ?_⟩
    rw [← htypes, ← hstoredName, Table.reads_iff hnodup hmem]
    refine ⟨(Catalog.goesBy_iff hrepeat ha (c.keeper?_eq_some hkeeper).1 hstored).mpr
      (hstoredName ▸ hgoes), ?_⟩
    intro called hcalled hcalledGoes
    obtain ⟨other, hother, hcalledStored⟩ := (Catalog.mem_columns_iff hrepeat hcolumns).mp hcalled
    have hvisible := (c.keeper?_eq_some hother).1
    rw [htypes]
    -- a column goes by the name if it is that of the attribute, or is called like it
    rcases (Catalog.goesBy_iff hrepeat ha hvisible hcalledStored).mp hcalledGoes with rfl
      | hcalledName
    · obtain rfl : called = own := Option.some.inj (Except.ok.inj (hcalledStored.symm.trans hown))
      exact .refl _
    · exact hadmits other _ (hcalledName ▸ hother)
        (Catalog.storedType_of_stored hrepeat hvisible hcalledStored)

end Store

/-- Pets name their owner twice: by the identifier, and as an association that is stored in the same
column. -/
def Pets.pet : Entity :=
  ⟨"Pet", none, [], none, "id",
    [⟨"id", .scalar .int64⟩, ⟨"owner_id", .scalar .int64⟩,
      ⟨"owner", .association "Owner" (.toOne "owner_id")⟩], [], []⟩

/-- Pets and their owners. -/
def Pets.catalog : Catalog where
  entities := [⟨"Owner", none, [], none, "id", [⟨"id", .scalar .int64⟩], [], []⟩, Pets.pet]
  fallback := none

/-- The identifier can be written. -/
theorem Store.writes_iff_pets :
    Catalog.of Pets.catalog.entities none = .ok Pets.catalog ∧ Pets.catalog.Unrepeated ∧
      (Pets.catalog.entities.map Entity.tableName).Nodup ∧
      ∃ store : Store, store.Filled Pets.catalog ∧ Pets.pet ∈ Pets.catalog.entities ∧
        ∃ a ∈ Pets.catalog.visible "Pet", a.name = "owner_id" ∧
          Pets.catalog.physicalColumn? "Pet" a = some "owner_id" ∧
          store.Writes "Pet" "owner_id" "owner_id" .int64 := by
  have hstore : ∃ store : Store, Store.ofCatalog Pets.catalog = .ok store := ⟨_, rfl⟩
  obtain ⟨store, hstore⟩ := hstore
  have haccepted : Catalog.of Pets.catalog.entities none = .ok Pets.catalog := rfl
  have hrepeat : Pets.catalog.Unrepeated := by decide
  have htables : (Pets.catalog.entities.map Entity.tableName).Nodup := by decide
  have hpet : Pets.pet ∈ Pets.catalog.entities := by decide
  have hvisible : (⟨"owner_id", .scalar .int64⟩ : Attribute) ∈ Pets.catalog.visible "Pet" := by
    decide
  have hcolumn : Pets.catalog.physicalColumn? "Pet" ⟨"owner_id", .scalar .int64⟩ =
      some "owner_id" := rfl
  obtain ⟨type, htype, hwrites⟩ :=
    Store.Filled.writes_iff haccepted hrepeat htables (.empty hstore) hpet hvisible hcolumn
  obtain rfl : type = .int64 := (Except.ok.inj htype).symm
  refine ⟨haccepted, hrepeat, htables, store, .empty hstore, hpet, _, hvisible, rfl, hcolumn,
    hwrites.mpr ?_⟩
  refine ⟨_, rfl, rfl, .inl rfl, fun other otherType hother hotherType => ?_⟩
  obtain rfl := Option.some.inj hother
  obtain rfl := Except.ok.inj hotherType
  exact .refl _

/-- The association cannot: its name is refused, though it is visible, it is stored in the column,
and the literal is an identifier of an owner. -/
theorem Store.not_writes_pets :
    Catalog.of Pets.catalog.entities none = .ok Pets.catalog ∧ Pets.catalog.Unrepeated ∧
      (Pets.catalog.entities.map Entity.tableName).Nodup ∧
      ∃ store : Store, store.Filled Pets.catalog ∧
        ∃ a ∈ Pets.catalog.visible "Pet", a.name = "owner" ∧
          Pets.catalog.physicalColumn? "Pet" a = some "owner_id" ∧
          Pets.catalog.storedType "Pet" a = .ok .int64 ∧
          Value.ofJson? .int64 (.int 7) = some (.int64 7) ∧
          store.insert "Pet" (.obj [("owner", .int 7)]) =
            .error (.invalidRow "Pet" (.unknownAttribute "owner")) ∧
          ¬ store.Writes "Pet" "owner" "owner_id" .int64 := by
  have hstore : ∃ store : Store, Store.ofCatalog Pets.catalog = .ok store ∧
      store.insert "Pet" (.obj [("owner", .int 7)]) =
        .error (.invalidRow "Pet" (.unknownAttribute "owner")) :=
    ⟨_, rfl, rfl⟩
  obtain ⟨store, hstore, hinsert⟩ := hstore
  refine ⟨rfl, by decide, by decide, store, .empty hstore,
    ⟨"owner", .association "Owner" (.toOne "owner_id")⟩, by decide, rfl, rfl, rfl, rfl, hinsert,
    fun hwrites => ?_⟩
  obtain ⟨next, -, -, hnext, -⟩ := hwrites (.int 7) (.int64 7) rfl rfl
  rw [hinsert] at hnext
  simp at hnext

/-- A name that is also that of the column of another attribute is written to both: here that of a
text to the column of an association, which holds a number. -/
example :
    ∃ store : Store, Store.ofCatalog ⟨[
        ⟨"Person", none, [], none, "id", [⟨"id", .scalar .int64⟩], [], []⟩,
        ⟨"Team", none, [], none, "id",
          [⟨"id", .scalar .int64⟩, ⟨"manager", .association "Person" (.toOne "boss")⟩,
            ⟨"boss", .scalar .text⟩],
          [("boss", "boss_name")], []⟩], none⟩ = .ok store ∧
      store.insert "Team" (.obj [("boss", .str "Ann")]) =
        .error (.invalidRow "Team" (.value (.str "Ann") .int64 "manager")) := ⟨_, rfl, rfl⟩

end EntityQuery
