import EntityQuery.Proofs.Flow.Rows
import EntityQuery.Proofs.Store.Columns
import EntityQuery.Store.Basic

/-!
# Filled stores

A store is filled by starting from the empty tables of a catalog and adding rows.  Whatever rows are
added and whichever are refused, every entity keeps its table with the columns that its attributes
ask for, and every row holds null or a value of the right type in each of its columns.

The invariant has two parts: the tables of the entities, which adding rows leaves in place, and the
rows of all tables, to which only rows are added that have been read column by column.

## Main definitions

* `Store.Filled` : a store filled with rows
* `Store.Fits` : the tables of a store fit a catalog

## Main statements

* `Row.ofJson_eq_ok_iff`, `StoredColumn.read_eq_ok_iff` : which rows and values are read
* `Filled.load` : loading a data set fills a store
* `Filled.fits` : a filled store fits its catalog
-/

namespace EntityQuery

/-! ## Rows from JSON -/

theorem Table.position?_getElem {t : Table} (hnodup : t.schema.names.Nodup) {k : Nat}
    (hk : k < t.columns.length) : t.schema.position? t.columns[k].column.name = some k := by
  have hlt : k < t.schema.length := by rwa [Table.schema, List.length_map]
  simpa only [Table.schema, List.getElem_map] using Schema.position?_getElem hnodup hlt

/-- What is given for a column is held by the row, or by an object that the row holds. -/
theorem StoredColumn.of_given? {P : Json → Prop}
    (hmember : ∀ {members key json},
      P (.obj members) → Json.member? key members = some json → P json)
    {s : StoredColumn} {row : List (String × Json)} (hrow : P (.obj row)) {json : Json}
    (hjson : s.given? row = some json) : P json := by
  have hheld {found : Json}
      (hfound : (Json.member? s.attributeName row <|> Json.member? s.column.name row) =
        some found) : P found := by
    rw [Option.orElse_eq_orElse, Option.orElse_eq_or] at hfound
    rcases Option.or_eq_some_iff.mp hfound with hfound | ⟨-, hfound⟩ <;> exact hmember hrow hfound
  unfold given? at hjson
  split at hjson
  · next nested id hfound _ => exact hmember (hheld hfound) hjson
  · exact hheld hjson

/-- A column is null if nothing is given for it, and otherwise reads what is given in its type. -/
theorem StoredColumn.read_eq_ok_iff {s : StoredColumn} {members : List (String × Json)}
    {v : Value} :
    s.read members = .ok v ↔ (s.given? members = none ∧ v = .null) ∨
      ∃ json, s.given? members = some json ∧ Value.ofJson? s.column.type json = some v := by
  unfold read
  cases s.given? members with
  | none => simp [eq_comm]
  | some json => cases hvalue : Value.ofJson? s.column.type json <;> simp [hvalue]

theorem StoredColumn.conforms_read {s : StoredColumn} {members : List (String × Json)}
    (hmembers : Json.membersAreProper members = true) {v : Value} (hv : s.read members = .ok v) :
    v.conforms s.column.type = true := by
  rcases read_eq_ok_iff.mp hv with ⟨-, rfl⟩ | ⟨json, hjson, hv⟩
  · rfl
  · have hproper : json.isProper = true :=
      of_given? (P := fun json => json.isProper = true) Json.isProper_of_member? hmembers hjson
    exact Value.conforms_ofJson? hproper hv

/-- A row is read from an object, column by column, if every member of the object goes to some
column. -/
theorem Row.ofJson_eq_ok_iff {columns : List StoredColumn} {json : Json} {row : Row} :
    Row.ofJson columns json = .ok row ↔ ∃ members, json = .obj members ∧
      (∀ m ∈ members, ∃ s ∈ columns, s.goesBy m.1 = true) ∧
      columns.mapM (·.read members) = .ok row := by
  cases json with
  | obj members =>
      have hknown : (members.find? fun m => !columns.any (·.goesBy m.1)) = none ↔
          ∀ m ∈ members, ∃ s ∈ columns, s.goesBy m.1 = true := by
        simp
      unfold Row.ofJson
      dsimp only
      split
      · next hunknown =>
        have hrefused : ¬ ∀ m ∈ members, ∃ s ∈ columns, s.goesBy m.1 = true := by
          rw [← hknown, hunknown]
          exact Option.some_ne_none _
        simp only [Outcome.throw_eq_error, reduceCtorEq, false_iff]
        rintro ⟨found, heq, hall, -⟩
        obtain rfl := Json.obj.inj heq
        exact hrefused hall
      · next hnone =>
        constructor
        · exact fun hread => ⟨members, rfl, hknown.mp hnone, hread⟩
        · rintro ⟨found, heq, -, hread⟩
          obtain rfl := Json.obj.inj heq
          exact hread
  | null | bool _ | int _ | real _ | str _ | arr _ => simp [Row.ofJson]

theorem Row.conforms_ofJson {columns : List StoredColumn} {json : Json}
    (hjson : json.isProper = true) {row : Row} (hrow : Row.ofJson columns json = .ok row) :
    row.Conforms (columns.map StoredColumn.column) := by
  obtain ⟨members, rfl, -, hread⟩ := Row.ofJson_eq_ok_iff.mp hrow
  rw [Outcome.mapM_eq_ok_iff] at hread
  unfold Row.Conforms
  rw [List.forall₂_map_left_iff]
  exact hread.imp fun s v hv => StoredColumn.conforms_read hjson hv

namespace Store

/-! ## Filling a store -/

/-- A store filled with rows, which are added one by one to the tables of a catalog. -/
inductive Filled (c : Catalog) : Store → Prop
  | empty {s : Store} (hs : ofCatalog c = .ok s) : Filled c s
  | insert {s next : Store} {entity : String} {json : Json} (hs : Filled c s)
      (hjson : json.isProper = true) (hinsert : s.insert entity json = .ok next) : Filled c next

namespace Filled

variable {c : Catalog} {s : Store}

theorem insertAll (hs : Filled c s) (entity : String) {rows : List Json}
    (hrows : Json.areProper rows = true) : Filled c (s.insertAll entity rows).1 := by
  induction rows generalizing s with
  | nil => exact hs
  | cons json rows ih =>
      rw [Json.areProper, Bool.and_eq_true] at hrows
      rw [Store.insertAll]
      split
      · exact hs
      · next next hnext => exact ih (hs.insert hrows.1 hnext) hrows.2

theorem loadMembers (hs : Filled c s) {members : List (String × Json)}
    (hmembers : Json.membersAreProper members = true) : Filled c (s.loadMembers members).1 := by
  induction members generalizing s with
  | nil => exact hs
  | cons m members ih =>
      obtain ⟨entity, json⟩ := m
      rw [Json.membersAreProper, Bool.and_eq_true] at hmembers
      unfold Store.loadMembers
      split
      · next hnil => simp at hnil
      · next other rows rest heq =>
        obtain ⟨⟨rfl, rfl⟩, rfl⟩ := by simpa using heq
        have hrows := hs.insertAll entity hmembers.1
        split
        · next next count fault hall =>
          rw [hall] at hrows
          exact hrows
        · next next count hall =>
          rw [hall] at hrows
          exact ih hrows hmembers.2
      · exact hs

/-- Loading a data set fills a store, also when one of its rows is refused. -/
theorem load (hs : Filled c s) {json : Json} (hjson : json.isProper = true) :
    Filled c (s.load json).1 := by
  unfold Store.load
  split
  · next members =>
    have hmembers : Filled c (s.loadMembers members).1 := hs.loadMembers hjson
    split
    · next h =>
      rw [h] at hmembers
      exact hmembers
    · next h =>
      rw [h] at hmembers
      exact hmembers
  · exact hs

end Filled

/-! ## Stores that fit a catalog -/

/-- Every entity has a table with the columns of its attributes, and all rows conform to their
columns. -/
structure Fits (c : Catalog) (s : Store) : Prop where
  tables : ∀ e ∈ c.entities, ∃ table, s.tables.lookup e.tableName = some table ∧
    c.tableColumns e.name = .ok table.columns
  rows : ∀ name table, s.tables.lookup name = some table → ∀ row ∈ table.rows,
    row.Conforms table.schema

theorem lookup_putTable (s : Store) (name other : String) (table : Table) :
    (s.putTable name table).tables.lookup other =
      if other = name then some table else s.tables.lookup other := by
  split
  · next h => rw [h]; exact Keyed.lookup_put_self _ _ _
  · next h => exact Keyed.lookup_put_of_ne h _ _

theorem lookup_addEntity {c : Catalog} {s next : Store} {e : Entity}
    (hnext : addEntity c s e = .ok next) :
    ∃ table, (∃ columns, c.tableColumns e.name = .ok columns ∧ table = .empty columns) ∧
      ∀ name, next.tables.lookup name =
        if name = e.tableName then some table else s.tables.lookup name := by
  obtain ⟨columns, hcolumns, hnext⟩ := Outcome.bind_eq_ok_iff.mp hnext
  obtain rfl := Except.ok.inj hnext
  exact ⟨_, ⟨columns, hcolumns, rfl⟩, fun name => lookup_putTable s e.tableName name _⟩

theorem lookup_names_addEntity {c : Catalog} {s next : Store} {e : Entity}
    (hnext : addEntity c s e = .ok next) :
    ∃ tableName, e.tableName = tableName ∧
      ∀ name, next.entityTables.lookup name =
        if name = e.name then some tableName else s.entityTables.lookup name := by
  obtain ⟨columns, -, hnext⟩ := Outcome.bind_eq_ok_iff.mp hnext
  obtain rfl := Except.ok.inj hnext
  refine ⟨_, rfl, fun name => ?_⟩
  split
  · next hname => rw [hname, Keyed.lookup_put_self]
  · next hname => rw [Keyed.lookup_put_of_ne hname]

/-- If every entity leaves an entry under its key, an entry that is found in the end was left by one
of the entities, or was there before. -/
theorem of_lookup_foldlM_addEntity {c : Catalog} {β : Type} {entries : Store → List (String × β)}
    {key : Entity → String} {Made : Entity → β → Prop}
    (hstep : ∀ {s next : Store} {e : Entity}, addEntity c s e = .ok next → ∃ value, Made e value ∧
      ∀ name, (entries next).lookup name =
        if name = key e then some value else (entries s).lookup name)
    {found : List Entity} {s next : Store} (hnext : found.foldlM (addEntity c) s = .ok next)
    {name : String} {value : β} (hvalue : (entries next).lookup name = some value) :
    (∃ e ∈ found, key e = name ∧ Made e value) ∨ (entries s).lookup name = some value := by
  induction found generalizing s with
  | nil =>
      obtain rfl := Except.ok.inj hnext
      exact .inr hvalue
  | cons e found ih =>
      rw [List.foldlM_cons] at hnext
      obtain ⟨first, hfirst, hnext⟩ := Outcome.bind_eq_ok_iff.mp hnext
      rcases ih hnext with ⟨other, hother, h⟩ | hbefore
      · exact .inl ⟨other, List.mem_cons_of_mem _ hother, h⟩
      · obtain ⟨made, hmade, hlookup⟩ := hstep hfirst
        rw [hlookup] at hbefore
        split at hbefore
        · next hname =>
            exact .inl ⟨e, List.mem_cons_self .., hname.symm, Option.some.inj hbefore ▸ hmade⟩
        · exact .inr hbefore

/-- If every entity leaves an entry under its key, entities of distinct keys each have their own in
the end, and all others stay. -/
theorem lookup_foldlM_addEntity {c : Catalog} {β : Type} {entries : Store → List (String × β)}
    {key : Entity → String} {Made : Entity → β → Prop}
    (hstep : ∀ {s next : Store} {e : Entity}, addEntity c s e = .ok next → ∃ value, Made e value ∧
      ∀ name, (entries next).lookup name =
        if name = key e then some value else (entries s).lookup name)
    {found : List Entity} (hkeys : (found.map key).Nodup) {s next : Store}
    (hnext : found.foldlM (addEntity c) s = .ok next) :
    (∀ e ∈ found, ∃ value, Made e value ∧ (entries next).lookup (key e) = some value) ∧
      ∀ name, name ∉ found.map key → (entries next).lookup name = (entries s).lookup name := by
  induction found generalizing s with
  | nil =>
      obtain rfl := Except.ok.inj hnext
      simp
  | cons e found ih =>
      rw [List.map_cons, List.nodup_cons] at hkeys
      rw [List.foldlM_cons] at hnext
      obtain ⟨first, hfirst, hnext⟩ := Outcome.bind_eq_ok_iff.mp hnext
      obtain ⟨value, hvalue, hlookup⟩ := hstep hfirst
      obtain ⟨hothers, hrest⟩ := ih hkeys.2 hnext
      refine ⟨?_, fun name hname => ?_⟩
      · rw [List.forall_mem_cons]
        exact ⟨⟨value, hvalue, by rw [hrest _ hkeys.1, hlookup, if_pos rfl]⟩, hothers⟩
      · rw [List.map_cons, List.mem_cons, not_or] at hname
        rw [hrest name hname.2, hlookup, if_neg hname.1]

theorem lookup_addEntities {c : Catalog} {entities : List Entity}
    (htables : (entities.map Entity.tableName).Nodup) {s next : Store}
    (hnext : entities.foldlM (addEntity c) s = .ok next) :
    (∀ e ∈ entities, ∃ columns, c.tableColumns e.name = .ok columns ∧
      next.tables.lookup e.tableName = some (.empty columns)) ∧
    ∀ name, name ∉ entities.map Entity.tableName →
      next.tables.lookup name = s.tables.lookup name := by
  obtain ⟨hmade, hrest⟩ := lookup_foldlM_addEntity lookup_addEntity htables hnext
  refine ⟨fun e he => ?_, hrest⟩
  obtain ⟨_, ⟨columns, hcolumns, rfl⟩, hlookup⟩ := hmade e he
  exact ⟨columns, hcolumns, hlookup⟩

theorem fits_ofCatalog {c : Catalog} (htables : (c.entities.map Entity.tableName).Nodup) {s : Store}
    (hs : ofCatalog c = .ok s) : Fits c s := by
  obtain ⟨htables, hothers⟩ := lookup_addEntities htables hs
  constructor
  · intro e he
    obtain ⟨columns, hcolumns, hlookup⟩ := htables e he
    exact ⟨_, hlookup, hcolumns⟩
  · intro name table htable row hrow
    by_cases hname : name ∈ c.entities.map Entity.tableName
    · obtain ⟨e, he, rfl⟩ := List.mem_map.mp hname
      obtain ⟨columns, -, hlookup⟩ := htables e he
      obtain rfl := Option.some.inj (hlookup.symm.trans htable)
      simp [Table.empty] at hrow
    · simp [hothers name hname] at htable

theorem tableName_eq_ok_iff {s : Store} {entity name : String} :
    s.tableName entity = .ok name ↔ s.entityTables.lookup entity = some name := by
  unfold Store.tableName
  cases s.entityTables.lookup entity <;> simp

theorem table_eq_ok_iff {s : Store} {name : String} {table : Table} :
    s.table name = .ok table ↔ s.tables.lookup name = some table := by
  unfold Store.table
  cases s.tables.lookup name <;> simp

theorem insert_eq_ok {s next : Store} {entity : String} {json : Json}
    (hinsert : s.insert entity json = .ok next) :
    ∃ name table row, s.entityTables.lookup entity = some name ∧ s.tables.lookup name = some table ∧
      Row.ofJson table.columns json = .ok row ∧
      next = s.putTable name { table with rows := table.rows ++ [row] } := by
  obtain ⟨name, hname, hinsert⟩ := Outcome.bind_eq_ok_iff.mp hinsert
  obtain ⟨table, htable, hinsert⟩ := Outcome.bind_eq_ok_iff.mp hinsert
  obtain ⟨row, hrow, hinsert⟩ := Outcome.bind_eq_ok_iff.mp hinsert
  exact ⟨name, table, row, tableName_eq_ok_iff.mp hname, table_eq_ok_iff.mp htable,
    Outcome.mapError_eq_ok_iff.mp hrow, (Except.ok.inj hinsert).symm⟩

theorem lookup_insert {s next : Store} {entity : String} {json : Json}
    (hinsert : s.insert entity json = .ok next) :
    ∃ name table row, s.tables.lookup name = some table ∧ Row.ofJson table.columns json = .ok row ∧
      ∀ other, next.tables.lookup other =
        if other = name then some { table with rows := table.rows ++ [row] }
        else s.tables.lookup other := by
  obtain ⟨name, table, row, -, htable, hrow, rfl⟩ := insert_eq_ok hinsert
  exact ⟨name, table, row, htable, hrow, fun other => lookup_putTable s name other _⟩

theorem Fits.insert {c : Catalog} {s next : Store} (hfits : Fits c s) {entity : String}
    {json : Json} (hjson : json.isProper = true) (hinsert : s.insert entity json = .ok next) :
    Fits c next := by
  obtain ⟨name, table, row, htable, hrow, hlookup⟩ := lookup_insert hinsert
  constructor
  · intro e he
    obtain ⟨found, hfound, hcolumns⟩ := hfits.tables e he
    rw [hlookup]
    split
    · next hname =>
      rw [hname, htable] at hfound
      obtain rfl := Option.some.inj hfound
      exact ⟨_, rfl, hcolumns⟩
    · exact ⟨found, hfound, hcolumns⟩
  · intro other found hfound added hadded
    rw [hlookup] at hfound
    split at hfound
    · obtain rfl := Option.some.inj hfound
      rcases List.mem_append.mp hadded with hold | hnew
      · exact hfits.rows name table htable added hold
      · rw [List.mem_singleton.mp hnew]
        exact Row.conforms_ofJson hjson hrow
    · exact hfits.rows other found hfound added hadded

theorem Filled.fits_of_nodup {c : Catalog} (htables : (c.entities.map Entity.tableName).Nodup)
    {s : Store} (hs : Filled c s) :
    Fits c s := by
  induction hs with
  | empty hs => exact fits_ofCatalog htables hs
  | insert _ hjson hinsert ih => exact ih.insert hjson hinsert

theorem Filled.fits {c : Catalog} (hplain : c.Plain) {s : Store} (hs : Filled c s) : Fits c s :=
  hs.fits_of_nodup hplain.tables

theorem Fits.exists_table {c : Catalog} {s : Store} (hfits : Fits c s) {name : String} {e : Entity}
    (he : c.entity? name = some e) :
    ∃ table, s.table e.tableName = .ok table ∧ c.HasSchema name table.schema ∧
      ∀ row ∈ table.rows, row.Conforms table.schema := by
  obtain ⟨hmem, rfl⟩ := Catalog.mem_of_entity? he
  obtain ⟨table, htable, hcolumns⟩ := hfits.tables e hmem
  refine ⟨table, table_eq_ok_iff.mpr htable, ⟨table.columns, hcolumns, rfl⟩, ?_⟩
  exact hfits.rows _ table htable

end Store

end EntityQuery
