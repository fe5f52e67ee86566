import EntityQuery.Proofs.Flow.TypedRows
import EntityQuery.Proofs.Store.Appended
import EntityQuery.Proofs.Store.Columns
import EntityQuery.Proofs.Value.Written

/-!
# Histories of a store

Rows come into a store by changes: one row, the rows of an entity, or a data set.  A change may be
cut short by a row that is refused, and others may follow it.  Whatever changes have been made since
the tables were empty, the rows of a table are those that have been read from what was given, in the
order in which it was given, and they are typed: each has one value for every column, null or of
exactly the type of the column.

## Strategy

A change adds the rows in front of the first item that it refuses (`exists_loads_change`).  What is
read from an item depends on the columns only, and they stay as they are, so a history adds what the
empty store reads from each of its changes (`grownBy_changeAll`).  A row of a table has therefore
been read by columns of an entity from something that stands in a JSON text, which makes it typed
and its numbers finite.

## Main definitions

* `Store.Change` : what is given to a store
* `Store.change`, `Store.changeAll` : the store after a change, and after a history
* `Store.taken` : the rows that a store reads up to the first item that it refuses

## Main statements

* `grownBy_changeAll` : what a history adds
* `typed_changeAll` : the rows of a store are typed
-/

namespace EntityQuery

/-! ## Rows that are read -/

theorem StoredColumn.isFinite_read {s : StoredColumn} {members : List (String × Json)}
    (hmembers : Json.membersAreFinite members = true) {x : Float}
    (hx : s.read members = .ok (.float64 x)) : Binary64.isFinite x = true := by
  rcases read_eq_ok_iff.mp hx with ⟨-, hnull⟩ | ⟨json, hjson, hx⟩
  · simp at hnull
  · have hfinite : json.isFinite = true :=
      of_given? (P := fun json => json.isFinite = true) Json.isFinite_of_member? hmembers hjson
    exact Value.isFinite_of_ofJson? hfinite hx

theorem Value.hasType_of_conforms {t : ScalarType} {v : Value} (hv : v.conforms t = true) :
    v.hasType t = true := by
  rw [conforms, ofType, Bool.or_eq_true, Bool.and_eq_true] at hv
  rw [hasType, Bool.or_eq_true]
  exact hv.imp_right And.left

theorem Value.isList_of_hasType {t : ScalarType} {v : Value} (hv : v.hasType t = true) :
    v.isList = false := by
  cases v <;> simp_all [hasType, isNull, type?, isList]

namespace Row

variable {columns : List StoredColumn} {json : Json} {row : Row}

theorem Conforms.typed {schema : Schema} (hrow : row.Conforms schema) : row.Typed schema :=
  List.Forall₂.imp (fun _ _ => Value.hasType_of_conforms) hrow

theorem typed_ofJson (hjson : json.isFinite = true) (hrow : Row.ofJson columns json = .ok row) :
    row.Typed (columns.map StoredColumn.column) ∧
      ∀ v ∈ row, v.isList = false ∧ ∀ x, v = .float64 x → Binary64.isFinite x = true := by
  have htyped := (Row.conforms_ofJson (Json.isProper_of_isFinite hjson) hrow).typed
  obtain ⟨members, rfl, -, hread⟩ := Row.ofJson_eq_ok_iff.mp hrow
  refine ⟨htyped, fun v hv => ⟨?_, ?_⟩⟩
  · obtain ⟨column, -, htype⟩ := Outcome.exists_of_mem_right htyped hv
    exact Value.isList_of_hasType htype
  · rintro x rfl
    obtain ⟨s, -, hx⟩ := Outcome.exists_of_mem_mapM hread hv
    exact StoredColumn.isFinite_read hjson hx

end Row

/-! ## Changes -/

namespace Store

/-- What is given to a store: one row, the rows of an entity, or a data set. -/
inductive Change where
  | insert (entity : String) (json : Json)
  | insertAll (entity : String) (rows : List Json)
  | load (data : Json)

namespace Change

/-- The items of a change, in their order. -/
def items : Change → List LoadItem
  | .insert entity json => [.row entity json]
  | .insertAll entity rows => rows.map (.row entity)
  | .load data => LoadItem.ofData data

/-- All numbers that are given are numbers of a JSON text. -/
def isFinite : Change → Bool
  | .insert _ json => json.isFinite
  | .insertAll _ rows => Json.areFinite rows
  | .load data => data.isFinite

end Change

/-- The store after a change, also if the change has been cut short. -/
def change (s : Store) : Change → Store
  | .insert entity json =>
    match s.insert entity json with
    | .ok next => next
    | .error _ => s
  | .insertAll entity rows => (s.insertAll entity rows).1
  | .load data => (s.load data).1

/-- The store after changes that have been made one after the other. -/
def changeAll (s : Store) (changes : List Change) : Store := changes.foldl change s

/-- The rows that are read from the items in front of the first that is refused, each behind the
name of its table. -/
def taken (s : Store) : List LoadItem → List (String × Row)
  | [] => []
  | item :: rest =>
    match s.readItem item with
    | .ok row => row :: s.taken rest
    | .error _ => []

variable {s next : Store} {added : List (String × Row)} {items : List LoadItem} {name : String}

/-! ## What is given -/

/-- The rows among the members of a data set are finite if the members are. -/
theorem isFinite_of_mem_ofMembers {members : List (String × Json)}
    (hmembers : Json.membersAreFinite members = true) {entity : String} {json : Json}
    (hjson : .row entity json ∈ LoadItem.ofMembers members) : json.isFinite = true := by
  induction members with
  | nil => simp [LoadItem.ofMembers] at hjson
  | cons m members ih =>
      obtain ⟨other, value⟩ := m
      rw [Json.membersAreFinite, Bool.and_eq_true] at hmembers
      cases value with
      | arr rows =>
          rw [LoadItem.ofMembers, List.mem_append, List.mem_map] at hjson
          rcases hjson with ⟨row, hrow, hsame⟩ | hjson
          · obtain ⟨-, rfl⟩ := LoadItem.row.inj hsame
            exact Json.areFinite_iff.mp hmembers.1 row hrow
          · exact ih hmembers.2 hjson
      | null | bool _ | int _ | real _ | str _ | obj _ =>
          have hrest : .row entity json ∈ LoadItem.ofMembers members := by
            simpa [LoadItem.ofMembers] using hjson
          exact ih hmembers.2 hrest

/-- The rows of a finite change are finite. -/
theorem Change.isFinite_of_mem_items {change : Change} (hchange : change.isFinite = true)
    {entity : String} {json : Json} (hjson : .row entity json ∈ change.items) :
    json.isFinite = true := by
  cases change with
  | insert other row =>
      obtain ⟨-, rfl⟩ := LoadItem.row.inj (List.mem_singleton.mp hjson)
      exact hchange
  | insertAll other rows =>
      obtain ⟨row, hrow, hsame⟩ := List.mem_map.mp hjson
      obtain ⟨-, rfl⟩ := LoadItem.row.inj hsame
      exact Json.areFinite_iff.mp hchange row hrow
  | load data =>
      cases data with
      | obj members => exact isFinite_of_mem_ofMembers hchange hjson
      | null | bool _ | int _ | real _ | str _ | arr _ =>
          simp [Change.items, LoadItem.ofData] at hjson

/-! ## What is added -/

theorem exists_loads_load (s : Store) (data : Json) :
    ∃ count fault, s.Loads (LoadItem.ofData data) (s.load data).1 count fault := by
  cases data with
  | obj members =>
      have hload := s.loads_loadMembers members
      rw [Store.load]
      generalize s.loadMembers members = result at hload ⊢
      obtain ⟨next, count, fault⟩ := result
      cases fault <;> exact ⟨_, _, hload⟩
  | null | bool _ | int _ | real _ | str _ | arr _ => exact ⟨0, _, .refused rfl []⟩

/-- A change adds its items up to the first that is refused. -/
theorem exists_loads_change (s : Store) (change : Change) :
    ∃ count fault, s.Loads change.items (s.change change) count fault := by
  cases change with
  | insert entity json =>
      rw [Store.change]
      cases hinsert : s.insert entity json with
      | ok next => exact ⟨1, none, .of_insert hinsert⟩
      | error fault =>
          have hitem : s.readItem (.row entity json) = .error fault := readRow_of_insert hinsert
          exact ⟨0, fault, .refused hitem []⟩
  | insertAll entity rows => exact ⟨_, _, s.loads_insertAll entity rows⟩
  | load data => exact s.exists_loads_load data

/-- What has been added of some items is what is read from them. -/
theorem Loads.grownBy_taken {count : Nat} {fault : Option StoreFault}
    (hload : s.Loads items next count fault) : s.GrownBy (s.taken items) next := by
  obtain ⟨before, after, added, rfl, hread, hgrown, -, hfault⟩ := hload
  -- nothing is read from the first item that is refused, and from those behind it
  have hafter : s.taken after = [] := by
    cases fault with
    | none =>
        obtain rfl : after = [] := hfault
        rfl
    | some fault =>
        obtain ⟨item, rest, rfl, hitem⟩ := hfault
        rw [taken, hitem]
  have htaken : s.taken (before ++ after) = added := by
    clear hgrown
    induction hread with
    | nil => exact hafter
    | cons hrow _ ih => rw [List.cons_append, taken, hrow, ih]
  rwa [htaken]

/-- What is read from some items does not depend on the rows that are there. -/
theorem GrownBy.taken_eq (hnext : s.GrownBy added next) (items : List LoadItem) :
    next.taken items = s.taken items := by
  induction items with
  | nil => rfl
  | cons item items ih => rw [taken, taken, hnext.readItem_eq, ih]

/-- A history adds what is read from each of its changes. -/
theorem grownBy_changeAll (s : Store) (changes : List Change) :
    s.GrownBy (changes.flatMap fun change => s.taken change.items) (s.changeAll changes) := by
  induction changes generalizing s with
  | nil => exact .refl s
  | cons change changes ih =>
      obtain ⟨count, fault, hload⟩ := s.exists_loads_change change
      have hfirst := hload.grownBy_taken
      have hrest := ih (s.change change)
      simp only [hfirst.taken_eq] at hrest
      exact hfirst.trans hrest

/-! ## Typed tables -/

/-- A row that is read from an item is read by the columns of its table. -/
theorem exists_of_readItem {item : LoadItem} {row : Row}
    (hrow : s.readItem item = .ok (name, row)) :
    ∃ entity json table, item = .row entity json ∧ s.tables.lookup name = some table ∧
      Row.ofJson table.columns json = .ok row := by
  cases item with
  | row entity json =>
      obtain ⟨found, -, hrow⟩ := Outcome.bind_eq_ok_iff.mp hrow
      obtain ⟨table, htable, hrow⟩ := Outcome.bind_eq_ok_iff.mp hrow
      obtain ⟨read, hread, hrow⟩ := Outcome.bind_eq_ok_iff.mp hrow
      obtain ⟨rfl, rfl⟩ := Prod.mk.inj (Except.ok.inj hrow)
      exact ⟨entity, json, table, rfl, table_eq_ok_iff.mp htable,
        Outcome.mapError_eq_ok_iff.mp hread⟩
  | noRows entity => simp [readItem] at hrow
  | noData => simp [readItem] at hrow

/-- Rows are read from items. -/
theorem exists_of_mem_taken {entry : String × Row} (hentry : entry ∈ s.taken items) :
    ∃ item ∈ items, s.readItem item = .ok entry := by
  induction items with
  | nil => simp [taken] at hentry
  | cons item items ih =>
      rw [taken] at hentry
      split at hentry
      · next first hfirst =>
        rcases List.mem_cons.mp hentry with rfl | hentry
        · exact ⟨item, List.mem_cons_self, hfirst⟩
        · obtain ⟨other, hother, h⟩ := ih hentry
          exact ⟨other, List.mem_cons_of_mem _ hother, h⟩
      · simp at hentry

theorem exists_of_lookup_ofCatalog {c : Catalog} (hs : ofCatalog c = .ok s) {table : Table}
    (htable : s.tables.lookup name = some table) :
    ∃ e ∈ c.entities, e.tableName = name ∧ ∃ columns, c.tableColumns e.name = .ok columns ∧
      table = .empty columns :=
  (of_lookup_foldlM_addEntity lookup_addEntity hs htable).resolve_right (by simp)

/-- Whatever changes are made to the empty tables of a catalog, and wherever they are cut short: a
table has the columns of an entity, no two of them of one name, and holds the rows that have been
read from the changes, in their order.  Each row has one value for every column, which is null or of
exactly the type of the column, no list, and finite if it is a floating-point number. -/
theorem typed_changeAll {c : Catalog} (hs : ofCatalog c = .ok s) {changes : List Change}
    (hfinite : ∀ change ∈ changes, change.isFinite = true) {table : Table}
    (htable : (s.changeAll changes).table name = .ok table) :
    (∃ e ∈ c.entities, e.tableName = name ∧ c.tableColumns e.name = .ok table.columns) ∧
      table.schema.names.Nodup ∧
      table.rows = rowsFor name (changes.flatMap fun change => s.taken change.items) ∧
      ∀ row ∈ table.rows, row.Typed table.schema ∧
        ∀ v ∈ row, v.isList = false ∧ ∀ x, v = .float64 x → Binary64.isFinite x = true := by
  have hgrown := s.grownBy_changeAll changes
  generalize hadded : (changes.flatMap fun change => s.taken change.items) = added at hgrown ⊢
  rw [table_eq_ok_iff, hgrown.tables, Option.map_eq_some_iff] at htable
  obtain ⟨first, hfirst, rfl⟩ := htable
  obtain ⟨e, he, hname, columns, hcolumns, rfl⟩ := exists_of_lookup_ofCatalog hs hfirst
  refine ⟨⟨e, he, hname, hcolumns⟩, ?_, rfl, fun row hrow => ?_⟩
  · rw [Table.names_schema]
    exact Catalog.nodup_columns hcolumns
  · -- the row has been read from a change by the columns of this table
    have hmem : (name, row) ∈ added := mem_rowsFor.mp hrow
    rw [← hadded, List.mem_flatMap] at hmem
    obtain ⟨change, hchange, hmem⟩ := hmem
    obtain ⟨item, hitem, hread⟩ := exists_of_mem_taken hmem
    obtain ⟨entity, json, table, rfl, htable, hjson⟩ := exists_of_readItem hread
    obtain rfl := Option.some.inj (hfirst.symm.trans htable)
    exact Row.typed_ofJson (Change.isFinite_of_mem_items (hfinite change hchange) hitem) hjson

end Store

/-- Stations and their readings, of which the degrees are stored under another name. -/
def Stations.catalog : Catalog where
  entities := [
    ⟨"Station", none, [], none, "id", [⟨"id", .scalar .int64⟩], [], []⟩,
    ⟨"Reading", none, [], none, "id",
      [⟨"id", .scalar .int64⟩, ⟨"station", .association "Station" (.toOne "station_id")⟩,
        ⟨"celsius", .scalar .float64⟩,
        ⟨"day", .scalar .date⟩],
      [("celsius", "degrees")], []⟩]
  fallback := none

/-- A data set that is refused in the middle of the readings, a row under names of columns, rows of
which the second has an unknown attribute, and a row for an entity that is not there. -/
def Stations.changes : List Store.Change := [
  .load (.obj [
    ("Station", .arr [.obj [("id", .int 1)]]),
    ("Reading",
      .arr [.obj [("id", .int 1), ("station", .obj [("id", .int 1)]), ("celsius", .int 3)],
      .obj [("id", .int 2), ("celsius", .str "cold")], .obj [("id", .int 3)]])]),
  .insert "Reading"
    (.obj [("id", .int 4), ("station_id", .int 1), ("degrees", .real (-0.5)),
      ("day", .str "2021-03-04T12:00:00")]),
  .insertAll "Reading" [.obj [("id", .int 5), ("day", .null)], .obj [("height", .int 2)]],
  .insert "Nobody" (.obj [])]

/-- Three readings are not refused, and they are typed. -/
theorem Store.typed_changeAll_stations :
    ∃ s table, Store.ofCatalog Stations.catalog = .ok s ∧
      (∀ change ∈ Stations.changes, change.isFinite = true) ∧
      (s.changeAll Stations.changes).table "Reading" = .ok table ∧
      table.schema = [⟨"id", .int64⟩, ⟨"station_id", .int64⟩, ⟨"degrees", .float64⟩,
        ⟨"day", .date⟩] ∧
      table.rows.length = 3 ∧ table.schema.names.Nodup ∧
      ∀ row ∈ table.rows, row.Typed table.schema ∧
        ∀ v ∈ row, v.isList = false ∧ ∀ x, v = .float64 x → Binary64.isFinite x = true := by
  have hstore : ∃ s table, Store.ofCatalog Stations.catalog = .ok s ∧
      (s.changeAll Stations.changes).table "Reading" = .ok table ∧
      table.schema = [⟨"id", .int64⟩, ⟨"station_id", .int64⟩, ⟨"degrees", .float64⟩,
        ⟨"day", .date⟩] ∧
      table.rows.length = 3 := ⟨_, _, rfl, rfl, rfl, rfl⟩
  obtain ⟨s, table, hs, htable, hschema, hlength⟩ := hstore
  have hfinite : ∀ change ∈ Stations.changes, change.isFinite = true := by decide
  obtain ⟨-, hnodup, -, hrows⟩ := Store.typed_changeAll hs hfinite htable
  exact ⟨s, table, hs, hfinite, htable, hschema, hlength, hnodup, hrows⟩

end EntityQuery
