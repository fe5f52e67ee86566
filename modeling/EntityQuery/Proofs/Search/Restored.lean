import EntityQuery.Proofs.Search.Linked
import EntityQuery.Proofs.Store.Inserted
import Mathlib.Data.List.Find

/-!
# What has been given is what a search returns

Rows are given as JSON objects and come back as JSON objects.  On the way in, values are read in the
types of the attributes and put into the columns of a table; on the way out they are joined,
projected under dotted labels, and nested again.  Column overrides, inherited attributes and join
columns have to mean the same on both ways.

What comes back can be told from what has been given: every attribute that is shown has the value
that was given for it, and an association with one target has the object of the row whose identifier
was given, or null if there is none.  An object of the target is never pruned, since its identifier
is not null.

## Strategy

The tables hold what has been given (`Store.Holds`), so the row that an association leads to is the
one that is read from the first object with this identifier (`exists_target`).  What is shown of a
row (`Search.entity_of_row`) is therefore what is shown of the object (`shownOf?_own`,
`shownOf?_nested`).  The rows themselves come in the order of their identifiers, each once
(`Search.exists_run`).

## Main definitions

* `Inserts.shownOf?` : what a row shows for an attribute, told from all that has been given
* `Inserts.Restores` : an object that shows just this
* `Catalog.Precedes` : the order of what has been given by the identifiers

## Main statements

* `restores_of_entityOf` : the entity of a row restores what the row was read from
* `Search.run_inserted` : a search for all entities restores all that has been given for the root
-/

namespace EntityQuery

variable {c : Catalog} {entities : List Entity} {fallback : Option ScalarType} {root : String}
  {inserts : Inserts} {store : Store} {e : Entity} {table : Table}

/-! ## What rows show -/

/-- The named values of the own attributes of a row given as JSON. -/
def Catalog.valuesIn? (c : Catalog) (entity : String) (row : Json) :
    Option (List (String × Value)) :=
  (c.ownAttributes entity).mapM fun a => (c.valueIn? entity a row).map fun v => (a.name, v)

namespace Inserts

/-- The first row given for an entity whose identifier meets a key. -/
def find? (inserts : Inserts) (c : Catalog) (entity : String) (key : Value) : Option Json :=
  (inserts.rows entity).find? fun row => (c.idIn? entity row).any key.meets

/-- What a row shows under the name of an attribute.  An association with one target shows the
object of the row with the identifier that is stored, null if there is no such row; every other
attribute shows its value. -/
def shownOf? (inserts : Inserts) (c : Catalog) (entity : String) (row : Json) (a : Attribute) :
    Option Json :=
  match a.type, c.override? entity a.name with
  | .association target _, none => do
    match inserts.find? c target (← c.valueIn? entity a row) with
    | some other => return .obj (Rebuild.written (← c.valuesIn? target other))
    | none => return .null
  | _, _ => (c.valueIn? entity a row).map Value.toJson

/-- An object restores a row: it has a member for every attribute that is shown, with what the row
shows under the name of the attribute, and no other members. -/
def Restores (inserts : Inserts) (c : Catalog) (entity : String) (row shown : Json) : Prop :=
  ∃ members, shown = .obj members ∧
    (members.map Prod.fst).Perm ((c.shownAttributes entity).map Attribute.name) ∧
    ∀ a ∈ c.shownAttributes entity, ∃ json, inserts.shownOf? c entity row a = some json ∧
      Json.member? a.name members = some json

end Inserts

/-- The identifier in one row given as JSON is less than that in another. -/
def Catalog.Precedes (c : Catalog) (entity : String) (first second : Json) : Prop :=
  ∃ a b, c.idIn? entity first = some a ∧ c.idIn? entity second = some b ∧ a.compare? b = some .lt

/-! ## Rows that have been given -/

theorem Planner.leftKey_of_join {name target joinColumn : String} (hname : Path.Dotless name)
    {j : Join} (hj : join c ⟨name, root, name, target, .toOne joinColumn⟩ = .ok j) :
    j.leftKey = joinColumn := by
  have hnames : ∀ n ∈ [] ++ [name], Path.Dotless n := by simpa using hname
  obtain ⟨id, -, hleft, -⟩ := keys_of_toOne hj
  rw [hleft]
  simpa using Path.qualified_beforeLast? hnames joinColumn

namespace Catalog

variable {json : Json} {row : Row}

section
variable (hplain : c.Plain) (hcolumns : c.tableColumns root = .ok table.columns)
  (hrow : Row.ofJson table.columns json = .ok row)
include hplain hcolumns hrow

theorem valueIn?_of_isOwn {a : Attribute} (ha : a ∈ c.ownAttributes root) :
    c.valueIn? root a json = some (row.cell table.schema.names (c.columnName root a.name)) := by
  obtain ⟨hvisible, hown⟩ := List.mem_filter.mp ha
  have ha := visible_of_mem hplain.attributes hvisible
  exact valueIn?_of_ofJson hplain hcolumns ha (physicalColumn?_of_isOwn hown) hrow

theorem valuesIn?_of_ofJson : c.valuesIn? root json = some ((c.ownAttributes root).map fun a =>
    (a.name, row.cell table.schema.names (c.columnName root a.name))) := by
  refine Outcome.mapM_eq_some_map fun a ha => ?_
  rw [valueIn?_of_isOwn hplain hcolumns hrow ha]
  rfl

theorem idIn?_of_ofJson {type : ScalarType} (htype : c.idType root = .ok type) {id : Attribute}
    (hid : c.idAttribute root = .ok id) :
    c.idIn? root json = some (row.cell table.schema.names (c.columnName root id.name)) := by
  rw [idIn?, hid]
  exact valueIn?_of_isOwn hplain hcolumns hrow
    (mem_ownAttributes_of_idAttribute hplain.attributes htype hid)

end

end Catalog

namespace Store.Holds

variable (hholds : store.Holds c inserts)
include hholds

theorem exists_read (he : c.entity? root = some e) :
    ∃ (table : Table) (read : Json → Row), store.table e.tableName = .ok table ∧
      c.tableColumns root = .ok table.columns ∧ table.rows = (inserts.rows root).map read ∧
      ∀ json ∈ inserts.rows root, Row.ofJson table.columns json = .ok (read json) := by
  obtain ⟨hmem, rfl⟩ := Catalog.mem_of_entity? he
  obtain ⟨table, hlookup, hcolumns, hrows⟩ := hholds.tables e hmem
  have : Nonempty Row := ⟨[]⟩
  obtain ⟨read, hread, hmap⟩ := Outcome.exists_map_of_mapM hrows
  exact ⟨table, read, table_eq_ok_iff.mpr hlookup, hcolumns, hmap, hread⟩

/-- A join with one target leads to the first row given for the target whose identifier meets the
key. -/
theorem exists_target (haccepted : Catalog.of entities fallback = .ok c) (hplain : c.Plain)
    {step : JoinStep} {j : Join} (hj : Planner.join c step = .ok j) (htoOne : j.toMany = false)
    (schema : Schema) (row : Row) :
    ∃ table, store.tableNamed j.table = table ∧ c.tableColumns step.target = .ok table.columns ∧
      match inserts.find? c step.target (row.cell schema.names j.leftKey) with
      | some other => other ∈ inserts.rows step.target ∧
          Row.ofJson table.columns other = .ok (store.target j schema row)
      | none => store.target j schema row = List.replicate table.schema.length .null := by
  obtain ⟨id, e, hid, he, hname, hkey⟩ := Planner.exists_of_join_toOne hj htoOne
  obtain ⟨type, htype⟩ := Catalog.exists_idType haccepted ⟨e, he⟩
  obtain ⟨table, read, htable, hcolumns, hrows, hread⟩ := hholds.exists_read he
  have hnamed : store.tableNamed j.table = table := hname ▸ table_eq_ok htable
  refine ⟨table, hnamed, hcolumns, ?_⟩
  -- looking for the identifier among what was given is looking for the key among the rows read of
  -- it
  have hfind : inserts.find? c step.target (row.cell schema.names j.leftKey) =
      (inserts.rows step.target).find? fun json =>
        (row.cell schema.names j.leftKey).meets
          ((read json).cell table.schema.names j.rightKey) := by
    refine List.find?_congr fun json hjson => ?_
    rw [Catalog.idIn?_of_ofJson hplain hcolumns (hread json hjson) htype hid, Option.any_some, hkey]
  have htarget : store.target j schema row =
      ((inserts.find? c step.target (row.cell schema.names j.leftKey)).map read).getD
        (List.replicate table.schema.length .null) := by
    rw [hfind, target, hnamed, hrows, List.find?_map]
    rfl
  cases hfound : inserts.find? c step.target (row.cell schema.names j.leftKey) with
  | none =>
      rw [htarget, hfound]
      rfl
  | some other =>
      have hmem : other ∈ inserts.rows step.target := List.mem_of_find?_eq_some hfound
      rw [htarget, hfound]
      exact ⟨hmem, hread other hmem⟩

end Store.Holds

/-! ## Rows that are restored -/

namespace Inserts

theorem find?_eq_some {entity : String} {key : Value} {row : Json}
    (hrow : inserts.find? c entity key = some row) :
    ∃ id, c.idIn? entity row = some id ∧ id.isNull = false := by
  have hmeets := List.find?_some hrow
  obtain ⟨id, hid, hmeets⟩ := (Option.any_eq_true ..).mp hmeets
  refine ⟨id, hid, ?_⟩
  rw [Value.meets, Bool.and_eq_true, Bool.and_eq_true] at hmeets
  simpa using hmeets.1.2

section
variable (haccepted : Catalog.of entities fallback = .ok c) (hplain : c.Plain)
  (hholds : store.Holds c inserts) (hfinite : ∀ i ∈ inserts, i.2.isFinite = true)
  (hcolumns : c.tableColumns root = .ok table.columns) {json : Json} {row : Row}
  (hrow : Row.ofJson table.columns json = .ok row)
include hplain hcolumns hrow

/-- The values of a row make an object, if its identifier is not null. -/
theorem block_of_ofJson (haccepted : Catalog.of entities fallback = .ok c) (hroot : c.Knows root)
    (hjson : json.isFinite = true) {v : Value} (hv : c.idIn? root json = some v)
    (hnull : v.isNull = false) {values : List (String × Value)}
    (hvalues : c.valuesIn? root json = some values) :
    Rebuild.block values = .obj (Rebuild.written values) := by
  obtain ⟨type, htype⟩ := Catalog.exists_idType haccepted hroot
  obtain ⟨id, hid⟩ := Catalog.exists_idAttribute_of_knows haccepted hroot
  have hown := Catalog.mem_ownAttributes_of_idAttribute hplain.attributes htype hid
  rw [Catalog.idIn?_of_ofJson hplain hcolumns hrow htype hid] at hv
  obtain rfl := Option.some.inj hv
  rw [Catalog.valuesIn?_of_ofJson hplain hcolumns hrow] at hvalues
  obtain rfl := Option.some.inj hvalues
  -- the identifier is one of the values, and is not written as null
  have hvalue := Catalog.valueIn?_of_isOwn hplain hcolumns hrow hown
  have hshown := Catalog.isNull_toJson_of_valueIn? hjson hvalue
  exact Rebuild.block_eq_obj (List.mem_map_of_mem hown) (hshown.trans hnull)

/-- What a row shows for an attribute of its own. -/
theorem shownOf?_own {a : Attribute} (ha : a ∈ c.ownAttributes root) :
    inserts.shownOf? c root json a =
      some (row.cell table.schema.names (c.columnName root a.name)).toJson := by
  have hvalue := Catalog.valueIn?_of_isOwn hplain hcolumns hrow ha
  have hown := (List.mem_filter.mp ha).2
  unfold shownOf?
  unfold Catalog.isOwn at hown
  split
  · next htype hoverride => simp [htype, hoverride] at hown
  · rw [hvalue]
    rfl

include haccepted hholds hfinite in
/-- What a row shows for an association with one target. -/
theorem shownOf?_nested {b : Attribute} (hb : b ∈ Planner.nestedAttributes c root) :
    inserts.shownOf? c root json b =
      some (Rebuild.block (store.linked c root table.schema row b)) := by
  obtain ⟨target, joinColumn, j, htype, htarget, hj⟩ :=
    Planner.exists_join_nested haccepted hplain hb
  obtain ⟨hattribute, hoverride, -⟩ := Planner.mem_nestedAttributes hplain hb
  have hphysical : c.physicalColumn? root b = some joinColumn := by
    simp [Catalog.physicalColumn?, hoverride, htype]
  have hkey := Catalog.valueIn?_of_ofJson hplain hcolumns hattribute hphysical hrow
  have hleft := Planner.leftKey_of_join (Catalog.dotless_of_attribute? hplain.names hattribute) hj
  obtain ⟨other, hnamed, hothers, hfound⟩ :=
    hholds.exists_target haccepted hplain hj (Planner.toMany_of_join hj rfl) table.schema row
  rw [hleft] at hfound
  unfold shownOf?
  rw [htype, hoverride]
  dsimp only
  rw [hkey, Store.linked_eq htype hj, hnamed]
  dsimp only [Option.bind_eq_bind, Option.bind_some]
  -- the linked row was given for the target, or all its cells are null and it is pruned
  cases hlinked : inserts.find? c target (row.cell table.schema.names joinColumn) with
  | none =>
      rw [hlinked] at hfound
      dsimp only at hfound ⊢
      rw [hfound, Rebuild.block_eq_null]
      · rfl
      · rw [List.forall_mem_map]
        exact fun a _ => Row.cell_nulls _ _ _
  | some linked =>
      rw [hlinked] at hfound
      obtain ⟨hmem, hread⟩ := hfound
      have hvalues := Catalog.valuesIn?_of_ofJson hplain hothers hread
      obtain ⟨v, hv, hnull⟩ := find?_eq_some hlinked
      dsimp only
      rw [block_of_ofJson hplain hothers hread haccepted htarget
        (isFinite_of_mem_rows hfinite hmem) hv hnull hvalues, hvalues]
      rfl

end

/-- The entity of a row restores what the row was read from. -/
theorem restores_of_entityOf {search : Search}
    (haccepted : Catalog.of entities fallback = .ok search.catalog) (hplain : search.catalog.Plain)
    (hholds : store.Holds search.catalog inserts) (hfinite : ∀ i ∈ inserts, i.2.isFinite = true)
    (he : search.catalog.entity? search.root = some e)
    (hrebuilder : search.rebuilder = .nested e.rootPath)
    (htable : store.table e.tableName = .ok table)
    (hcolumns : search.catalog.tableColumns search.root = .ok table.columns) {json : Json}
    {row : Row} (hrow : Row.ofJson table.columns json = .ok row) {shown : Json}
    (hshown : search.entityOf store row = .ok shown) :
    inserts.Restores search.catalog search.root json shown := by
  have hperm := search.catalog.ownAttributes_append_perm search.root
  refine ⟨_, Search.entity_of_row haccepted hplain he hrebuilder htable hshown, ?_⟩
  set own := (search.catalog.ownAttributes search.root).map fun a =>
    (a.name, row.cell table.schema.names (search.catalog.columnName search.root a.name)) with hown
  set nested := (Planner.nestedAttributes search.catalog search.root).map fun b =>
    (b.name,
      Rebuild.block (store.linked search.catalog search.root table.schema row b)) with hnested
  have hnames : ((Rebuild.written own ++ nested).map Prod.fst).Perm
      ((search.catalog.shownAttributes search.root).map Attribute.name) := by
    have h := hperm.map Attribute.name
    rw [List.map_append] at h ⊢
    simpa [hown, hnested, Function.comp_def] using h
  have hnodup := hnames.nodup_iff.mpr (search.catalog.nodup_shownAttributes search.root)
  refine ⟨hnames, fun a ha => ?_⟩
  rcases List.mem_append.mp (hperm.mem_iff.mpr ha) with ha | ha
  · refine ⟨_, shownOf?_own hplain hcolumns hrow ha,
      Keyed.lookup_of_mem hnodup (List.mem_append_left _ ?_)⟩
    exact List.mem_map_of_mem (List.mem_map_of_mem ha)
  · refine ⟨_, shownOf?_nested haccepted hplain hholds hfinite hcolumns hrow ha,
      Keyed.lookup_of_mem hnodup (List.mem_append_right _ ?_)⟩
    exact List.mem_map_of_mem ha

end Inserts

/-! ## Searches for all entities -/

namespace Search

variable {start : Store}

theorem matching_all {search : Search} (he : search.catalog.entity? search.root = some e)
    (htable : store.table e.tableName = .ok table) {rows : List Row}
    (hrows : search.matching store .all = .ok rows) : rows = table.rows := by
  obtain ⟨found, joins, hfound, hjoins, rfl⟩ := exists_of_matching hrows
  obtain rfl : e = found := Option.some.inj (he.symm.trans hfound)
  obtain rfl : [] = joins := Except.ok.inj hjoins
  rw [Store.table_eq_ok htable, List.filter_eq_self]
  intro row _
  rfl

/-- The identifier of a row is that in what the row was read from. -/
theorem idIn?_of_idOf {search : Search}
    (haccepted : Catalog.of entities fallback = .ok search.catalog) (hplain : search.catalog.Plain)
    (he : search.catalog.entity? search.root = some e)
    (htable : store.table e.tableName = .ok table)
    (hcolumns : search.catalog.tableColumns search.root = .ok table.columns) {json : Json}
    {row : Row} (hrow : Row.ofJson table.columns json = .ok row) {v : Value}
    (hv : search.idOf store row = .ok v) : search.catalog.idIn? search.root json = some v := by
  obtain ⟨found, hfound, hv⟩ := Outcome.bind_eq_ok_iff.mp hv
  obtain rfl : e = found := Option.some.inj (he.symm.trans (Catalog.knows_of_entity hfound))
  obtain ⟨id, hid, hv⟩ := Outcome.bind_eq_ok_iff.mp hv
  obtain ⟨type, htype⟩ := Catalog.exists_idType haccepted ⟨e, he⟩
  rw [Store.table_eq_ok htable] at hv
  rw [Catalog.idIn?_of_ofJson hplain hcolumns hrow htype hid, Except.ok.inj hv]

/-- What has been given is what a search returns.  After rows have been added to the empty tables of
a catalog, so that the identifiers of all tables are not null and differ, a search for all entities
returns one object for every row that has been given for the root, in the order of the identifiers,
and every object restores its row. -/
theorem run_inserted (haccepted : Catalog.of entities fallback = .ok c) (hplain : c.Plain)
    (hstart : Store.ofCatalog c = .ok start) (hinserted : start.insertEach inserts = .ok store)
    (hfinite : ∀ i ∈ inserts, i.2.isFinite = true) (hidentified : store.Identified c)
    (hroot : c.Knows root) :
    ∃ (search : Search) (ordered shown : List Json), forEntity c root = .ok search ∧
      (search.run store .all .never).1 = .ok ⟨.entities shown, none⟩ ∧
      ordered.Perm (inserts.rows root) ∧ ordered.Pairwise (c.Precedes root) ∧
      List.Forall₂ (inserts.Restores c root) ordered shown := by
  obtain ⟨e, he⟩ := hroot
  set search : Search := ⟨c, root, .default, .none, .nested e.rootPath⟩ with hsearch
  have hholds := Store.holds_of_insertEach haccepted hplain hstart hinserted
  have hfilled := Store.filled_of_insertEach (.empty hstart) hfinite hinserted
  obtain ⟨table, read, htable, hcolumns, hrows, hread⟩ := hholds.exists_read he
  have hsound : Request.all.Sound c root := ⟨by simp [Request.all], by simp [Request.all]⟩
  obtain ⟨planned, hplan⟩ : ∃ planned, search.planFor .all none = .ok planned :=
    exists_planFor_all haccepted hplain ⟨e, he⟩
  obtain ⟨matching, rows, found, hmatching, hperm, hascend, hfound, hrun⟩ :=
    exists_run haccepted hplain hfilled hidentified rfl hsound rfl rfl rfl hplan
  -- the rows of the root stand for what has been given, in the order of the rows
  rw [matching_all he htable hmatching, hrows] at hperm
  obtain ⟨ordered, rfl, hordered⟩ :=
    (congrFun₂ (List.eq_map_comp_perm read) rows (inserts.rows root)).mpr hperm
  have hofJson (json : Json) (hjson : json ∈ ordered) :
      Row.ofJson table.columns json = .ok (read json) :=
    hread json (hordered.mem_iff.mp hjson)
  refine ⟨search, ordered, found, by simp [forEntity, Catalog.entity, he, hsearch], hrun, hordered,
    ?_, ?_⟩
  · rw [List.pairwise_map] at hascend
    refine hascend.imp_of_mem fun {first second} hfirst hsecond => ?_
    rintro ⟨a, b, ha, hb, hlt⟩
    have hid {json : Json} (hjson : json ∈ ordered) {v : Value}
        (hv : search.idOf store (read json) = .ok v) :
        c.idIn? root json = some v :=
      idIn?_of_idOf haccepted hplain he htable hcolumns (hofJson json hjson) hv
    exact ⟨a, b, hid hfirst ha, hid hsecond hb, hlt⟩
  · rw [Outcome.mapM_eq_ok_iff, List.forall₂_map_left_iff] at hfound
    have hall := (List.forall₂_and_left ..).mpr ⟨hofJson, hfound⟩
    exact hall.imp fun {json shown} h =>
      Inserts.restores_of_entityOf haccepted hplain hholds hfinite he rfl htable hcolumns h.1 h.2

end Search

/-- An author with a book, and a book of an author who is not there. -/
def Shelf.given : Inserts := [
  ("Book", .obj [("id", .int 2), ("title", .str "El Aleph"), ("author", .int 1)]),
  ("Author", .obj [("id", .int 1), ("name", .str "Borges")]),
  ("Book", .obj [("id", .int 1), ("title", .str "Cosmicomics"), ("author_id", .int 7)])]

/-- Both books are returned, in the order of their identifiers. -/
theorem Search.run_inserted_shelf :
    ∃ start store search ordered shown, Store.ofCatalog Shelf.catalog = .ok start ∧
      start.insertEach Shelf.given = .ok store ∧
      Search.forEntity Shelf.catalog "Book" = .ok search ∧
      (search.run store .all .never).1 = .ok ⟨.entities shown, none⟩ ∧
      ordered.Perm (Shelf.given.rows "Book") ∧ ordered.Pairwise (Shelf.catalog.Precedes "Book") ∧
      List.Forall₂ (Shelf.given.Restores Shelf.catalog "Book") ordered shown ∧
      shown.length = 2 := by
  have hadded : ∃ start store, Store.ofCatalog Shelf.catalog = .ok start ∧
      start.insertEach Shelf.given = .ok store ∧ store.Identified Shelf.catalog :=
        ⟨_, _, rfl, rfl, by decide⟩
  obtain ⟨start, store, hstart, hinserted, hidentified⟩ := hadded
  have haccepted : Catalog.of Shelf.catalog.entities none = .ok Shelf.catalog := rfl
  have hbooks : Shelf.catalog.Knows "Book" := ⟨_, rfl⟩
  obtain ⟨search, ordered, shown, hsearch, hrun, hperm, hascend, hrestores⟩ :=
    Search.run_inserted haccepted (by decide) hstart hinserted (by decide) hidentified hbooks
  have hlength : shown.length = 2 := by
    rw [← hrestores.length_eq, hperm.length_eq]
    rfl
  exact ⟨start, store, search, ordered, shown, hstart, hinserted, hsearch, hrun, hperm, hascend,
    hrestores, hlength⟩

/-- A book shows its author. -/
example :
    Shelf.given.shownOf? Shelf.catalog "Book"
      (.obj [("id", .int 2), ("title", .str "El Aleph"), ("author", .int 1)])
      ⟨"author", .association "Author" (.toOne "author_id")⟩ =
        some (.obj [("id", .int 1), ("name", .str "Borges")]) := rfl

end EntityQuery
