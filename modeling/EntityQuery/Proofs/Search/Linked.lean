import EntityQuery.Proofs.Search.Entities
import EntityQuery.Proofs.Search.Fields
import EntityQuery.Proofs.Search.Nested

/-!
# Entities of rows

The entity of a row has the values of the row under the names of the attributes that are stored as
values of their own, and behind them an object for every association with one target: the values of
the row that the association leads to.

## Strategy

The fields of whole entities are those of own attributes, of the root and of the targets
(`mapM_of_scalarFields`, `mapM_of_nestedFields`), so the record of a row is known label by label.
Its labels come in blocks, as nesting wants them (`Rebuild.nested_eq_obj`).

## Main definitions

* `Store.linked` : the named values of the row that an association leads to

## Main statements

* `Search.entries_of_recordOf` : the record of a row
* `Search.entity_of_row` : the entity of a row
-/

namespace EntityQuery

variable {c : Catalog} {entities : List Entity} {fallback : Option ScalarType} {root : String}
  {store : Store} {e : Entity} {table : Table}

/-! ## Records of rows -/

theorem Planner.exists_join_nested (haccepted : Catalog.of entities fallback = .ok c)
    (hplain : c.Plain) {b : Attribute} (hb : b ∈ nestedAttributes c root) :
    ∃ target joinColumn j, b.type = .association target (.toOne joinColumn) ∧ c.Knows target ∧
      join c ⟨b.name, root, b.name, target, .toOne joinColumn⟩ = .ok j := by
  obtain ⟨hattribute, -, target, joinColumn, htype⟩ := mem_nestedAttributes hplain hb
  obtain ⟨j, hj⟩ := exists_join_toOne haccepted hplain hattribute htype
  exact ⟨target, joinColumn, j, htype,
    Catalog.knows_target haccepted hplain.attributes hattribute htype, hj⟩

namespace Store

/-- The named values of the row that an association with one target leads to. -/
def linked (s : Store) (c : Catalog) (root : String) (schema : Schema) (row : Row) (b : Attribute) :
    List (String × Value) :=
  match b.type with
  | .association target cardinality =>
    match Planner.join c ⟨b.name, root, b.name, target, cardinality⟩ with
    | .ok j => (c.ownAttributes target).map fun a =>
      (a.name, (s.target j schema row).cell (s.tableNamed j.table).schema.names
        (c.columnName target a.name))
    | .error _ => []
  | _ => []

theorem linked_eq {b : Attribute} {target : String} {cardinality : Cardinality}
    (htype : b.type = .association target cardinality) {j : Join}
    (hj : Planner.join c ⟨b.name, root, b.name, target, cardinality⟩ = .ok j) (schema : Schema)
    (row : Row) :
    store.linked c root schema row b = (c.ownAttributes target).map fun a =>
      (a.name, (store.target j schema row).cell (store.tableNamed j.table).schema.names
        (c.columnName target a.name)) := by
  simp [linked, htype, hj]

end Store

theorem Catalog.column_of_field {path : Path} {f : Field} (hf : c.field root path = .ok f) :
    f.column = c.columnName f.owner path.field := by
  obtain ⟨joins, owner, a, kind, -, -, -, rfl⟩ := Catalog.field_eq_ok_iff.mp hf
  rfl

/-- The record of a row: its own values, and behind them those of the rows that its associations
lead to. -/
theorem Search.entries_of_recordOf {search : Search}
    (haccepted : Catalog.of entities fallback = .ok search.catalog) (hplain : search.catalog.Plain)
    (he : search.catalog.entity? search.root = some e)
    (htable : store.table e.tableName = .ok table) {row : Row} {r : Record}
    (hrecord : search.recordOf store row = .ok r) :
    r.entries =
      ((search.catalog.ownAttributes search.root).map fun a =>
        (a.name, row.cell table.schema.names (search.catalog.columnName search.root a.name))).map
          (fun m => (e.rootPath ++ "." ++ Path.dotted [m.1], m.2)) ++
      ((Planner.nestedAttributes search.catalog search.root).map fun b =>
        (b.name, store.linked search.catalog search.root table.schema row b)).flatMap
          fun b => b.2.map fun m => (e.rootPath ++ "." ++ Path.dotted [b.1, m.1], m.2) := by
  -- a record is made of the labels and the values of the fields of the root and of its associations
  obtain ⟨found, hfound, hrecord⟩ := Outcome.bind_eq_ok_iff.mp hrecord
  obtain rfl : e = found := Option.some.inj (he.symm.trans (Catalog.knows_of_entity hfound))
  obtain ⟨fields, hfields, hrecord⟩ := Outcome.bind_eq_ok_iff.mp hrecord
  obtain ⟨values, hvalues, hrecord⟩ := Outcome.bind_eq_ok_iff.mp hrecord
  obtain rfl := Except.ok.inj hrecord
  obtain ⟨own, hown, hfields⟩ := Outcome.bind_eq_ok_iff.mp hfields
  obtain ⟨lists, hlists, hfields⟩ := Outcome.bind_eq_ok_iff.mp hfields
  obtain rfl := Except.ok.inj hfields
  rw [Store.table_eq_ok htable] at hvalues
  set value : Field → Value := fun f =>
    (store.valueOf search.catalog table.schema row f).toOption.getD .null with hvalue
  obtain rfl : values = (own ++ lists.flatten).map value := by
    refine Except.ok.inj (hvalues.symm.trans (Outcome.mapM_eq_ok_map fun f hf => ?_))
    obtain ⟨v, -, hv⟩ := Outcome.exists_mem_of_mapM hvalues hf
    rw [hv, hvalue]
    dsimp only
    rw [hv]
    rfl
  have hentries : (Record.zip ((own ++ lists.flatten).map (Planner.entityLabel e.rootPath))
      ((own ++ lists.flatten).map value)).entries =
      (own ++ lists.flatten).map fun f => (Planner.entityLabel e.rootPath f, value f) :=
        List.zip_map' ..
  rw [hentries, List.map_append, List.map_map, List.map_flatten, ← List.flatMap_def,
    List.flatMap_map]
  congr 1
  · -- the root is not joined
    refine Outcome.map_of_mapM (fun a _ {f} hf => ?_)
      (Planner.mapM_of_scalarFields hplain.attributes hown)
    obtain ⟨hjoins, -, hcolumn⟩ := Planner.joins_of_single hf
    have hpath := Catalog.path_of_field hf
    simp [hvalue, Store.valueOf, hjoins, hcolumn, Planner.entityLabel, hpath, Path.single,
      Path.text, Path.names, Except.toOption]
  -- the fields behind an association are those of its target, joined to the row
  · rw [List.flatMap_def, List.flatMap_def]
    congr 1
    refine Outcome.map_of_mapM (fun b hb {list} hlist => ?_) hlists
    obtain ⟨target, joinColumn, j, htype, -, hj⟩ := Planner.exists_join_nested haccepted hplain hb
    rw [Store.linked_eq htype hj, List.map_map]
    refine Outcome.map_of_mapM (fun a _ {f} hf => ?_)
      (Planner.mapM_of_nestedFields hb htype hplain hlist)
    obtain ⟨found, column, hfoundType, howner, hjoins⟩ := Planner.joins_of_child hplain hb hf
    obtain ⟨rfl, hcardinality⟩ := AttributeType.association.inj (htype.symm.trans hfoundType)
    obtain rfl := Cardinality.toOne.inj hcardinality
    have hpath := Catalog.path_of_field hf
    have hcolumn := Catalog.column_of_field hf
    simp [hvalue, Store.valueOf, hjoins, hj, hcolumn, howner, Planner.entityLabel, hpath,
      Path.child, Path.single, Path.text, Path.names, Except.toOption]

/-! ## Entities of rows -/

theorem Store.exists_names_linked (haccepted : Catalog.of entities fallback = .ok c)
    (hplain : c.Plain) (s : Store) {b : Attribute} (hb : b ∈ Planner.nestedAttributes c root)
    (schema : Schema) (row : Row) :
    ∃ target, c.Knows target ∧
      (s.linked c root schema row b).map Prod.fst =
        (c.ownAttributes target).map Attribute.name := by
  obtain ⟨target, joinColumn, j, htype, htarget, hj⟩ :=
    Planner.exists_join_nested haccepted hplain hb
  refine ⟨target, htarget, ?_⟩
  rw [linked_eq htype hj, List.map_map]
  rfl

/-- The entity of a row: its own values, and what its associations lead to. -/
theorem Search.entity_of_row {search : Search}
    (haccepted : Catalog.of entities fallback = .ok search.catalog) (hplain : search.catalog.Plain)
    (he : search.catalog.entity? search.root = some e)
    (hrebuilder : search.rebuilder = .nested e.rootPath)
    (htable : store.table e.tableName = .ok table) {row : Row} {shown : Json}
    (hshown : search.entityOf store row = .ok shown) :
    shown = .obj (Rebuild.written ((search.catalog.ownAttributes search.root).map fun a =>
        (a.name, row.cell table.schema.names (search.catalog.columnName search.root a.name))) ++
      (Planner.nestedAttributes search.catalog search.root).map fun b =>
        (b.name, Rebuild.block (store.linked search.catalog search.root table.schema row b))) := by
  obtain ⟨r, hr, hshown⟩ := Outcome.bind_eq_ok_iff.mp hshown
  have hentries := entries_of_recordOf haccepted hplain he htable hr
  rw [hrebuilder] at hshown
  rw [← Except.ok.inj hshown]
  -- names hold no point, and no name comes twice
  refine (Rebuild.nested_eq_obj hentries ?_ ?_ ?_ ?_).trans ?_
  · rw [List.forall_mem_map]
    exact fun a ha => Catalog.dotless_of_visible hplain (List.mem_of_mem_filter ha)
  · rw [List.forall_mem_map]
    intro b hb
    obtain ⟨target, -, hlinked⟩ := store.exists_names_linked haccepted hplain hb table.schema row
    refine ⟨Catalog.dotless_of_visible hplain (List.mem_of_mem_filter hb), fun m hm => ?_⟩
    have hm := List.mem_map_of_mem (f := Prod.fst) hm
    rw [hlinked] at hm
    obtain ⟨a, ha, hname⟩ := List.mem_map.mp hm
    exact hname ▸ Catalog.dotless_of_visible hplain (List.mem_of_mem_filter ha)
  · have hperm := (search.catalog.ownAttributes_append_perm search.root).map Attribute.name
    rw [List.map_append] at hperm
    simpa [Function.comp_def]
      using hperm.nodup_iff.mpr (search.catalog.nodup_shownAttributes search.root)
  · rw [List.forall_mem_map]
    intro b hb
    obtain ⟨target, htarget, hlinked⟩ :=
      store.exists_names_linked haccepted hplain hb table.schema row
    refine ⟨fun hnil => ?_, hlinked ▸ search.catalog.nodup_ownAttributes target⟩
    -- the identifier of the target is among its attributes
    obtain ⟨type, htype⟩ := Catalog.exists_idType haccepted htarget
    obtain ⟨id, hid⟩ := Catalog.exists_idAttribute_of_knows haccepted htarget
    have hmem := Catalog.mem_ownAttributes_of_idAttribute hplain.attributes htype hid
    dsimp only at hnil
    rw [hnil, List.map_nil, eq_comm, List.map_eq_nil_iff] at hlinked
    simp [hlinked] at hmem
  · rw [List.map_map]
    rfl

end EntityQuery
