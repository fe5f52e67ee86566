import EntityQuery.Proofs.Search.Source
import EntityQuery.Proofs.Store.Identified

/-!
# Records of whole entities

The record of a row of the root has its own values and those of the rows that its associations with
one target lead to.  All rows that joins make of the row agree with it in the columns that are
shown, whichever other associations are joined: so what is shown depends on the row of the root
alone.

The proof is by induction on closed joins.  A join behind the one of an association leaves the
values of its target as they are; the join itself adds the only row that it leads to.

## Main definitions

* `Store.valueOf` : the value of a field of a whole entity
* `Search.recordOf`, `Search.entityOf` : the record of a row of the root, and its entity

## Main statements

* `valueOf_eq_cell` : what is shown depends on the row of the root alone
-/

namespace EntityQuery

variable {c : Catalog} {entities : List Entity} {fallback : Option ScalarType}
  {root : String} {s : Store} {e : Entity} {table : Table}

/-! ## Records -/

/-- The value of a field of a whole entity: the one in the row of the root, or in the row that its
join leads to. -/
def Store.valueOf (c : Catalog) (s : Store) (schema : Schema) (row : Row) (f : Field) :
    Except SearchFault Value :=
  match f.joins with
  | [] => return row.cell schema.names f.column
  | step :: _ => do
    let j ← Planner.join c step
    return (s.target j schema row).cell (s.tableNamed j.table).schema.names f.column

/-- The record of a row of the root: the values of the fields that are shown of whole entities,
under their labels. -/
def Search.recordOf (search : Search) (store : Store) (row : Row) : Except SearchFault Record := do
  let e ← search.catalog.entity search.root
  let fields ← Planner.entityFields search.catalog search.root
  let values ← fields.mapM (store.valueOf search.catalog (store.tableNamed e.tableName).schema row)
  return .zip (fields.map (Planner.entityLabel e.rootPath)) values

/-- The entity of a row of the root: what is made of its record. -/
def Search.entityOf (search : Search) (store : Store) (row : Row) : Except SearchFault Json := do
  return search.rebuilder.build (← search.recordOf store row)

namespace Store

/-- The values of some fields in a row of the root. -/
def valuesOf (c : Catalog) (s : Store) (schema : Schema) (fields : List Field) (row : Row) : Row :=
  (fields.mapM (s.valueOf c schema row)).toOption.getD []

/-! ## Values of joined rows -/

theorem cell_of_root {joins : List Join} {schema : Schema} {row expanded : Row}
    (hwidth : row.length = schema.length) (hexpanded : expanded ∈ s.expand joins schema row)
    {column : String} (hcolumn : column ∈ schema.names) :
    expanded.cell (s.joinedSchema joins schema).names column = row.cell schema.names column := by
  obtain ⟨tail, rfl⟩ := exists_append_of_mem_expand hexpanded
  obtain ⟨rest, hrest⟩ := exists_append_joinedSchema (s := s) joins schema
  rw [hrest]
  exact Row.cell_append_left hwidth hcolumn rest tail

/-- A join with one target that continues from a row of the root adds the row that it leads to from
there. -/
theorem cell_of_extend (haccepted : Catalog.of entities fallback = .ok c) (hplain : c.Plain)
    (hfits : s.Fits c) (hidentified : s.Identified c) {step : JoinStep} {j : Join}
    (hj : Planner.join c step = .ok j) (htoOne : j.toMany = false) {schema joined : Schema}
    {row before expanded : Row} (hwidth : before.length = joined.length)
    (hkey : before.cell joined.names j.leftKey = row.cell schema.names j.leftKey)
    (hexpanded : expanded ∈ s.extend j joined before) {column : String}
    (hfresh : j.path ++ "." ++ column ∉ joined.names) :
    expanded.cell (s.joinedSchema [j] joined).names (j.path ++ "." ++ column) =
      (s.target j schema row).cell (s.tableNamed j.table).schema.names column := by
  have hsame : s.target j joined before = s.target j schema row := by
    unfold target
    rw [hkey]
  rw [hidentified.extend_eq haccepted hplain hfits hj htoOne, List.mem_singleton] at hexpanded
  rw [hexpanded, joinedSchema, joinedSchema, extendSchema, Row.cell_append_right hwidth hfresh,
    hsame, Row.cell_under]

/-- The rows that joins make of a row of the root have the values of the row that one of the joins
leads to, if that join has one target and starts at the root. -/
theorem cell_of_toOne (haccepted : Catalog.of entities fallback = .ok c) (hplain : c.Plain)
    (hfits : s.Fits c) (hidentified : s.Identified c) (he : c.entity? root = some e)
    (htable : s.table e.tableName = .ok table) {steps : List JoinStep} {places : List Place}
    (hclosed : Closed c root steps places) {joins : List Join}
    (hjoins : steps.mapM (Planner.join c) = .ok joins) {a : Attribute}
    (ha : c.attribute? root a.name = some a) {target joinColumn : String}
    (htype : a.type = .association target (.toOne joinColumn))
    (hoverride : c.override? root a.name = none) {j : Join}
    (hj : Planner.join c ⟨a.name, root, a.name, target, .toOne joinColumn⟩ = .ok j)
    (hplace : ⟨[a.name], target⟩ ∈ places) {row expanded : Row} (hrow : row ∈ table.rows)
    (hexpanded : expanded ∈ s.expand joins table.schema row) {column : String}
    (hcolumn : column ∈ (s.tableNamed j.table).schema.names) :
    expanded.cell (s.joinedSchema joins table.schema).names (a.name ++ "." ++ column) =
      (s.target j table.schema row).cell (s.tableNamed j.table).schema.names column := by
  -- the table of the target, and the column in which the join starts
  obtain ⟨own, hown, hownSchema, hrows⟩ := hfits.exists_table he
  obtain rfl : own = table := Except.ok.inj (hown.symm.trans htable)
  obtain ⟨t, ht⟩ := Catalog.knows_target haccepted hplain.attributes ha htype
  obtain ⟨other, hother, hotherSchema, -⟩ := hfits.exists_table ht
  have hdotless : ∀ name ∈ [] ++ [a.name], Path.Dotless name := by
    simpa using Catalog.dotless_of_attribute? hplain.names ha
  obtain ⟨hpath, -, ⟨t', ht', hname⟩, key, type, hkey, hkeyMem, -⟩ :=
    exists_keys_of_join haccepted hplain hdotless ha htype hoverride hownSchema hotherSchema
      (by simpa using hj)
  obtain rfl : t = t' := Option.some.inj (ht.symm.trans ht')
  rw [List.nil_append, Path.dotted_singleton] at hpath hkey
  have hnamed : s.tableNamed j.table = other := hname ▸ table_eq_ok hother
  rw [hnamed] at hcolumn
  obtain ⟨found, hfound, rfl⟩ := List.mem_map.mp hcolumn
  -- on the joins: later ones leave alone what the one to the target has brought
  induction hclosed generalizing joins expanded with
  | root => simp at hplace
  | @snoc steps places p last reached b cardinality hclosed hp hb hbtype hboverride hnew ih =>
      obtain ⟨joins, j', hinit, hj', rfl⟩ := Outcome.mapM_append_singleton_eq_ok hjoins
      obtain ⟨flow, hjoined⟩ := exists_joined haccepted hplain hfits he hclosed hinit htable
      have hlaid := hjoined.laid
      have hconforms := hjoined.conforms
      rw [hjoined.schema] at hlaid hconforms
      rw [expand_append] at hexpanded
      obtain ⟨before, hbefore, hexpanded⟩ := List.mem_flatMap.mp hexpanded
      rw [expand_singleton] at hexpanded
      have hwidth := (hconforms row hrow before hbefore).length_eq
      rw [joinedSchema_append]
      rcases List.mem_append.mp hplace with hplace | hplace
      · -- the association was joined before
        have hthere : a.name ++ "." ++ found.name ∈ (s.joinedSchema joins own.schema).names := by
          have hlabel : a.name ++ "." ++ found.name = Path.dotted ([a.name] ++ [found.name]) := by
            rw [← Laid.name_under (by simp), Path.dotted_singleton]
          rw [hlabel]
          exact List.mem_map_of_mem (hlaid.mem _ hplace other.schema hotherSchema found hfound)
        obtain ⟨tail, rfl⟩ := exists_append_of_mem_extend hexpanded
        rw [← ih hinit hplace hbefore]
        exact Row.cell_append_left hwidth hthere _ tail
      · -- the association is joined last, so it is the one of the join
        obtain ⟨hnames, htarget⟩ := Place.mk.inj (List.mem_singleton.mp hplace)
        obtain ⟨hpnames, hlast⟩ :=
          List.append_inj' (show [] ++ [a.name] = p.names ++ [last] from hnames) rfl
        obtain rfl : a.name = last := List.singleton_inj.mp hlast
        obtain rfl : p = ⟨[], root⟩ :=
          hclosed.entity_eq Closed.root hp (List.mem_singleton.mpr rfl) hpnames.symm
        obtain rfl : a = b := Option.some.inj (ha.symm.trans hb)
        obtain ⟨rfl, rfl⟩ := AttributeType.association.inj (htype.symm.trans hbtype)
        obtain rfl : j = j' := Except.ok.inj (hj.symm.trans (by simpa using hj'))
        -- the join starts from a value of the row of the root, whatever has been joined in between
        have hstart : before.cell (s.joinedSchema joins own.schema).names j.leftKey =
            row.cell own.schema.names j.leftKey :=
          cell_of_root (hrows row hrow).length_eq hbefore (hkey ▸ List.mem_map_of_mem hkeyMem)
        -- its columns are new, as their names tell the places apart
        have hfresh : j.path ++ "." ++ found.name ∉ (s.joinedSchema joins own.schema).names := by
          obtain ⟨all, hall⟩ := exists_joined haccepted hplain hfits he
            (Closed.snoc hclosed hp hb hbtype hboverride hnew) hjoins htable
          have hnodup := hall.laid.nodup
          rw [hall.schema, joinedSchema_append, joinedSchema, joinedSchema, extendSchema,
            Schema.names_append, List.nodup_append, hnamed] at hnodup
          exact fun hthere =>
            hnodup.2.2 _ hthere _ (List.mem_map_of_mem (List.mem_map_of_mem hfound)) rfl
        have hcell :=
          cell_of_extend haccepted hplain hfits hidentified hj (Planner.toMany_of_join hj rfl)
            hwidth hstart hexpanded hfresh
        rwa [hpath] at hcell

/-- What is shown of whole entities depends on the row of the root alone: all rows that joins make
of it agree. -/
theorem valueOf_eq_cell (haccepted : Catalog.of entities fallback = .ok c) (hplain : c.Plain)
    (hfits : s.Fits c) (hidentified : s.Identified c) (he : c.entity? root = some e)
    (htable : s.table e.tableName = .ok table) {steps : List JoinStep} {places : List Place}
    (hclosed : Closed c root steps places) {joins : List Join}
    (hjoins : steps.mapM (Planner.join c) = .ok joins) {fields : List Field}
    (hfields : Planner.entityFields c root = .ok fields) {f : Field} (hf : f ∈ fields)
    (hplace : ⟨f.path.steps, f.owner⟩ ∈ places) {row expanded : Row} (hrow : row ∈ table.rows)
    (hexpanded : expanded ∈ s.expand joins table.schema row) :
    s.valueOf c table.schema row f =
      .ok (expanded.cell (s.joinedSchema joins table.schema).names f.columnPath) := by
  obtain ⟨own, hown, hownSchema, hrows⟩ := hfits.exists_table he
  obtain rfl : own = table := Except.ok.inj (hown.symm.trans htable)
  obtain ⟨hshows, hpath⟩ := Planner.shows_of_entityFields hfields hf
  have hfield := hshows.field
  have hscalar := hshows.scalar
  rw [Field.isComplex, Option.isNone_eq_false_iff, Option.isSome_iff_exists] at hscalar
  obtain ⟨type, htype⟩ := hscalar
  rcases hpath with ⟨a, hpath⟩ | ⟨a, ha, b, hpath⟩
  · -- a field of the root itself
    obtain ⟨hnone, howner, -⟩ := Planner.joins_of_single (hpath ▸ hfield)
    have hcolumn : f.column ∈ own.schema.names :=
      List.mem_map_of_mem (Catalog.HasSchema.mem_of_field hplain hfield htype (howner ▸ hownSchema))
    have hcolumnPath : f.columnPath = f.column := by
      rw [Field.columnPath, Field.sourcePath?, hnone]
      rfl
    rw [valueOf, hnone, hcolumnPath, cell_of_root (hrows row hrow).length_eq hexpanded hcolumn]
    rfl
  · -- a field of the target of an association
    obtain ⟨hattribute, hoverride, -⟩ := Planner.mem_nestedAttributes hplain ha
    obtain ⟨target, joinColumn, hatype, rfl, hone⟩ :=
      Planner.joins_of_child hplain ha (hpath ▸ hfield)
    obtain ⟨j, hj⟩ := Planner.exists_join_toOne haccepted hplain hattribute hatype
    obtain ⟨t, ht, hname⟩ := Planner.exists_entity_of_join hj
    obtain ⟨other, hother, hotherSchema, -⟩ := hfits.exists_table ht
    have hnamed : s.tableNamed j.table = other := hname ▸ table_eq_ok hother
    have hcolumn : f.column ∈ (s.tableNamed j.table).schema.names :=
      hnamed ▸ List.mem_map_of_mem (Catalog.HasSchema.mem_of_field hplain hfield htype hotherSchema)
    have hcolumnPath : f.columnPath = a.name ++ "." ++ f.column := by
      rw [Field.columnPath, Field.sourcePath?, hone]
      rfl
    -- the row that the association leads to is the one that has been joined
    have hcell :=
      cell_of_toOne haccepted hplain hfits hidentified he htable hclosed hjoins hattribute hatype
        hoverride hj (by simpa [hpath, Path.child, Path.single, Path.names] using hplace) hrow
        hexpanded hcolumn
    rw [valueOf, hone]
    dsimp only
    rw [hj, hcolumnPath, hcell]
    rfl

end Store

end EntityQuery
