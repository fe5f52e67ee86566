import EntityQuery.Proofs.Search.Count
import EntityQuery.Proofs.Search.Records

/-!
# Rows of whole entities

Where the joins of a plan lead to the places of all fields of a whole entity, every row that they
make of a row of the root shows the same, and rows of the root are told apart by what they show,
since their identifiers are shown.  So it does not matter whether repeated rows are told by their
identifier or by all that they show: of the joined rows that are kept, one is left for every row of
the root that has any.

This does not depend on which of the joined rows are kept.

## Main definitions

* `Store.ShowsWhole` : joins that lead to all fields of whole entities
* `Store.shownOf` : what is shown of a joined row

## Main statements

* `valuesOf_eq` : all rows that joins make of a row of the root show the same
* `firsts_shown`, `shown_of_toOne` : each row of the root of which joined rows are kept is shown
  once
-/

namespace EntityQuery.Store

variable {c : Catalog} {root : String} {s : Store} {joins : List Join} {fields : List Field}
  {table : Table}

/-- Joins of a store with identified rows that lead to the places of all fields of whole
entities. -/
structure ShowsWhole (c : Catalog) (root : String) (s : Store) (joins : List Join)
    (fields : List Field) (table : Table) : Prop where
  accepted : ∃ entities fallback, Catalog.of entities fallback = .ok c
  plain : c.Plain
  fits : s.Fits c
  identified : s.Identified c
  table_eq : ∃ e, c.entity? root = some e ∧ s.table e.tableName = .ok table
  fields_eq : Planner.entityFields c root = .ok fields
  closed : ∃ steps places, Closed c root steps places ∧ steps.mapM (Planner.join c) = .ok joins ∧
    ∀ f ∈ fields, ⟨f.path.steps, f.owner⟩ ∈ places

/-- What is shown of a joined row: the values of its columns for some fields. -/
def shownOf (s : Store) (joins : List Join) (fields : List Field) (schema : Schema)
    (row : Row) : Row :=
  fields.map fun f => row.cell (s.joinedSchema joins schema).names f.columnPath

/-- The joins of a plan for whole entities lead to all fields of them, whatever else its predicate
needs. -/
theorem ShowsWhole.of_joins {e : Entity}
    (haccepted : ∃ entities fallback, Catalog.of entities fallback = .ok c) (hplain : c.Plain)
    (hfits : s.Fits c) (hidentified : s.Identified c) (he : c.entity? root = some e)
    (htable : s.table e.tableName = .ok table) {r : Request}
    (hresolved : ∀ f ∈ r.fields, f.Resolved c root) {hooks : FieldHooks} {compiled : Compiled}
    (hcompiled : Planner.predicate hooks r = .ok compiled)
    (hfields : Planner.entityFields c root = .ok fields)
    (hjoins : (JoinStep.merge compiled.joins (fields.flatMap Field.joins)).mapM (Planner.join c) =
      .ok joins) : s.ShowsWhole c root joins fields table := by
  have hshown (f : Field) (hf : f ∈ fields) : c.field root f.path = .ok f :=
    (Planner.shows_of_entityFields hfields hf).1.field
  obtain ⟨steps, places, hsteps, hclosed, -, hplaces⟩ :=
    Request.exists_closed hplain.names (fun f hf => (hresolved f hf).field) hcompiled hshown hjoins
  exact ⟨haccepted, hplain, hfits, hidentified, ⟨e, he, htable⟩, hfields, steps, places, hclosed,
    hsteps, hplaces⟩

namespace ShowsWhole

variable (h : s.ShowsWhole c root joins fields table) {row : Row}
include h

/-! ## What is shown -/

/-- The joined rows come from a flow in whose schema all fields have a column. -/
theorem exists_joined : ∃ places flow, Joined c s places joins table flow ∧
    ∀ f ∈ fields, ∃ type, ⟨f.columnPath, type⟩ ∈ flow.schema := by
  obtain ⟨entities, fallback, haccepted⟩ := h.accepted
  obtain ⟨e, he, htable⟩ := h.table_eq
  obtain ⟨steps, places, hclosed, hjoins, hplaces⟩ := h.closed
  obtain ⟨flow, hjoined⟩ := Store.exists_joined haccepted h.plain h.fits he hclosed hjoins htable
  refine ⟨places, flow, hjoined, fun f hf => ?_⟩
  obtain ⟨hshows, -⟩ := Planner.shows_of_entityFields h.fields_eq hf
  have hscalar := hshows.scalar
  rw [Field.isComplex, Option.isNone_eq_false_iff, Option.isSome_iff_exists] at hscalar
  obtain ⟨type, htype⟩ := hscalar
  exact ⟨type, hjoined.laid.mem_of_place haccepted h.plain h.fits ⟨e, he⟩ hclosed hshows.field htype
    (hplaces f hf)⟩

/-- All rows that joins make of a row of the root show the same. -/
theorem valuesOf_eq (hrow : row ∈ table.rows) :
    fields.mapM (s.valueOf c table.schema row) = .ok (s.valuesOf c table.schema fields row) ∧
      ∀ expanded ∈ s.expand joins table.schema row,
        s.shownOf joins fields table.schema expanded = s.valuesOf c table.schema fields row := by
  obtain ⟨entities, fallback, haccepted⟩ := h.accepted
  obtain ⟨e, he, htable⟩ := h.table_eq
  obtain ⟨steps, places, hclosed, hjoins, hplaces⟩ := h.closed
  have hvalues (expanded : Row) (hexpanded : expanded ∈ s.expand joins table.schema row) :
      fields.mapM (s.valueOf c table.schema row) =
        .ok (s.shownOf joins fields table.schema expanded) :=
    Outcome.mapM_eq_ok_map fun f hf =>
      valueOf_eq_cell haccepted h.plain h.fits h.identified he htable hclosed hjoins h.fields_eq hf
        (hplaces f hf) hrow hexpanded
  have hall (expanded : Row) (hexpanded : expanded ∈ s.expand joins table.schema row) :
      s.shownOf joins fields table.schema expanded = s.valuesOf c table.schema fields row := by
    rw [valuesOf, hvalues expanded hexpanded]
    rfl
  obtain ⟨first, hfirst⟩ :=
    List.exists_mem_of_ne_nil _ (expand_ne_nil (s := s) joins table.schema row)
  exact ⟨hall first hfirst ▸ hvalues first hfirst, hall⟩

theorem same_self (hrow : row ∈ table.rows) :
    Key.same (s.valuesOf c table.schema fields row) (s.valuesOf c table.schema fields row) =
      true := by
  obtain ⟨places, flow, hjoined, hcolumns⟩ := h.exists_joined
  obtain ⟨expanded, hexpanded⟩ :=
    List.exists_mem_of_ne_nil _ (expand_ne_nil (s := s) joins table.schema row)
  have hconforms := hjoined.conforms row hrow expanded hexpanded
  rw [← (h.valuesOf_eq hrow).2 expanded hexpanded, shownOf, ← hjoined.schema]
  refine Key.same_self fun v hv => ?_
  obtain ⟨f, hf, rfl⟩ := List.mem_map.mp hv
  obtain ⟨type, hcolumn⟩ := hcolumns f hf
  exact Value.sameKey_self_of_conforms (hconforms.cell hjoined.laid.nodup hcolumn)

theorem getElem?_valuesOf {k : Nat} {f : Field} (hf : fields[k]? = some f) {name : String}
    (hpath : f.path = .single name) (hrow : row ∈ table.rows) :
    (s.valuesOf c table.schema fields row)[k]? =
      some (row.cell table.schema.names (c.columnName root name)) := by
  obtain ⟨hshows, -⟩ := Planner.shows_of_entityFields h.fields_eq (List.mem_of_getElem? hf)
  obtain ⟨hjoins, -, hcolumn⟩ := Planner.joins_of_single (hpath ▸ hshows.field)
  obtain ⟨v, hv, hvalue⟩ := Outcome.getElem?_of_mapM (h.valuesOf_eq hrow).1 hf
  rw [valueOf, hjoins, hcolumn] at hvalue
  rw [hv, Except.ok.inj hvalue]

theorem exists_id : ∃ id type f,
    c.idAttribute root = .ok id ∧ c.idType root = .ok type ∧ f ∈ fields ∧
    f.path = .single id.name := by
  obtain ⟨entities, fallback, haccepted⟩ := h.accepted
  obtain ⟨e, he, -⟩ := h.table_eq
  obtain ⟨type, htype⟩ := Catalog.exists_idType haccepted ⟨e, he⟩
  obtain ⟨id, hid, -⟩ := Catalog.exists_idAttribute htype
  obtain ⟨f, hf, hpath⟩ :=
    Planner.exists_mem_of_idAttribute h.plain.attributes htype hid h.fields_eq
  exact ⟨id, type, f, hid, htype, hf, hpath⟩

theorem apart : table.rows.Pairwise fun a b =>
    Key.same (s.valuesOf c table.schema fields a) (s.valuesOf c table.schema fields b) = false := by
  obtain ⟨e, he, htable⟩ := h.table_eq
  obtain ⟨id, type, f, hid, htype, hf, hpath⟩ := h.exists_id
  obtain ⟨k, hk⟩ := List.mem_iff_getElem?.mp hf
  have hpairwise := h.identified.pairwise h.plain h.fits he hid htype htable
  refine hpairwise.imp_of_mem fun ha hb happart => ?_
  exact Key.same_eq_false (h.getElem?_valuesOf hk hpath ha)
    (h.getElem?_valuesOf hk hpath hb) happart

/-! ## Rows that are kept -/

theorem shownOf_eq_valuesOf (keep : Row → Bool) (hrow : row ∈ table.rows) :
    ∀ shown ∈ (s.keptOf joins keep table.schema row).map (s.shownOf joins fields table.schema),
      shown = s.valuesOf c table.schema fields row := by
  intro shown hshown
  obtain ⟨expanded, hexpanded, rfl⟩ := List.mem_map.mp hshown
  exact (h.valuesOf_eq hrow).2 expanded (List.mem_of_mem_filter hexpanded)

/-- Each row of the root of which joined rows are kept is shown once, if what is repeated is left
out. -/
theorem firsts_shown (keep : Row → Bool) :
    Row.firsts [] [] ((s.keptRows joins keep table).map (s.shownOf joins fields table.schema)) =
      (s.keptRoots joins keep table).map (s.valuesOf c table.schema fields) := by
  have hsame (row : Row) (hrow : row ∈ table.rows) := h.shownOf_eq_valuesOf keep hrow
  rw [keptRows, List.map_flatMap,
    Row.firsts_flatMap (s.valuesOf c table.schema fields) hsame (fun row hrow => h.same_self hrow)
    h.apart (by simp), Row.filterMap_head?_eq_map hsame]
  simp only [List.isEmpty_map, keptRoots]

/-- Without joins that have several targets nothing is repeated. -/
theorem shown_of_toOne (hjoins : ∀ j ∈ joins, j.toMany = false) (keep : Row → Bool) :
    (s.keptRows joins keep table).map (s.shownOf joins fields table.schema) =
      (s.keptRoots joins keep table).map (s.valuesOf c table.schema fields) := by
  obtain ⟨entities, fallback, haccepted⟩ := h.accepted
  obtain ⟨steps, places, -, hsteps, -⟩ := h.closed
  have htoOne (j : Join) (hj : j ∈ joins) : j.toMany = false ∧
      ∃ step, Planner.join c step = .ok j := by
    obtain ⟨step, -, hstep⟩ := Outcome.exists_of_mem_mapM hsteps hj
    exact ⟨hjoins j hj, step, hstep⟩
  have hsame (row : Row) (hrow : row ∈ table.rows) := h.shownOf_eq_valuesOf keep hrow
  rw [keptRows_of_toOne haccepted h.plain h.fits h.identified htoOne, List.map_filterMap]
  simp only [← List.head?_map]
  rw [Row.filterMap_head?_eq_map hsame]
  simp only [List.isEmpty_map, keptRoots]

end ShowsWhole

end EntityQuery.Store
