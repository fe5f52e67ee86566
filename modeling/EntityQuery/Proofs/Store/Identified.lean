import EntityQuery.Proofs.Store.Expansion

/-!
# Stores whose rows are identified

Where the identifiers of the rows of a table are values that differ in order, no two rows form one
key.  So an association with one target has at most one: its join makes exactly one row out of every
row.

## Main definitions

* `Store.identifiers` : the identifiers of the rows of an entity
* `Store.Identified` : identifiers are not null and differ
* `Store.target` : the row that a join with one target leads to

## Main statements

* `Identified.pairwise` : no two rows of an entity form one key
* `Identified.extend_eq` : a join with one target adds the row that it leads to
* `Identified.length_expand` : joins with one target make one row out of every row
-/

namespace EntityQuery

theorem Planner.exists_of_join_toOne {c : Catalog} {step : JoinStep} {j : Join}
    (hj : join c step = .ok j) (htoOne : j.toMany = false) :
    ∃ id e, c.idAttribute step.target = .ok id ∧ c.entity? step.target = some e ∧
      j.table = e.tableName ∧
      j.rightKey = c.columnName step.target id.name := by
  obtain ⟨e, he, ⟨_, id, -, hid, rfl⟩ | ⟨_, _, _, -, -, -, rfl⟩⟩ := join_eq_ok hj
  · exact ⟨id, e, hid, he, rfl, rfl⟩
  · simp at htoOne

theorem Planner.exists_join_toOne {c : Catalog} {entities : List Entity}
    {fallback : Option ScalarType} (haccepted : Catalog.of entities fallback = .ok c)
    (hplain : c.Plain) {source target joinColumn : String} {a : Attribute}
    (ha : c.attribute? source a.name = some a)
    (htype : a.type = .association target (.toOne joinColumn)) {path : String} :
    ∃ j, join c ⟨path, source, a.name, target, .toOne joinColumn⟩ = .ok j := by
  have htarget := Catalog.knows_target haccepted hplain.attributes ha htype
  obtain ⟨type, hidType⟩ := Catalog.exists_idType haccepted htarget
  obtain ⟨id, hid, -⟩ := Catalog.exists_idAttribute hidType
  obtain ⟨e, he⟩ := htarget
  simp [join, hid, Catalog.entity, he]

theorem Planner.toMany_of_join {c : Catalog} {step : JoinStep} {j : Join} (hj : join c step = .ok j)
    {joinColumn : String} (hone : step.cardinality = .toOne joinColumn) : j.toMany = false := by
  obtain ⟨e, -, ⟨_, _, -, -, rfl⟩ | ⟨_, _, _, hmany, -, -, rfl⟩⟩ := join_eq_ok hj
  · rfl
  · rw [hone] at hmany
    contradiction

namespace Store

variable {c : Catalog} {entities : List Entity} {fallback : Option ScalarType} {s : Store}
  {e : Entity} {id : Attribute}

/-- The identifiers of the rows of an entity, in the order of the rows. -/
def identifiers (c : Catalog) (s : Store) (e : Entity) (id : Attribute) : List Value :=
  let table := s.tableNamed e.tableName
  table.rows.map fun row => row.cell table.schema.names (c.columnName e.name id.name)

/-- The identifiers of the rows of every entity are not null, and no two of them are equal in
order. -/
def Identified (c : Catalog) (s : Store) : Prop :=
  ∀ e ∈ c.entities, ∀ id, c.idAttribute e.name = .ok id →
    (∀ v ∈ s.identifiers c e id, v.isNull = false) ∧
      (s.identifiers c e id).Pairwise fun a b => a.compare? b ≠ some .eq

instance (c : Catalog) (s : Store) : Decidable (s.Identified c) :=
  decidable_of_iff
    (∀ e ∈ c.entities, ∀ id ∈ (c.idAttribute e.name).toOption,
      (∀ v ∈ s.identifiers c e id, v.isNull = false) ∧
        (s.identifiers c e id).Pairwise fun a b => a.compare? b ≠ some .eq)
    (by
      refine forall_congr' fun e => forall_congr' fun _ => forall_congr' fun id => ?_
      cases c.idAttribute e.name <;> simp [Except.toOption])

/-- The identifiers of a table are values of the type of the identifier. -/
theorem ofType_of_identified (hplain : c.Plain) (hfits : s.Fits c) (hidentified : s.Identified c)
    {name : String} (he : c.entity? name = some e) (hid : c.idAttribute name = .ok id)
    {type : ScalarType} (htype : c.idType name = .ok type) {table : Table}
    (htable : s.table e.tableName = .ok table) {row : Row} (hrow : row ∈ table.rows) :
    (row.cell table.schema.names (c.columnName name id.name)).ofType type = true := by
  obtain ⟨found, hfound, hschema, hrows⟩ := hfits.exists_table he
  obtain rfl : table = found := Except.ok.inj (htable.symm.trans hfound)
  obtain ⟨hmem, rfl⟩ := Catalog.mem_of_entity? he
  have hcolumn := hschema.mem_of_id hplain hid htype
  refine Value.ofType_of_conforms ((hrows row hrow).cell (hschema.nodup hplain ⟨e, he⟩) hcolumn) ?_
  refine (hidentified e hmem id hid).1 _ ?_
  unfold identifiers
  rw [table_eq_ok htable]
  exact List.mem_map.mpr ⟨row, hrow, rfl⟩

theorem Identified.pairwise_compare (hidentified : s.Identified c) {name : String}
    (he : c.entity? name = some e) (hid : c.idAttribute name = .ok id) {table : Table}
    (htable : s.table e.tableName = .ok table) :
    table.rows.Pairwise fun a b =>
      (a.cell table.schema.names (c.columnName name id.name)).compare?
        (b.cell table.schema.names (c.columnName name id.name)) ≠ some .eq := by
  obtain ⟨hmem, rfl⟩ := Catalog.mem_of_entity? he
  have hpairwise := (hidentified e hmem id hid).2
  unfold identifiers at hpairwise
  rwa [table_eq_ok htable, List.pairwise_map] at hpairwise

/-- No two rows of a table form one key by their identifiers. -/
theorem Identified.pairwise (hplain : c.Plain) (hfits : s.Fits c) (hidentified : s.Identified c)
    {name : String} (he : c.entity? name = some e) (hid : c.idAttribute name = .ok id)
    {type : ScalarType} (htype : c.idType name = .ok type) {table : Table}
    (htable : s.table e.tableName = .ok table) :
    table.rows.Pairwise fun a b =>
      (a.cell table.schema.names (c.columnName name id.name)).sameKey
        (b.cell table.schema.names (c.columnName name id.name)) = false := by
  refine (hidentified.pairwise_compare he hid htable).imp_of_mem fun {a b} ha hb hne => ?_
  rw [← Bool.not_eq_true]
  intro hsame
  exact hne
    (Value.compare?_of_sameKey
      (ofType_of_identified hplain hfits hidentified he hid htype htable ha)
    (ofType_of_identified hplain hfits hidentified he hid htype htable hb) hsame)

/-! ## Joins with one target -/

/-- Of rows no two of which satisfy a condition at once, at most one satisfies it. -/
theorem length_filter_le_one {α : Type} {p : α → Bool} {xs : List α}
    (h : xs.Pairwise fun a b => ¬ (p a = true ∧ p b = true)) : (xs.filter p).length ≤ 1 := by
  induction xs with
  | nil => simp
  | cons x xs ih =>
      rw [List.pairwise_cons] at h
      cases hx : p x with
      | false => simpa [hx] using ih h.2
      | true =>
          have hrest : xs.filter p = [] := by
            rw [List.filter_eq_nil_iff]
            exact fun y hy hpy => h.1 y hy ⟨hx, hpy⟩
          simp [hx, hrest]

theorem filter_eq_toList_find? {α : Type} {p : α → Bool} {xs : List α}
    (h : (xs.filter p).length ≤ 1) : xs.filter p = (xs.find? p).toList := by
  rw [← List.head?_filter]
  generalize xs.filter p = found at h ⊢
  match found, h with
  | [], _ => rfl
  | [x], _ => rfl

/-- At most one row of the target of an association meets a value. -/
theorem Identified.length_matches_le_one (haccepted : Catalog.of entities fallback = .ok c)
    (hplain : c.Plain) (hfits : s.Fits c) (hidentified : s.Identified c) {step : JoinStep}
    {j : Join} (hj : Planner.join c step = .ok j) (htoOne : j.toMany = false) (v : Value) :
    ((s.tableNamed j.table).rows.filter fun right =>
      v.meets (right.cell (s.tableNamed j.table).schema.names j.rightKey)).length ≤ 1 := by
  obtain ⟨id, e, hid, he, hname, hkey⟩ := Planner.exists_of_join_toOne hj htoOne
  obtain ⟨type, htype⟩ := Catalog.exists_idType haccepted ⟨e, he⟩
  obtain ⟨table, htable, -, -⟩ := hfits.exists_table he
  rw [hname, table_eq_ok htable, hkey]
  refine length_filter_le_one ?_
  refine (hidentified.pairwise hplain hfits he hid htype htable).imp fun {a b} happart => ?_
  rintro ⟨hmeetsa, hmeetsb⟩
  rw [Value.meets, Bool.and_eq_true] at hmeetsa hmeetsb
  have hsame := Value.sameKey_trans hmeetsa.2 (Value.sameKey_symm hmeetsb.2)
  rw [happart] at hsame
  simp at hsame

/-- The row that a join with one target leads to; nulls if there is none. -/
def target (s : Store) (j : Join) (schema : Schema) (row : Row) : Row :=
  let table := s.tableNamed j.table
  (table.rows.find? fun right =>
    (row.cell schema.names j.leftKey).meets (right.cell table.schema.names j.rightKey)).getD
      (List.replicate table.schema.length .null)

/-- A join of an association with one target makes one row out of every row. -/
theorem Identified.extend_eq (haccepted : Catalog.of entities fallback = .ok c) (hplain : c.Plain)
    (hfits : s.Fits c) (hidentified : s.Identified c) {step : JoinStep} {j : Join}
    (hj : Planner.join c step = .ok j) (htoOne : j.toMany = false) (schema : Schema) (row : Row) :
    s.extend j schema row = [row ++ s.target j schema row] := by
  have hone :=
    hidentified.length_matches_le_one haccepted hplain hfits hj htoOne
      (row.cell schema.names j.leftKey)
  unfold extend target
  dsimp only
  rw [filter_eq_toList_find? hone]
  cases (s.tableNamed j.table).rows.find? _ <;> rfl

/-- Joins of associations with one target make one row out of every row. -/
theorem Identified.length_expand (haccepted : Catalog.of entities fallback = .ok c)
    (hplain : c.Plain) (hfits : s.Fits c) (hidentified : s.Identified c) {joins : List Join}
    (hjoins : ∀ j ∈ joins, j.toMany = false ∧ ∃ step, Planner.join c step = .ok j) (schema : Schema)
    (row : Row) : (s.expand joins schema row).length = 1 := by
  induction joins generalizing schema row with
  | nil => rfl
  | cons j joins ih =>
      rw [List.forall_mem_cons] at hjoins
      obtain ⟨⟨htoOne, step, hj⟩, hjoins⟩ := hjoins
      rw [expand, hidentified.extend_eq haccepted hplain hfits hj htoOne, List.flatMap_singleton]
      exact ih hjoins _ _

end Store

end EntityQuery
