import EntityQuery.Proofs.Search.Complete
import EntityQuery.Proofs.Search.Count
import EntityQuery.Proofs.Store.Expansion

/-!
# Associations and their inverses

An association with many targets is mapped by an attribute of its target, which refers back.  The
two are joined in different ways: one from the identifier of the source to the column in which the
reference is stored, the other from this column to the identifier.  Here it is shown that they are
inverse to each other: wherever rows of the two entities stand in joined rows, one is paired with
the other in one direction exactly if it is in the other direction.

## Strategy

A join pairs a row with those rows of its table whose value meets the one that it starts from
(`mem_partners_iff`).  What it starts from is a column of the row of an entity that stands at some
names in the joined row, so the pairs depend on this row alone (`mem_partners_iff_of_holds`).  It
remains to see which columns the two joins start from and lead to (`Planner.keys_of_toMany`,
`Planner.keys_of_toOne`), and that values meet whichever of them comes first.

That rows of the entities do stand in the joined rows of a plan, wherever its joins lead, is shown
by induction on them (`standsAt_of_mem_expand`): a join leaves what a row holds and adds what it
leads to.

## Main definitions

* `Store.partners` : the rows that a join pairs with a row
* `Catalog.LaidAt`, `Store.HoldsAt` : where the columns and the rows of an entity stand in joined
  rows
* `Store.StandsAt` : a joined row holds a row of an entity, or nulls

## Main statements

* `Store.standsAt_of_mem_expand` : joined rows hold rows of the entities to which the joins lead
* `Store.joins_partners` : the flow of a join extends every row by its partners
* `Store.partners_inverse` : an association with many targets is the inverse of the one that it is
  mapped by
-/

namespace EntityQuery

variable {c : Catalog} {entities : List Entity} {fallback : Option ScalarType} {s : Store}
  {schema : Schema} {names : List String} {row own other : Row} {j : Join}

/-! ## Partners -/

namespace Store

/-- The rows that a join pairs with a row: those that its match table holds for the value that it
starts from. -/
def partners (s : Store) (j : Join) (schema : Schema) (row : Row) : List Row :=
  let table := s.tableNamed j.table
  match schema.position? j.leftKey, table.schema.position? j.rightKey with
  | some i, some k => (MatchTable.ofRows k table.rows).rowsOf (row.getD i .null)
  | _, _ => []

/-- A join can be put on a flow, which then makes of every row one for each of its partners, or one
filled up with nulls if there is none. -/
def JoinsPartners (s : Store) (j : Join) (flow : Flow) : Prop :=
  ∀ rows, flow.Runs rows none → ∃ joined, s.addJoin flow j = .ok joined ∧
    joined.Runs (rows.flatMap fun row =>
      Flow.joined (s.tableNamed j.table).schema.length row (s.partners j flow.schema row)) none

/-- A row is a partner if its value meets the one that the join starts from. -/
theorem mem_partners_iff (hleft : j.leftKey ∈ schema.names)
    (hright : j.rightKey ∈ (s.tableNamed j.table).schema.names) :
    other ∈ s.partners j schema row ↔ other ∈ (s.tableNamed j.table).rows ∧
      (row.cell schema.names j.leftKey).meets
        (other.cell (s.tableNamed j.table).schema.names j.rightKey) = true := by
  obtain ⟨i, hi⟩ := Option.isSome_iff_exists.mp (List.isSome_idxOf?.mpr hleft)
  obtain ⟨k, hk⟩ := Option.isSome_iff_exists.mp (List.isSome_idxOf?.mpr hright)
  have hi : schema.position? j.leftKey = some i := hi
  have hk : (s.tableNamed j.table).schema.position? j.rightKey = some k := hk
  rw [partners, hi, hk]
  dsimp only
  rw [MatchTable.rowsOf_ofRows, List.mem_filter, Row.cell_eq_getD hi, Row.cell_eq_getD hk]

end Store

/-! ## Where the rows of an entity stand -/

/-- Rows of the schema have the columns of an entity at the names that lead to it. -/
structure Catalog.LaidAt (c : Catalog) (schema : Schema) (names : List String)
    (entity : String) : Prop where
  dotless : ∀ name ∈ names, Path.Dotless name
  nodup : schema.names.Nodup
  mem : ∀ own, c.HasSchema entity own → ∀ column ∈ own,
    ⟨Path.dotted (names ++ [column.name]), column.type⟩ ∈ schema

theorem Catalog.LaidAt.dotless_append (hplain : c.Plain) {entity name : String}
    (hlaid : c.LaidAt schema names entity) {a : Attribute}
    (ha : c.attribute? entity name = some a) : ∀ n ∈ names ++ [name], Path.Dotless n := by
  rw [List.forall_mem_append]
  exact ⟨hlaid.dotless, by simpa using dotless_of_attribute? hplain.names ha⟩

theorem Laid.laidAt (hnames : c.DotlessNames) {root : String} {steps : List JoinStep}
    {places : List Place} (hclosed : Closed c root steps places) (hlaid : Laid c places schema)
    {p : Place} (hp : p ∈ places) : c.LaidAt schema p.names p.entity :=
  ⟨hclosed.dotless hnames hp, hlaid.nodup, hlaid.mem p hp⟩

namespace Store

/-- The table of an entity. -/
def IsTable (c : Catalog) (s : Store) (entity : String) (table : Table) : Prop :=
  ∃ e, c.entity? entity = some e ∧ s.table e.tableName = .ok table

/-- A joined row holds a row of the table of an entity at the names that lead to it. -/
structure HoldsAt (c : Catalog) (schema : Schema) (names : List String) (entity : String)
    (table : Table) (row own : Row) : Prop where
  laid : c.LaidAt schema names entity
  mem : own ∈ table.rows
  cell : ∀ column ∈ table.schema.names,
    row.cell schema.names (Path.dotted (names ++ [column])) = own.cell table.schema.names column

theorem HoldsAt.self (hplain : c.Plain) {entity : String} {table : Table} (hentity : c.Knows entity)
    (hschema : c.HasSchema entity table.schema) (hown : own ∈ table.rows) :
    HoldsAt c table.schema [] entity table own own where
  laid := ⟨by simp, hschema.nodup hplain hentity, fun other hother column hcolumn => by
    simpa [hschema.unique hother] using hcolumn⟩
  mem := hown
  cell := by simp

theorem cell_append_at {entity : String} {table : Table} (hlaid : c.LaidAt schema names entity)
    (hschema : c.HasSchema entity table.schema) (hwidth : row.length = schema.length)
    {column : String} (hcolumn : column ∈ table.schema.names) (rest : Row) :
    (row ++ rest).cell (s.extendSchema j schema).names (Path.dotted (names ++ [column])) =
      row.cell schema.names (Path.dotted (names ++ [column])) := by
  obtain ⟨found, hfound, rfl⟩ := List.mem_map.mp hcolumn
  have hname := List.mem_map_of_mem (f := Column.name) (hlaid.mem _ hschema found hfound)
  rw [extendSchema, Row.cell_append_left hwidth hname]

/-- Joined columns have the values of the row that has been joined. -/
theorem cell_joined_at (hnames : names ≠ []) (hpath : j.path = Path.dotted names)
    (hwidth : row.length = schema.length) (hnodup : (s.extendSchema j schema).names.Nodup)
    {column : String} (hcolumn : column ∈ (s.tableNamed j.table).schema.names) (rest : Row) :
    (row ++ rest).cell (s.extendSchema j schema).names (Path.dotted (names ++ [column])) =
      rest.cell (s.tableNamed j.table).schema.names column := by
  have hunder : Path.dotted (names ++ [column]) = j.path ++ "." ++ column := by
    rw [hpath, Path.dotted_append hnames]
  have hthere : j.path ++ "." ++ column ∈ ((s.tableNamed j.table).schema.under j.path).names := by
    obtain ⟨found, hfound, rfl⟩ := List.mem_map.mp hcolumn
    simpa [Schema.under, Schema.names] using ⟨found, hfound, rfl⟩
  rw [extendSchema, Schema.names_append, List.nodup_append] at hnodup
  have hfresh : j.path ++ "." ++ column ∉ schema.names := fun hmem => hnodup.2.2 _ hmem _ hthere rfl
  rw [extendSchema, hunder, Row.cell_append_right hwidth hfresh, Row.cell_under]

theorem IsTable.fits (hfits : s.Fits c) {entity : String} {table : Table}
    (htable : s.IsTable c entity table) : c.Knows entity ∧ c.HasSchema entity table.schema := by
  obtain ⟨e, he, htable⟩ := htable
  obtain ⟨found, hfound, hschema, -⟩ := hfits.exists_table he
  obtain rfl : table = found := Except.ok.inj (htable.symm.trans hfound)
  exact ⟨⟨e, he⟩, hschema⟩

theorem IsTable.unique {entity : String} {first second : Table} (hfirst : s.IsTable c entity first)
    (hsecond : s.IsTable c entity second) : first = second := by
  obtain ⟨e, he, hfirst⟩ := hfirst
  obtain ⟨e', he', hsecond⟩ := hsecond
  obtain rfl : e = e' := Option.some.inj (he.symm.trans he')
  exact Except.ok.inj (hfirst.symm.trans hsecond)

/-- At a place a joined row holds a row of the table of the entity there, or nulls. -/
def StandsAt (c : Catalog) (s : Store) (schema : Schema) (row : Row) (p : Place) : Prop :=
  ∀ table, s.IsTable c p.entity table →
    (∀ column ∈ table.schema.names,
      row.cell schema.names (Path.dotted (p.names ++ [column])) = .null) ∨
      ∃ own, HoldsAt c schema p.names p.entity table row own

theorem StandsAt.append (hfits : s.Fits c) {p : Place} (hrow : StandsAt c s schema row p)
    (hhere : c.LaidAt schema p.names p.entity) (hwidth : row.length = schema.length)
    (hlaid : c.LaidAt (s.extendSchema j schema) p.names p.entity) (rest : Row) :
    StandsAt c s (s.extendSchema j schema) (row ++ rest) p := by
  intro table htable
  have hcell {column : String} (hcolumn : column ∈ table.schema.names) :=
    cell_append_at (s := s) (j := j) hhere (htable.fits hfits).2 hwidth hcolumn rest
  rcases hrow table htable with hnulls | ⟨own, hholds⟩
  · exact .inl fun column hcolumn => (hcell hcolumn).trans (hnulls column hcolumn)
  · exact .inr ⟨own, hlaid, hholds.mem, fun column hcolumn =>
      (hcell hcolumn).trans (hholds.cell column hcolumn)⟩

/-- An extended row holds a row of the joined table, or nulls if there was none to join. -/
theorem standsAt_of_mem_extend {p : Place} (hnames : p.names ≠ [])
    (hpath : j.path = Path.dotted p.names) (htable : s.IsTable c p.entity (s.tableNamed j.table))
    (hwidth : row.length = schema.length)
    (hlaid : c.LaidAt (s.extendSchema j schema) p.names p.entity) {extended : Row}
    (hextended : extended ∈ s.extend j schema row) :
    StandsAt c s (s.extendSchema j schema) extended p := by
  intro table hfound
  obtain rfl := hfound.unique htable
  unfold extend Flow.joined at hextended
  dsimp only at hextended
  split at hextended
  · obtain rfl := List.mem_singleton.mp hextended
    refine .inl fun column hcolumn => ?_
    rw [cell_joined_at hnames hpath hwidth hlaid.nodup hcolumn, Row.cell_nulls]
  · obtain ⟨other, hother, rfl⟩ := List.mem_map.mp hextended
    exact .inr ⟨other, hlaid, List.mem_of_mem_filter hother, fun column hcolumn =>
      cell_joined_at hnames hpath hwidth hlaid.nodup hcolumn other⟩

/-- Wherever the joins of a plan lead, the rows that they make of a row of the root hold a row of
the table of the entity there, or nulls. -/
theorem standsAt_of_mem_expand (haccepted : Catalog.of entities fallback = .ok c) (hplain : c.Plain)
    (hfits : s.Fits c) {root : String} {table : Table} (htable : s.IsTable c root table)
    {steps : List JoinStep} {places : List Place} (hclosed : Closed c root steps places)
    {joins : List Join} (hjoins : steps.mapM (Planner.join c) = .ok joins) (hrow : row ∈ table.rows)
    {expanded : Row} (hexpanded : expanded ∈ s.expand joins table.schema row) {p : Place}
    (hp : p ∈ places) : StandsAt c s (s.joinedSchema joins table.schema) expanded p := by
  obtain ⟨e, he, hread⟩ := id htable
  -- on the joins: the last one makes rows of those that the others have made
  induction hclosed generalizing joins expanded p with
  | root =>
      obtain rfl : [] = joins := Except.ok.inj hjoins
      obtain rfl := List.mem_singleton.mp hp
      obtain rfl : expanded = row := List.mem_singleton.mp hexpanded
      intro found hfound
      obtain rfl := hfound.unique htable
      obtain ⟨hroot, hschema⟩ := hfound.fits hfits
      exact .inr ⟨expanded, .self hplain hroot hschema hrow⟩
  | @snoc steps places q name target a cardinality hclosed hq ha htype hoverride hnew ih =>
      have hnext := hclosed.snoc hq ha htype hoverride hnew
      obtain ⟨_, hlaid⟩ := exists_joined haccepted hplain hfits he hnext hjoins hread
      obtain ⟨joins, j, hinit, hj, rfl⟩ := Outcome.mapM_append_singleton_eq_ok hjoins
      obtain ⟨flow, hjoined⟩ := exists_joined haccepted hplain hfits he hclosed hinit hread
      rw [expand_append] at hexpanded
      -- the row that the last join extends
      obtain ⟨before, hbefore, hexpanded⟩ := List.mem_flatMap.mp hexpanded
      rw [expand_singleton] at hexpanded
      have hwidth : before.length = (s.joinedSchema joins table.schema).length :=
        hjoined.schema ▸ (hjoined.conforms row hrow before hbefore).length_eq
      have hschema : s.joinedSchema (joins ++ [j]) table.schema =
          s.extendSchema j (s.joinedSchema joins table.schema) :=
            joinedSchema_append joins [j] table.schema
      have hhere := (hlaid.schema ▸ hlaid.laid).laidAt hplain.names hnext hp
      rw [hschema] at hhere ⊢
      rcases List.mem_append.mp hp with hp | hp
      · -- the joined row is not looked at
        obtain ⟨rest, rfl⟩ := exists_append_of_mem_extend hexpanded
        exact (ih hinit hbefore hp).append hfits
          ((hjoined.schema ▸ hjoined.laid).laidAt hplain.names hclosed hp) hwidth hhere rest
      · obtain rfl := List.mem_singleton.mp hp
        -- the place that the last join leads to: what stands there is the joined row, or nulls
        obtain ⟨t, ht, hname⟩ := Planner.exists_entity_of_join hj
        obtain ⟨found, hfound, -⟩ := hfits.exists_table ht
        have htarget : s.IsTable c target (s.tableNamed j.table) :=
          ⟨t, ht, by rw [hname, table_eq_ok hfound, hfound]⟩
        exact standsAt_of_mem_extend (by simp)
          (Planner.path_of_join hj).1 htarget hwidth hhere hexpanded

end Store

/-! ## Pairs of rows -/

namespace Store

variable {source target name : String} {a : Attribute} {cardinality : Cardinality} {as bs : Table}

/-- The columns of a join are there, wherever the entity stands that it starts from. -/
theorem exists_columns (haccepted : Catalog.of entities fallback = .ok c) (hplain : c.Plain)
    (hfits : s.Fits c) (ha : c.attribute? source name = some a)
    (htype : a.type = .association target cardinality) (hoverride : c.override? source name = none)
    (hj : Planner.join c ⟨Path.dotted (names ++ [name]), source, name, target, cardinality⟩ = .ok j)
    (hlaid : c.LaidAt schema names source) :
    ∃ source' table column type, c.HasSchema source source' ∧ s.IsTable c target table ∧
      s.table j.table = .ok table ∧
      j.leftKey = Path.dotted (names ++ [column]) ∧ column ∈ source'.names ∧
      ⟨j.leftKey, type⟩ ∈ schema ∧
      ⟨j.rightKey, type⟩ ∈ table.schema := by
  have hdotless := hlaid.dotless_append hplain ha
  obtain ⟨e, he⟩ := Catalog.knows_of_attribute? ha
  obtain ⟨own, -, hown, -⟩ := hfits.exists_table he
  obtain ⟨t, ht⟩ := Catalog.knows_target haccepted hplain.attributes ha htype
  obtain ⟨table, htable, hschema, -⟩ := hfits.exists_table ht
  obtain ⟨-, -, ⟨t', ht', hname⟩, column, type, hkey, hleft, hright⟩ :=
    exists_keys_of_join haccepted hplain hdotless ha htype hoverride hown hschema hj
  obtain rfl : t = t' := Option.some.inj (ht.symm.trans ht')
  refine ⟨own.schema, table, column, type, hown, ⟨t, ht, htable⟩, by rwa [hname], hkey, ?_, ?_,
    hright⟩
  · exact List.mem_map_of_mem hleft
  · rw [hkey]
    exact hlaid.mem _ hown _ hleft

/-- The flow of a join extends every row by its partners, wherever the entity stands that the join
starts from. -/
theorem joins_partners (haccepted : Catalog.of entities fallback = .ok c) (hplain : c.Plain)
    (hfits : s.Fits c) (ha : c.attribute? source name = some a)
    (htype : a.type = .association target cardinality) (hoverride : c.override? source name = none)
    (hj : Planner.join c ⟨Path.dotted (names ++ [name]), source, name, target, cardinality⟩ = .ok j)
    {flow : Flow} (hlaid : c.LaidAt flow.schema names source) : s.JoinsPartners j flow := by
  -- the join starts from a column of the entity and leads to one of its table, so both have
  -- positions
  obtain ⟨-, table, column, type, -, htarget, htable, -, -, hleft, hright⟩ :=
    exists_columns haccepted hplain hfits ha htype hoverride hj hlaid
  obtain ⟨hknown, hschema⟩ := htarget.fits hfits
  obtain ⟨i, hi, hfirst⟩ := Schema.exists_position? hlaid.nodup hleft
  obtain ⟨k, hk, hsecond⟩ := Schema.exists_position? (hschema.nodup hplain hknown) hright
  intro rows hruns
  refine ⟨_, addJoin_eq_ok htable hi hfirst hk hsecond rfl, ?_⟩
  -- the rows of the join, with the matches that its table finds for the value at the first position
  have hjoined := Flow.runs_join hruns (Flow.runs_ofRows (table.schema.under j.path) table.rows) i k
  -- these matches are the partners, which are found by the names of the same two columns
  have hpartners (row : Row) :
      s.partners j flow.schema row =
        (MatchTable.ofRows k table.rows).rowsOf (row.getD i .null) := by
    rw [partners, table_eq_ok htable, hi, hk]
  simp only [hpartners, table_eq_ok htable]
  simpa [Flow.ofRows, Flow.schema] using hjoined

/-- Which rows are paired depends on the row alone that stands where the join starts from. -/
theorem mem_partners_iff_of_holds (haccepted : Catalog.of entities fallback = .ok c)
    (hplain : c.Plain) (hfits : s.Fits c) (ha : c.attribute? source name = some a)
    (htype : a.type = .association target cardinality) (hoverride : c.override? source name = none)
    (hj : Planner.join c ⟨Path.dotted (names ++ [name]), source, name, target, cardinality⟩ = .ok j)
    (has : s.IsTable c source as) (hbs : s.IsTable c target bs) {column : String}
    (hcolumn : j.leftKey = Path.dotted (names ++ [column]))
    (hrow : HoldsAt c schema names source as row own) :
    other ∈ s.partners j schema row ↔ other ∈ bs.rows ∧
      (own.cell as.schema.names column).meets (other.cell bs.schema.names j.rightKey) = true := by
  obtain ⟨source', table, found, type, hsource, htarget, htable, hkey, hmem, hleft, hright⟩ :=
    exists_columns haccepted hplain hfits ha htype hoverride hj hrow.laid
  obtain rfl : found = column := Path.dotted_append_inj.mp (hkey.symm.trans hcolumn)
  obtain rfl : source' = as.schema := hsource.unique (has.fits hfits).2
  obtain rfl := htarget.unique hbs
  rw [mem_partners_iff (List.mem_map_of_mem hleft)
    (by rw [table_eq_ok htable]; exact List.mem_map_of_mem hright), table_eq_ok htable, hcolumn,
    hrow.cell _ hmem]

/-- The join that is planned for an association of an entity at some names; it can be put on every
flow in which the entity stands there, and extends the rows by their partners. -/
structure IsJoinOf (c : Catalog) (s : Store) (names : List String) (source : String)
    (a : Attribute) (j : Join) : Prop where
  planned : ∃ target cardinality, a.type = .association target cardinality ∧
    Planner.join c ⟨Path.dotted (names ++ [a.name]), source, a.name, target, cardinality⟩ = .ok j
  joins : ∀ flow : Flow, c.LaidAt flow.schema names source → s.JoinsPartners j flow

theorem exists_isJoinOf (haccepted : Catalog.of entities fallback = .ok c) (hplain : c.Plain)
    (hfits : s.Fits c) (ha : c.attribute? source a.name = some a)
    (htype : a.type = .association target cardinality)
    (hoverride : c.override? source a.name = none) (names : List String) :
    ∃ j, Planner.join c ⟨Path.dotted (names ++ [a.name]), source, a.name, target,
      cardinality⟩ = .ok j ∧
      s.IsJoinOf c names source a j := by
  have hknown : JoinStep.Known c ⟨Path.dotted (names ++ [a.name]), source, a.name, target,
      cardinality⟩ := ⟨a, ha, htype⟩
  obtain ⟨j, hj⟩ := Planner.exists_join haccepted hplain.attributes hknown
  exact ⟨j, hj, ⟨target, cardinality, htype, hj⟩, fun flow hlaid =>
    joins_partners haccepted hplain hfits ha htype hoverride hj hlaid⟩

/-- An association with many targets is the inverse of the one that it is mapped by.  Its join pairs
a row with those rows of the target in which the column of that attribute holds the identifier of
the row; and wherever the two rows stand in joined rows, the join of that attribute, if its column
is not overridden, pairs them the other way round. -/
theorem partners_inverse (haccepted : Catalog.of entities fallback = .ok c) (hplain : c.Plain)
    (hfilled : s.Filled c) {mappedBy : String} (ha : c.attribute? source a.name = some a)
    (htype : a.type = .association target (.toMany mappedBy))
    (hoverride : c.override? source a.name = none) (has : s.IsTable c source as)
    (hbs : s.IsTable c target bs) (names : List String) :
    ∃ m column id j, c.attribute? target mappedBy = some m ∧
      c.physicalColumn? target m = some column ∧
      c.idAttribute source = .ok id ∧ s.IsJoinOf c names source a j ∧
      ∀ {schema row own other}, HoldsAt c schema names source as row own → other ∈ bs.rows →
        (other ∈ s.partners j schema row ↔
          (other.cell bs.schema.names column).isNull = false ∧
            (other.cell bs.schema.names column).sameKey
              (own.cell as.schema.names (c.columnName source id.name)) = true) ∧
        (c.override? target mappedBy = none → ∀ names', ∃ back, s.IsJoinOf c names' target m back ∧
          ∀ {schema' row'}, HoldsAt c schema' names' target bs row' other →
            (other ∈ s.partners j schema row ↔ own ∈ s.partners back schema' row')) := by
  have hfits := hfilled.fits hplain
  -- the attribute that it is mapped by leads back with one target
  obtain ⟨m, joinColumn, hm, hmtype⟩ :=
    Catalog.leadsBack_of_toMany haccepted hplain.attributes ha htype
  obtain ⟨j, hj, hjoin⟩ := exists_isJoinOf haccepted hplain hfits ha htype hoverride names
  obtain ⟨id, hid, hleft, hright⟩ := Planner.keys_of_toMany hj hm hmtype
  refine ⟨m, j.rightKey, id, j, hm, hright, hid, hjoin,
    fun {schema row own other} hrow hother => ?_⟩
  have hkey : j.leftKey = Path.dotted (names ++ [c.columnName source id.name]) :=
    hleft.trans (Path.qualified_beforeLast? (hrow.laid.dotless_append hplain ha) _)
  -- one direction: the identifier of the row meets the column of that attribute
  have hpairs : other ∈ s.partners j schema row ↔
      (own.cell as.schema.names (c.columnName source id.name)).meets
        (other.cell bs.schema.names j.rightKey) = true := by
    rw [mem_partners_iff_of_holds haccepted hplain hfits ha htype hoverride hj has hbs hkey hrow]
    exact and_iff_right hother
  refine ⟨hpairs.trans Value.meets_iff, fun hmoverride names' => ?_⟩
  obtain ⟨rfl, -⟩ := Catalog.name_of_attribute? hm
  -- the other direction starts from this column and leads to the identifier
  obtain ⟨back, hback, hbackJoin⟩ :=
    exists_isJoinOf haccepted hplain hfits hm hmtype hmoverride names'
  refine ⟨back, hbackJoin, fun {schema' row'} hrow' => ?_⟩
  obtain ⟨id', hid', hbackLeft, hbackRight⟩ := Planner.keys_of_toOne hback
  obtain rfl : id = id' := Except.ok.inj (hid.symm.trans hid')
  have hbackKey : back.leftKey = Path.dotted (names' ++ [joinColumn]) :=
    hbackLeft.trans (Path.qualified_beforeLast? (hrow'.laid.dotless_append hplain hm) _)
  have hcolumn : j.rightKey = joinColumn := by
    rw [Catalog.physicalColumn?, hmoverride, hmtype] at hright
    exact (Option.some.inj hright).symm
  -- both are the same condition, read from the one row or from the other
  rw [hpairs,
    mem_partners_iff_of_holds haccepted hplain hfits hm hmtype hmoverride hback hbs has
      hbackKey hrow',
    hbackRight, hcolumn, Value.meets_comm]
  exact (and_iff_right hrow.mem).symm

/-- An author and a book of this author. -/
theorem partners_inverse_shelf :
    ∃ as bs own other j back m, Shelf.store.table "Author" = .ok as ∧
      Shelf.store.table "Book" = .ok bs ∧
      own ∈ as.rows ∧ other ∈ bs.rows ∧ Shelf.catalog.attribute? "Book" "author" = some m ∧
      Shelf.store.IsJoinOf Shelf.catalog [] "Author" ⟨"books",
        .association "Book" (.toMany "author")⟩ j ∧
      Shelf.store.IsJoinOf Shelf.catalog [] "Book" m back ∧
      other ∈ Shelf.store.partners j as.schema own ∧
      own ∈ Shelf.store.partners back bs.schema other := by
  have haccepted : Catalog.of Shelf.catalog.entities none = .ok Shelf.catalog := rfl
  have hplain : Shelf.catalog.Plain := by decide
  have hfits := Shelf.filled.fits hplain
  have htables : ∃ as bs, Shelf.store.table "Author" = .ok as ∧ Shelf.store.table "Book" = .ok bs ∧
      [.int64 1, .text "Borges"] ∈ as.rows ∧ [.int64 1, .text "Ficciones", .int64 1] ∈ bs.rows ∧
      as.schema.names = ["id", "name"] ∧ bs.schema.names = ["id", "title", "author_id"] :=
    ⟨_, _, rfl, rfl, List.mem_of_getElem? (i := 1) rfl, List.mem_of_getElem? (i := 0) rfl, rfl, rfl⟩
  obtain ⟨as, bs, has, hbs, hown, hother, hasNames, hbsNames⟩ := htables
  have hauthors : Shelf.store.IsTable Shelf.catalog "Author" as := ⟨_, rfl, has⟩
  have hbooks : Shelf.store.IsTable Shelf.catalog "Book" bs := ⟨_, rfl, hbs⟩
  obtain ⟨m, column, id, j, hm, hcolumn, hid, hj, hpairs⟩ :=
    partners_inverse haccepted hplain Shelf.filled
      (a := ⟨"books", .association "Book" (.toMany "author")⟩)
      rfl rfl rfl hauthors hbooks []
  obtain ⟨hpair, hback⟩ := hpairs (.self hplain ⟨_, rfl⟩ (hauthors.fits hfits).2 hown) hother
  obtain ⟨back, hbackJoin, hinverse⟩ := hback rfl []
  -- the book holds the identifier of the author
  obtain rfl : (⟨"author", _⟩ : Attribute) = m := Option.some.inj hm
  obtain rfl : "author_id" = column := Option.some.inj hcolumn
  obtain rfl : (⟨"id", _⟩ : Attribute) = id := Except.ok.inj hid
  have hpair := hpair.mpr (by rw [hasNames, hbsNames]; exact ⟨rfl, rfl⟩)
  have hinverse := hinverse (.self hplain ⟨_, rfl⟩ (hbooks.fits hfits).2 hother)
  exact ⟨as, bs, _, _, j, back, _, has, hbs, hown, hother, rfl, hj, hbackJoin, hpair,
    hinverse.mp hpair⟩

end Store

end EntityQuery
