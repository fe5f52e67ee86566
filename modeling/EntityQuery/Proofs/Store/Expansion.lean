import EntityQuery.Proofs.Flow.Stages
import EntityQuery.Proofs.Store.Filled
import EntityQuery.Proofs.Store.Layout
import EntityQuery.Proofs.Value.SameKey
import EntityQuery.Store.Fetch

/-!
# The expansion of a row

The left outer joins of a plan expand a row of the root into the rows that its associations lead to.
Here the expansion is defined one join after the other on the tables themselves: all rows of the
joined table whose value meets that of the row so far, or nulls if there is none.  The flow that a
store builds for closed joins, with its match tables and its rows that are ready, yields exactly the
expansions of the rows of the root.

The proof is by induction on closed joins, which grow at the end as the flow does.  The invariant
`Store.Joined` says that the schema of the flow is laid out for the places so far, and that all
expanded rows conform to it; with it the columns of the next join are found and have one type, so
that the join can be built and its match table is exact.

## Main definitions

* `Store.expand` : the expansion of a row by some joins
* `Store.joinedSchema` : the columns of an expanded row
* `Store.Joined` : a flow that yields the expansions of the rows of a table

## Main statements

* `Joined.snoc` : one more join
* `exists_joined` : the flow of closed joins can be built, and yields the expansions of the rows of
  the root
-/

namespace EntityQuery

namespace Store

variable (s : Store)

/-! ## Expansions -/

/-- The table of a name; an empty one if there is none. -/
def tableNamed (name : String) : Table := (s.tables.lookup name).getD (.empty [])

/-- The rows that one more join makes of a row: one for each row of the joined table whose value
meets the one that the join starts from, or one filled up with nulls. -/
def extend (j : Join) (schema : Schema) (row : Row) : List Row :=
  let table := s.tableNamed j.table
  Flow.joined table.schema.length row <| table.rows.filter fun right =>
    (row.cell schema.names j.leftKey).meets (right.cell table.schema.names j.rightKey)

/-- The columns of a row with those of one more join. -/
def extendSchema (j : Join) (schema : Schema) : Schema :=
  schema ++ (s.tableNamed j.table).schema.under j.path

/-- The rows that some joins make of a row. -/
def expand : List Join → Schema → Row → List Row
  | [], _, row => [row]
  | j :: rest, schema, row =>
    (s.extend j schema row).flatMap (expand rest (s.extendSchema j schema))

/-- The columns of a row with those of some joins. -/
def joinedSchema : List Join → Schema → Schema
  | [], schema => schema
  | j :: rest, schema => joinedSchema rest (s.extendSchema j schema)

variable {s}

theorem joinedSchema_append (joins more : List Join) (schema : Schema) :
    s.joinedSchema (joins ++ more) schema = s.joinedSchema more (s.joinedSchema joins schema) := by
  induction joins generalizing schema with
  | nil => rfl
  | cons j joins ih => exact ih _

theorem expand_append (joins more : List Join) (schema : Schema) (row : Row) :
    s.expand (joins ++ more) schema row =
      (s.expand joins schema row).flatMap (s.expand more (s.joinedSchema joins schema)) := by
  induction joins generalizing schema row with
  | nil => simp [expand, joinedSchema]
  | cons j joins ih =>
      rw [List.cons_append, expand, expand, List.flatMap_assoc, joinedSchema]
      congr 1
      funext next
      exact ih _ next

theorem expand_singleton (j : Join) (schema : Schema) (row : Row) :
    s.expand [j] schema row = s.extend j schema row := by
  simp [expand]

theorem extend_ne_nil (j : Join) (schema : Schema) (row : Row) : s.extend j schema row ≠ [] := by
  unfold extend Flow.joined
  dsimp only
  split
  · simp
  · next h => simpa using h

theorem expand_ne_nil (joins : List Join) (schema : Schema) (row : Row) :
    s.expand joins schema row ≠ [] := by
  induction joins generalizing schema row with
  | nil => simp [expand]
  | cons j joins ih =>
      obtain ⟨first, hfirst⟩ := List.exists_mem_of_ne_nil _ (extend_ne_nil (s := s) j schema row)
      obtain ⟨last, hlast⟩ := List.exists_mem_of_ne_nil _ (ih (s.extendSchema j schema) first)
      exact List.ne_nil_of_mem (List.mem_flatMap.mpr ⟨first, hfirst, hlast⟩)

theorem exists_append_of_mem_extend {j : Join} {schema : Schema} {row extended : Row}
    (h : extended ∈ s.extend j schema row) : ∃ rest, extended = row ++ rest := by
  unfold extend Flow.joined at h
  dsimp only at h
  split at h
  · exact ⟨_, List.mem_singleton.mp h⟩
  · obtain ⟨right, -, rfl⟩ := List.mem_map.mp h
    exact ⟨right, rfl⟩

theorem exists_append_of_mem_expand {joins : List Join} {schema : Schema} {row expanded : Row}
    (h : expanded ∈ s.expand joins schema row) : ∃ rest, expanded = row ++ rest := by
  induction joins generalizing schema row with
  | nil => exact ⟨[], by simpa [expand] using h⟩
  | cons j joins ih =>
      obtain ⟨first, hfirst, h⟩ := List.mem_flatMap.mp h
      obtain ⟨rest, rfl⟩ := exists_append_of_mem_extend hfirst
      obtain ⟨last, rfl⟩ := ih h
      exact ⟨rest ++ last, List.append_assoc ..⟩

theorem exists_append_joinedSchema (joins : List Join) (schema : Schema) :
    ∃ rest, s.joinedSchema joins schema = schema ++ rest := by
  induction joins generalizing schema with
  | nil => exact ⟨[], by simp [joinedSchema]⟩
  | cons j joins ih =>
      obtain ⟨rest, hrest⟩ := ih (s.extendSchema j schema)
      exact ⟨(s.tableNamed j.table).schema.under j.path ++ rest,
        by rw [joinedSchema, hrest, extendSchema, List.append_assoc]⟩

/-! ## Conforming rows -/

theorem conforms_of_mem_extend {j : Join} {schema : Schema} {row extended : Row}
    (hrow : row.Conforms schema)
    (htable : ∀ right ∈ (s.tableNamed j.table).rows, right.Conforms (s.tableNamed j.table).schema)
    (h : extended ∈ s.extend j schema row) : extended.Conforms (s.extendSchema j schema) := by
  unfold extend Flow.joined at h
  dsimp only at h
  split at h
  · rw [List.mem_singleton.mp h]
    refine hrow.append ?_
    have hnulls := Row.conforms_nulls (s.tableNamed j.table).schema
    exact hnulls.under j.path
  · obtain ⟨right, hright, rfl⟩ := List.mem_map.mp h
    exact hrow.append ((htable right (List.mem_of_mem_filter hright)).under j.path)

/-! ## The flow of closed joins -/

variable {c : Catalog} {entities : List Entity} {fallback : Option ScalarType} {root : String}

theorem table_eq_ok {name : String} {table : Table} (htable : s.table name = .ok table) :
    s.tableNamed name = table := by
  rw [tableNamed, table_eq_ok_iff.mp htable, Option.getD_some]

theorem leftJoin_eq_ok {left right : Flow} {leftKey rightKey : String} {i k : Nat}
    {first second : Column} (hi : left.schema.position? leftKey = some i)
    (hfirst : left.schema[i]? = some first) (hk : right.schema.position? rightKey = some k)
    (hsecond : right.schema[k]? = some second) (htypes : first.type = second.type) :
    left.leftJoin right leftKey rightKey = .ok (.join left right i k .empty [] false) := by
  simp [Flow.leftJoin, hi, hk, hfirst, hsecond, htypes]

theorem joined_eq_extend {j : Join} {schema : Schema} {i k : Nat}
    (hi : schema.position? j.leftKey = some i)
    (hk : (s.tableNamed j.table).schema.position? j.rightKey = some k) (row : Row) :
    Flow.joined (s.tableNamed j.table).schema.length row
        ((MatchTable.ofRows k (s.tableNamed j.table).rows).rowsOf (row.getD i .null)) =
      s.extend j schema row := by
  unfold extend
  dsimp only
  rw [MatchTable.rowsOf_ofRows, Row.cell_eq_getD hi]
  congr 1
  refine List.filter_congr fun right _ => ?_
  rw [Row.cell_eq_getD hk]

/-- A flow yields the rows that joins make of the rows of a table, all of which conform to its
schema; and its schema is laid out for the places that the joins lead to. -/
structure Joined (c : Catalog) (s : Store) (places : List Place) (joins : List Join) (table : Table)
    (flow : Flow) :
    Prop where
  built : joins.foldlM s.addJoin (.ofRows table.schema table.rows) = .ok flow
  schema : flow.schema = s.joinedSchema joins table.schema
  laid : Laid c places flow.schema
  conforms : ∀ row ∈ table.rows, ∀ expanded ∈ s.expand joins table.schema row,
    expanded.Conforms flow.schema
  runs : flow.Runs (table.rows.flatMap (s.expand joins table.schema)) none

/-- Without joins the rows of the table itself are yielded. -/
theorem Joined.ofTable (hplain : c.Plain) (hroot : c.Knows root) {table : Table}
    (hschema : c.HasSchema root table.schema)
    (hrows : ∀ row ∈ table.rows, row.Conforms table.schema) :
    Joined c s [⟨[], root⟩] [] table (.ofRows table.schema table.rows) where
  built := rfl
  schema := rfl
  laid := Laid.ofRoot hplain hroot hschema
  conforms := by
    intro row hrow expanded hexpanded
    rw [List.mem_singleton.mp hexpanded]
    exact hrows row hrow
  runs := by
    have hexpand : table.rows.flatMap (s.expand [] table.schema) = table.rows := by simp [expand]
    rw [hexpand]
    exact Flow.runs_ofRows _ _

/-- A join can be put on a flow that has the column in which it starts. -/
theorem addJoin_eq_ok {flow : Flow} {j : Join} {other : Table}
    (hother : s.table j.table = .ok other) {i k : Nat} {first second : Column}
    (hi : flow.schema.position? j.leftKey = some i) (hfirst : flow.schema[i]? = some first)
    (hk : other.schema.position? j.rightKey = some k) (hsecond : other.schema[k]? = some second)
    (htypes : first.type = second.type) :
    s.addJoin flow j =
      .ok (.join flow (.ofRows (other.schema.under j.path) other.rows) i k .empty [] false) := by
  have hscan : s.scanJoin j = .ok (.ofRows (other.schema.under j.path) other.rows) := by
    simp [scanJoin, hother]
  have hk' := (Schema.position?_under j.path other.schema j.rightKey).trans hk
  have hsecond' : (other.schema.under j.path)[k]? =
      some { second with name := j.path ++ "." ++ second.name } := by
    rw [Schema.getElem?_under, hsecond]
    rfl
  have hjoin : flow.leftJoin (.ofRows (other.schema.under j.path) other.rows) j.leftKey
      (j.path ++ "." ++ j.rightKey) =
      .ok (.join flow (.ofRows (other.schema.under j.path) other.rows) i k .empty [] false) :=
    leftJoin_eq_ok hi hfirst hk' hsecond' htypes
  simp [addJoin, hscan, hjoin, Except.mapError]

/-- One more join, of an association of an entity at one of the places. -/
theorem Joined.snoc (haccepted : Catalog.of entities fallback = .ok c) (hplain : c.Plain)
    (hfits : s.Fits c) (hroot : c.Knows root) {steps : List JoinStep} {places : List Place}
    (hclosed : Closed c root steps places) {p : Place} (hp : p ∈ places) {name target : String}
    {a : Attribute} {cardinality : Cardinality} (ha : c.attribute? p.entity name = some a)
    (htype : a.type = .association target cardinality)
    (hoverride : c.override? p.entity name = none)
    (hnew : ∀ q ∈ places, q.names ≠ p.names ++ [name]) {j : Join}
    (hj : Planner.join c ⟨Path.dotted (p.names ++ [name]), p.entity, name, target,
      cardinality⟩ = .ok j)
    {joins : List Join} {table : Table} {flow : Flow}
    (hjoined : Joined c s places joins table flow) :
    ∃ next, Joined c s (places ++ [⟨p.names ++ [name], target⟩]) (joins ++ [j]) table next := by
  have hdotless : ∀ n ∈ p.names ++ [name], Path.Dotless n :=
    (Closed.snoc hclosed hp ha htype hoverride hnew).dotless hplain.names
      (List.mem_append_right _ (List.mem_singleton.mpr rfl))
  -- the tables on both sides of the join, and the columns in which they are joined
  obtain ⟨source, hsource⟩ := hclosed.knows haccepted hplain.attributes hroot hp
  obtain ⟨own, -, hown, -⟩ := hfits.exists_table hsource
  obtain ⟨t, ht⟩ := Catalog.knows_target haccepted hplain.attributes ha htype
  obtain ⟨other, hother, hotherSchema, hotherRows⟩ := hfits.exists_table ht
  obtain ⟨hpath, -, ⟨t', ht', hname⟩, column, type, hleftKey, hleft, hright⟩ :=
    exists_keys_of_join haccepted hplain hdotless ha htype hoverride hown hotherSchema hj
  obtain rfl : t = t' := Option.some.inj (ht.symm.trans ht')
  rw [← hname] at hother
  have hnamed : s.tableNamed j.table = other := table_eq_ok hother
  obtain ⟨i, hi, hfirst⟩ :=
    Schema.exists_position? hjoined.laid.nodup (hjoined.laid.mem p hp _ hown _ hleft)
  obtain ⟨k, hk, hsecond⟩ := Schema.exists_position? (hotherSchema.nodup hplain ⟨t, ht⟩) hright
  rw [← hleftKey] at hi
  have hnext : s.joinedSchema (joins ++ [j]) table.schema =
      flow.schema ++ other.schema.under j.path := by
    rw [joinedSchema_append, ← hjoined.schema, ← hnamed]
    rfl
  refine ⟨.join flow (.ofRows (other.schema.under j.path) other.rows) i k .empty [] false, ?_,
    hnext.symm, ?_, ?_, ?_⟩
  · rw [List.foldlM_append, hjoined.built, Outcome.ok_bind, List.foldlM_cons,
      addJoin_eq_ok hother hi hfirst hk hsecond rfl]
    rfl
  · rw [Flow.schema, Flow.ofRows, Flow.schema, hpath]
    exact hjoined.laid.snoc hplain (by simp)
      (fun q hq => hclosed.dotless hplain.names hq) hnew hdotless ⟨t, ht⟩ hotherSchema
  · intro row hrow expanded hexpanded
    rw [expand_append, ← hjoined.schema] at hexpanded
    obtain ⟨before, hbefore, hexpanded⟩ := List.mem_flatMap.mp hexpanded
    rw [expand_singleton] at hexpanded
    have hextended :=
      conforms_of_mem_extend (hjoined.conforms row hrow before hbefore)
        (hnamed ▸ hotherRows) hexpanded
    rwa [extendSchema, hnamed] at hextended
  · -- the match table of the join finds the rows of the expansion
    have hrun :=
      Flow.runs_join hjoined.runs (Flow.runs_ofRows (other.schema.under j.path) other.rows) i k
    have hsame : (table.rows.flatMap (s.expand joins table.schema)).flatMap (fun row =>
          Flow.joined (Flow.ofRows (other.schema.under j.path) other.rows).schema.length row
            ((MatchTable.ofRows k other.rows).rowsOf (row.getD i .null))) =
        table.rows.flatMap (s.expand (joins ++ [j]) table.schema) := by
      rw [List.flatMap_assoc]
      refine List.flatMap_congr fun row _ => ?_
      rw [expand_append, ← hjoined.schema]
      refine List.flatMap_congr fun before _ => ?_
      rw [expand_singleton, ← joined_eq_extend hi (hnamed ▸ hk) before, hnamed]
      simp [Flow.ofRows, Flow.schema]
    rwa [hsame] at hrun

/-- The flow of closed joins can be built, and yields the expansions of the rows of the root. -/
theorem exists_joined (haccepted : Catalog.of entities fallback = .ok c) (hplain : c.Plain)
    (hfits : s.Fits c) {e : Entity} (he : c.entity? root = some e) {steps : List JoinStep}
    {places : List Place} (hclosed : Closed c root steps places) {joins : List Join}
    (hjoins : steps.mapM (Planner.join c) = .ok joins) {table : Table}
    (htable : s.table e.tableName = .ok table) : ∃ flow, Joined c s places joins table flow := by
  have hroot : c.Knows root := ⟨e, he⟩
  obtain ⟨found, hfound, hschema, hrows⟩ := hfits.exists_table he
  obtain rfl : table = found := Except.ok.inj (htable.symm.trans hfound)
  induction hclosed generalizing joins with
  | root =>
      obtain rfl : [] = joins := Except.ok.inj hjoins
      exact ⟨_, .ofTable hplain hroot hschema hrows⟩
  | snoc hclosed hp ha htype hoverride hnew ih =>
      obtain ⟨joins, j, hinit, hj, rfl⟩ := Outcome.mapM_append_singleton_eq_ok hjoins
      obtain ⟨flow, hjoined⟩ := ih hinit
      exact hjoined.snoc haccepted hplain hfits hroot hclosed hp ha htype hoverride hnew hj

end Store

end EntityQuery
