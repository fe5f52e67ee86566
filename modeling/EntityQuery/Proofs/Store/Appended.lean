import EntityQuery.Proofs.Store.Filled

/-!
# Rows behind rows

Rows are added at the end of the table of their entity, and nothing else is changed.  A data set is
taken row by row in its own order, up to the first row that is refused, or to the first entity whose
value is no array of rows.  What stands in front of that has been added, nothing that stands behind
it has, and what is refused leaves no trace.

Whether a row is refused depends on the columns of its table only.  These stay as they are, so the
first row that is refused is the first one that the store would refuse before anything is loaded
(`GrownBy.readItem_eq`).

## Main definitions

* `LoadItem.ofData` : what a data set gives, in its order
* `Store.readRow`, `Store.readItem` : the row that is read for an entity, and the table that it is
  for
* `Store.GrownBy` : a store with rows added at the end of its tables
* `Store.Loads` : what stands in front of the first item that is refused has been added

## Main statements

* `insert_cases` : a row is added or refused
* `loads_insertAll`, `loads_loadMembers` : the rows of one entity, and of several
* `loaded_in_order` : a data set
-/

namespace EntityQuery

/-! ## Data sets -/

/-- A part of a data set: a row for an entity, a value that is given for an entity in place of its
rows, or a value in place of the whole data set. -/
inductive LoadItem where
  | row (entity : String) (json : Json)
  | noRows (entity : String)
  | noData

namespace LoadItem

/-- What the members of a data set give. -/
def ofMembers : List (String × Json) → List LoadItem
  | [] => []
  | (entity, .arr rows) :: rest => rows.map (row entity) ++ ofMembers rest
  | (entity, _) :: rest => noRows entity :: ofMembers rest

/-- What a data set gives. -/
def ofData : Json → List LoadItem
  | .obj members => ofMembers members
  | _ => [noData]

end LoadItem

namespace Store

/-! ## Reading rows -/

/-- The row that is read for an entity, behind the name of its table. -/
def readRow (s : Store) (entity : String) (json : Json) : Except StoreFault (String × Row) := do
  let name ← s.tableName entity
  let table ← s.table name
  let row ← (Row.ofJson table.columns json).mapError (.invalidRow entity)
  return (name, row)

/-- The row that is read from a part of a data set. -/
def readItem (s : Store) : LoadItem → Except StoreFault (String × Row)
  | .row entity json => s.readRow entity json
  | .noRows entity => throw (.invalidRow entity .rowsNotArray)
  | .noData => throw (.invalidRow "<data>" .dataNotObject)

/-! ## Tables that grow -/

/-- Of rows for several tables, those for one of them. -/
def rowsFor (name : String) (added : List (String × Row)) : List Row :=
  added.filterMap fun a => if a.1 = name then some a.2 else none

theorem mem_rowsFor {name : String} {added : List (String × Row)} {row : Row} :
    row ∈ rowsFor name added ↔ (name, row) ∈ added := by
  rw [rowsFor, List.mem_filterMap]
  constructor
  · rintro ⟨⟨other, found⟩, hmem, hfound⟩
    obtain ⟨rfl, hsame⟩ := Option.ite_none_right_eq_some.mp hfound
    rwa [← Option.some.inj hsame]
  · exact fun hmem => ⟨_, hmem, if_pos rfl⟩

/-- A store whose tables are those of another one with some rows added at their ends. -/
structure GrownBy (s : Store) (added : List (String × Row)) (next : Store) : Prop where
  entityTables : next.entityTables = s.entityTables
  names : next.tables.map Prod.fst = s.tables.map Prod.fst
  tables : ∀ name, next.tables.lookup name =
    (s.tables.lookup name).map fun table => { table with rows := table.rows ++ rowsFor name added }

namespace GrownBy

variable {s next last : Store} {added more : List (String × Row)}

theorem refl (s : Store) : s.GrownBy [] s where
  entityTables := rfl
  names := rfl
  tables name := by cases s.tables.lookup name <;> simp [rowsFor]

theorem trans (hnext : s.GrownBy added next) (hlast : next.GrownBy more last) :
    s.GrownBy (added ++ more) last where
  entityTables := hlast.entityTables.trans hnext.entityTables
  names := hlast.names.trans hnext.names
  tables name := by
    rw [hlast.tables, hnext.tables]
    cases s.tables.lookup name <;> simp [rowsFor]

/-- What is read for an entity does not depend on the rows. -/
theorem readRow_eq (hnext : s.GrownBy added next) (entity : String) (json : Json) :
    next.readRow entity json = s.readRow entity json := by
  have hname : next.tableName entity = s.tableName entity := by
    rw [tableName, tableName, hnext.entityTables]
  unfold readRow
  rw [hname]
  cases s.tableName entity with
  | error fault => rfl
  | ok name =>
      simp only [Outcome.ok_bind, table, hnext.tables]
      cases s.tables.lookup name <;> rfl

theorem readItem_eq (hnext : s.GrownBy added next) (item : LoadItem) :
    next.readItem item = s.readItem item := by
  cases item with
  | row entity json => exact hnext.readRow_eq entity json
  | noRows entity => rfl
  | noData => rfl

end GrownBy

/-! ## One row -/

variable {s next last : Store} {entity : String}

/-- A row that is read is added at the end of its table. -/
theorem grownBy_of_insert {json : Json} (hinsert : s.insert entity json = .ok next) :
    ∃ name row, s.tableName entity = .ok name ∧ s.readRow entity json = .ok (name, row) ∧
      s.GrownBy [(name, row)] next := by
  obtain ⟨name, table, row, hname, htable, hrow, rfl⟩ := insert_eq_ok hinsert
  have hread : s.tableName entity = .ok name ∧ s.table name = .ok table :=
    ⟨tableName_eq_ok_iff.mpr hname, table_eq_ok_iff.mpr htable⟩
  refine ⟨name, row, hread.1, by simp [readRow, hread, hrow, Except.mapError], rfl, ?_,
    fun other => ?_⟩
  · -- the name of the table is there already
    have hmem : name ∈ s.tables.map Prod.fst := List.mem_map_of_mem (Keyed.mem_of_lookup htable)
    rw [putTable, Keyed.map_put, if_pos hmem]
  · rw [lookup_putTable]
    by_cases hother : other = name
    · simp [hother, htable, rowsFor]
    · have hapart : name ≠ other := Ne.symm hother
      cases s.tables.lookup other <;> simp [hother, hapart, rowsFor]

/-- A row that is refused is one that is not read. -/
theorem readRow_of_insert {json : Json} {fault : StoreFault}
    (hinsert : s.insert entity json = .error fault) : s.readRow entity json = .error fault := by
  unfold Store.insert at hinsert
  unfold readRow
  cases hname : s.tableName entity with
  | error other => simpa [hname] using hinsert
  | ok name =>
      cases htable : s.table name with
      | error other => simpa [hname, htable] using hinsert
      | ok table =>
          cases hrow : (Row.ofJson table.columns json).mapError (StoreFault.invalidRow entity) with
          | error other => simpa [hname, htable, hrow] using hinsert
          | ok row => simp [hname, htable, hrow] at hinsert

/-- A row is added at the end of the table of its entity, or it is refused and nothing has been
added. -/
theorem insert_cases (s : Store) (entity : String) (json : Json) :
    (∃ next name row, s.insert entity json = .ok next ∧ s.tableName entity = .ok name ∧
        s.readRow entity json = .ok (name, row) ∧ s.GrownBy [(name, row)] next) ∨
      ∃ fault, s.insert entity json = .error fault ∧ s.readRow entity json = .error fault ∧
        s.insertAll entity [json] = (s, 0, some fault) := by
  cases hinsert : s.insert entity json with
  | ok next =>
      obtain ⟨name, row, hname, hread, hgrown⟩ := grownBy_of_insert hinsert
      exact .inl ⟨next, name, row, rfl, hname, hread, hgrown⟩
  | error fault => exact .inr ⟨fault, rfl, readRow_of_insert hinsert, by simp [insertAll, hinsert]⟩

/-! ## Many rows -/

/-- Of some items, those in front of the first that is refused have been added, in their order. -/
def Loads (s : Store) (items : List LoadItem) (next : Store) (count : Nat)
    (fault : Option StoreFault) : Prop :=
  ∃ before after added, items = before ++ after ∧
    List.Forall₂ (fun item row => s.readItem item = .ok row) before added ∧
    s.GrownBy added next ∧ count = before.length ∧
    match fault with
    | none => after = []
    | some fault => ∃ item rest, after = item :: rest ∧ s.readItem item = .error fault

namespace Loads

variable {items more : List LoadItem} {count others : Nat} {fault : Option StoreFault}

theorem nil (s : Store) : s.Loads [] s 0 none :=
  ⟨[], [], [], rfl, .nil, .refl s, rfl, rfl⟩

theorem refused {item : LoadItem} {fault : StoreFault} (hitem : s.readItem item = .error fault)
    (items : List LoadItem) : s.Loads (item :: items) s 0 (some fault) :=
  ⟨[], item :: items, [], rfl, .nil, .refl s, rfl, item, items, rfl, hitem⟩

theorem of_insert {json : Json} (hinsert : s.insert entity json = .ok next) :
    s.Loads [.row entity json] next 1 none := by
  obtain ⟨name, row, -, hread, hgrown⟩ := grownBy_of_insert hinsert
  exact ⟨[.row entity json], [], [(name, row)], rfl, .cons hread .nil, hgrown, rfl, rfl⟩

/-- What stands behind an item that is refused is not looked at. -/
theorem append {fault : StoreFault} (hload : s.Loads items next count (some fault))
    (more : List LoadItem) : s.Loads (items ++ more) next count (some fault) := by
  obtain ⟨before, after, added, rfl, hread, hgrown, hcount, item, rest, rfl, hitem⟩ := hload
  exact ⟨before, item :: rest ++ more, added, by simp, hread, hgrown, hcount, item, rest ++ more,
    rfl, hitem⟩

theorem trans (hload : s.Loads items next count none) (hmore : next.Loads more last others fault) :
    s.Loads (items ++ more) last (count + others) fault := by
  obtain ⟨before, _, added, rfl, hread, hgrown, rfl, rfl⟩ := hload
  obtain ⟨front, back, further, rfl, hfurther, hlast, rfl, hback⟩ := hmore
  -- the store that has grown reads and refuses what the first one does
  simp only [hgrown.readItem_eq] at hfurther hback
  refine ⟨before ++ front, back, added ++ further, by simp, List.rel_append hread hfurther,
    hgrown.trans hlast, (List.length_append ..).symm, hback⟩

end Loads

/-- The rows of one entity. -/
theorem loads_insertAll (s : Store) (entity : String) (rows : List Json) :
    s.Loads (rows.map (.row entity)) (s.insertAll entity rows).1 (s.insertAll entity rows).2.1
      (s.insertAll entity rows).2.2 := by
  induction rows generalizing s with
  | nil => exact .nil s
  | cons json rows ih =>
      rw [insertAll]
      cases hinsert : s.insert entity json with
      | error fault =>
          have hitem : s.readItem (.row entity json) = .error fault := readRow_of_insert hinsert
          exact .refused hitem _
      | ok next =>
          have hall := (Loads.of_insert hinsert).trans (ih next)
          rwa [Nat.add_comm] at hall

/-- The rows of several entities. -/
theorem loads_loadMembers (s : Store) (members : List (String × Json)) :
    s.Loads (LoadItem.ofMembers members) (s.loadMembers members).1 (s.loadMembers members).2.1
      (s.loadMembers members).2.2 := by
  induction members generalizing s with
  | nil => exact .nil s
  | cons m members ih =>
      obtain ⟨entity, json⟩ := m
      cases json with
      | arr rows =>
          have hrows := s.loads_insertAll entity rows
          rw [LoadItem.ofMembers, loadMembers]
          generalize s.insertAll entity rows = result at hrows ⊢
          obtain ⟨next, count, fault⟩ := result
          cases fault with
          | some fault => exact hrows.append _
          | none => exact hrows.trans (ih next)
      | null | bool _ | int _ | real _ | str _ | obj _ => exact .refused rfl _

/-- A row is added at the end of the table of its entity, or it is refused and nothing changes.  Of
a data set, the rows in front of the first part that is refused have been added at the ends of the
tables, in the order in which they are given; if no part is refused, this is the number of all of
them. -/
theorem loaded_in_order (s : Store) (entity : String) (json data : Json) :
    ((∃ next name row, s.insert entity json = .ok next ∧ s.tableName entity = .ok name ∧
        s.readRow entity json = .ok (name, row) ∧ s.GrownBy [(name, row)] next) ∨
      ∃ fault, s.insert entity json = .error fault ∧ s.readRow entity json = .error fault ∧
        s.insertAll entity [json] = (s, 0, some fault)) ∧
    ∃ before after added, LoadItem.ofData data = before ++ after ∧
      List.Forall₂ (fun item row => s.readItem item = .ok row) before added ∧
      s.GrownBy added (s.load data).1 ∧
      ((after = [] ∧ (s.load data).2 = .ok before.length) ∨
        ∃ item rest fault, after = item :: rest ∧ s.readItem item = .error fault ∧
          (s.load data).2 = .error fault) := by
  refine ⟨s.insert_cases entity json, ?_⟩
  cases data with
  | obj members =>
      obtain ⟨before, after, added, hitems, hread, hgrown, hcount, hfault⟩ :=
        s.loads_loadMembers members
      rw [Store.load]
      generalize s.loadMembers members = result at hgrown hcount hfault ⊢
      obtain ⟨next, count, fault⟩ := result
      cases fault with
      | none =>
          exact ⟨before, after, added, hitems, hread, hgrown,
            .inl ⟨hfault, congrArg Except.ok hcount⟩⟩
      | some fault =>
          obtain ⟨item, rest, hafter, hitem⟩ := hfault
          exact ⟨before, after, added, hitems, hread, hgrown,
            .inr ⟨item, rest, fault, hafter, hitem, rfl⟩⟩
  | null | bool _ | int _ | real _ | str _ | arr _ =>
      exact ⟨[], [.noData], [], rfl, .nil, .refl s, .inr ⟨.noData, [], _, rfl, rfl, rfl⟩⟩

end Store

end EntityQuery
