import EntityQuery.Proofs.Store.Identified
import Mathlib.Data.List.Perm.Basic

/-!
# Rows in another order

The rows of a table are in the order in which they were added.  Where two stores hold the same rows
in different orders, joins make the same rows out of a row, again in different orders; so the same
rows of the root are meant.  And where rows are identified, a join with one target leads to the same
row.

## Main definitions

* `Store.Rearranged` : the rows of every entity in an order of their own

## Main statements

* `Rearranged.expand_perm` : joins make the same rows
* `Rearranged.target_eq` : a join with one target leads to the same row
-/

namespace EntityQuery.Store

theorem eq_of_perm_of_length_le_one {α : Type} {xs ys : List α} (hperm : xs.Perm ys)
    (hone : ys.length ≤ 1) : xs = ys := by
  match ys, hone with
  | [], _ => exact hperm.eq_nil
  | [y], _ => exact List.perm_singleton.mp hperm

/-- Another store has the rows of every entity in an order of its own. -/
def Rearranged (c : Catalog) (s other : Store) : Prop :=
  ∀ e ∈ c.entities, (other.tableNamed e.tableName).rows.Perm (s.tableNamed e.tableName).rows

namespace Rearranged

variable {c : Catalog} {entities : List Entity} {fallback : Option ScalarType}
  {s other : Store} {j : Join}

theorem tables (hsame : s.Rearranged c other) (hfits : s.Fits c) (hotherFits : other.Fits c)
    {name : String} {e : Entity} (he : c.entity? name = some e) :
    (other.tableNamed e.tableName).schema = (s.tableNamed e.tableName).schema ∧
      (other.tableNamed e.tableName).rows.Perm (s.tableNamed e.tableName).rows := by
  obtain ⟨table, htable, hschema, -⟩ := hfits.exists_table he
  obtain ⟨moved, hmoved, hmovedSchema, -⟩ := hotherFits.exists_table he
  refine ⟨?_, hsame e (Catalog.mem_of_entity? he).1⟩
  rw [table_eq_ok htable, table_eq_ok hmoved]
  exact hmovedSchema.unique hschema

section
variable (hsame : s.Rearranged c other) (hfits : s.Fits c) (hotherFits : other.Fits c)
include hsame hfits hotherFits

theorem schema_eq (hj : ∃ step, Planner.join c step = .ok j) :
    (other.tableNamed j.table).schema = (s.tableNamed j.table).schema := by
  obtain ⟨step, hj⟩ := hj
  obtain ⟨e, he, hname⟩ := Planner.exists_entity_of_join hj
  rw [hname, (hsame.tables hfits hotherFits he).1]

theorem extendSchema_eq (hj : ∃ step, Planner.join c step = .ok j) (schema : Schema) :
    other.extendSchema j schema = s.extendSchema j schema := by
  rw [extendSchema, extendSchema, hsame.schema_eq hfits hotherFits hj]

theorem joinedSchema_eq {joins : List Join}
    (hjoins : ∀ j ∈ joins, ∃ step, Planner.join c step = .ok j) (schema : Schema) :
    other.joinedSchema joins schema = s.joinedSchema joins schema := by
  induction joins generalizing schema with
  | nil => rfl
  | cons j joins ih =>
      rw [List.forall_mem_cons] at hjoins
      rw [joinedSchema, joinedSchema, hsame.extendSchema_eq hfits hotherFits hjoins.1]
      exact ih hjoins.2 _

theorem filter_meets_perm (hj : ∃ step, Planner.join c step = .ok j) (v : Value) :
    ((other.tableNamed j.table).rows.filter fun right =>
        v.meets (right.cell (other.tableNamed j.table).schema.names j.rightKey)).Perm
      ((s.tableNamed j.table).rows.filter fun right =>
        v.meets (right.cell (s.tableNamed j.table).schema.names j.rightKey)) := by
  obtain ⟨step, hj⟩ := hj
  obtain ⟨e, he, hname⟩ := Planner.exists_entity_of_join hj
  obtain ⟨hschema, hrows⟩ := hsame.tables hfits hotherFits he
  rw [hname, hschema]
  exact hrows.filter _

theorem extend_perm (hj : ∃ step, Planner.join c step = .ok j) (schema : Schema) (row : Row) :
    (other.extend j schema row).Perm (s.extend j schema row) := by
  have hmeets := hsame.filter_meets_perm hfits hotherFits hj (row.cell schema.names j.leftKey)
  unfold extend
  dsimp only
  rw [hsame.schema_eq hfits hotherFits hj] at hmeets ⊢
  unfold Flow.joined
  rw [hmeets.isEmpty_eq]
  split
  · exact .refl _
  · exact hmeets.map _

/-- Joins make the same rows of a row. -/
theorem expand_perm {joins : List Join} (hjoins : ∀ j ∈ joins, ∃ step, Planner.join c step = .ok j)
    (schema : Schema) (row : Row) :
    (other.expand joins schema row).Perm (s.expand joins schema row) := by
  induction joins generalizing schema row with
  | nil => exact .refl _
  | cons j joins ih =>
      rw [List.forall_mem_cons] at hjoins
      rw [expand, expand, hsame.extendSchema_eq hfits hotherFits hjoins.1]
      exact (hsame.extend_perm hfits hotherFits hjoins.1 schema row).flatMap fun next _ =>
        ih hjoins.2 _ next

/-- A join with one target leads to the same row. -/
theorem target_eq (haccepted : Catalog.of entities fallback = .ok c) (hplain : c.Plain)
    (hidentified : s.Identified c) {step : JoinStep} (hj : Planner.join c step = .ok j)
    (htoOne : j.toMany = false) (schema : Schema) (row : Row) :
    other.target j schema row = s.target j schema row := by
  have hmeets :=
    hsame.filter_meets_perm hfits hotherFits ⟨step, hj⟩ (row.cell schema.names j.leftKey)
  have hone :=
    hidentified.length_matches_le_one haccepted hplain hfits hj htoOne
      (row.cell schema.names j.leftKey)
  unfold target
  dsimp only
  rw [← List.head?_filter, ← List.head?_filter, eq_of_perm_of_length_le_one hmeets hone,
    hsame.schema_eq hfits hotherFits ⟨step, hj⟩]

end

end Rearranged

end EntityQuery.Store
