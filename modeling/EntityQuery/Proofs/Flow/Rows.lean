import EntityQuery.Flow.Schema
import EntityQuery.Proofs.Expr.Truth
import Mathlib.Data.List.Nodup

/-!
# Rows of a schema

A row conforms to a schema if it holds null or a value of the right type in each column.  Where the
names of the columns are distinct, a column is found by its name, and the value under the name is
the one of the column.

## Main definitions

* `Row.Conforms` : the values of a row have the types of its columns

## Main statements

* `exists_position?` : a column is found by its name
* `Conforms.cell` : the value under the name of a column conforms to the type of the column
* `cell_append_left`, `cell_append_right` : the values under the names of a row and of one that is
  joined to it
-/

namespace EntityQuery

namespace Schema

variable {schema other : Schema}

@[simp] theorem length_names (schema : Schema) : schema.names.length = schema.length :=
  List.length_map ..

@[simp] theorem names_append (schema other : Schema) :
    Schema.names (schema ++ other) = schema.names ++ other.names := List.map_append ..

@[simp] theorem types_under (path : String) (schema : Schema) :
    (schema.under path).types = schema.types := by
  simp [types, under]

@[simp] theorem length_under (path : String) (schema : Schema) :
    (schema.under path).length = schema.length := by
  simp [under]

theorem lt_of_position? {name : String} {i : Nat} (hi : schema.position? name = some i) :
    i < schema.length := by
  obtain ⟨hlt, -⟩ := List.idxOf?_eq_some_iff.mp hi
  simpa using hlt

theorem position?_getElem (hnodup : schema.names.Nodup) {i : Nat} (hi : i < schema.length) :
    schema.position? schema[i].name = some i := by
  have hi' : i < schema.names.length := by simpa using hi
  have hname : schema[i].name = schema.names[i] := by simp [names]
  rw [position?, hname, List.idxOf?_eq_some_iff]
  refine ⟨hi', rfl, fun j hj heq => ?_⟩
  have : j = i := (List.Nodup.getElem_inj_iff hnodup).mp (by simpa using heq)
  omega

/-- A column is found by its name. -/
theorem exists_position? (hnodup : schema.names.Nodup) {column : Column}
    (hcolumn : column ∈ schema) :
    ∃ i, schema.position? column.name = some i ∧ schema[i]? = some column := by
  obtain ⟨i, hi, rfl⟩ := List.mem_iff_getElem.mp hcolumn
  exact ⟨i, position?_getElem hnodup hi, List.getElem?_eq_getElem hi⟩

theorem position?_append_left {name : String} {i : Nat} (hi : schema.position? name = some i)
    (other : Schema) : Schema.position? (schema ++ other) name = some i := by
  obtain ⟨hlt, hname, hbefore⟩ := List.idxOf?_eq_some_iff.mp hi
  rw [position?, names_append, List.idxOf?_eq_some_iff]
  refine ⟨by simp at hlt ⊢; omega, by rwa [List.getElem_append_left hlt], fun j hj => ?_⟩
  rw [List.getElem_append_left (by omega)]
  exact hbefore j hj

theorem position?_under (path : String) (schema : Schema) (name : String) :
    (schema.under path).position? (path ++ "." ++ name) = schema.position? name := by
  unfold position? names under
  induction schema with
  | nil => rfl
  | cons column schema ih =>
      simp only [List.map_cons, List.idxOf?_cons] at ih ⊢
      rw [ih]
      by_cases h : column.name = name <;> simp [h, String.append_right_inj]

theorem getElem?_under (path : String) (schema : Schema) (i : Nat) :
    (schema.under path)[i]? = schema[i]?.map fun column =>
      { column with name := path ++ "." ++ column.name } := by
  simp [under]

end Schema

namespace Row

variable {schema other : Schema} {row rest : Row}

/-- The row holds null or a value of the type of the column in each column of a schema. -/
def Conforms (schema : Schema) (row : Row) : Prop :=
  List.Forall₂ (fun column v => v.conforms column.type = true) schema row

theorem Conforms.length_eq (hrow : row.Conforms schema) : row.length = schema.length :=
  (List.Forall₂.length_eq hrow).symm

theorem Conforms.append (hrow : row.Conforms schema) (hrest : rest.Conforms other) :
    Row.Conforms (schema ++ other) (row ++ rest) :=
  List.rel_append hrow hrest

theorem conforms_nulls (schema : Schema) :
    Row.Conforms schema (List.replicate schema.length .null) := by
  induction schema with
  | nil => exact .nil
  | cons column schema ih => exact .cons (Value.conforms_null _) ih

theorem Conforms.under (hrow : row.Conforms schema) (path : String) :
    row.Conforms (schema.under path) := by
  induction hrow with
  | nil => exact .nil
  | cons hv _ ih => exact .cons hv ih

theorem Conforms.getElem? (hrow : row.Conforms schema) {i : Nat} {column : Column}
    (hi : schema[i]? = some column) : ∃ v, row[i]? = some v ∧ v.conforms column.type = true := by
  obtain ⟨hlt, rfl⟩ := List.getElem?_eq_some_iff.mp hi
  have hlt' : i < row.length := hrow.length_eq ▸ hlt
  exact ⟨row[i], List.getElem?_eq_getElem hlt', List.Forall₂.get hrow hlt hlt'⟩

theorem cell_eq_getD {name : String} {i : Nat} (hi : schema.position? name = some i) (row : Row) :
    row.cell schema.names name = row.getD i .null := by
  change ((schema.position? name).bind _).getD _ = _
  rw [hi, Option.bind_some, List.getD_eq_getElem?_getD]

theorem cell_nulls (layout : List String) (n : Nat) (name : String) :
    Row.cell layout (List.replicate n .null) name = .null := by
  unfold cell
  cases layout.idxOf? name with
  | none => rfl
  | some i =>
      rw [Option.bind_some, List.getElem?_replicate]
      split <;> rfl

/-- The value under the name of a column conforms to the type of the column. -/
theorem Conforms.cell (hrow : row.Conforms schema) (hnodup : schema.names.Nodup) {column : Column}
    (hcolumn : column ∈ schema) :
    (row.cell schema.names column.name).conforms column.type = true := by
  obtain ⟨i, hposition, hi⟩ := Schema.exists_position? hnodup hcolumn
  obtain ⟨v, hv, hconforms⟩ := hrow.getElem? hi
  rw [cell_eq_getD hposition, List.getD_eq_getElem?_getD, hv]
  exact hconforms

/-- Joining further columns leaves the values under the names that are there. -/
theorem cell_append_left (hwidth : row.length = schema.length) {name : String}
    (hname : name ∈ schema.names) (other : Schema) (rest : Row) :
    Row.cell (Schema.names (schema ++ other)) (row ++ rest) name = row.cell schema.names name := by
  obtain ⟨i, hi⟩ := Option.isSome_iff_exists.mp (List.isSome_idxOf?.mpr hname)
  have hlt : i < row.length := hwidth ▸ Schema.lt_of_position? hi
  rw [cell_eq_getD (Schema.position?_append_left hi other), cell_eq_getD hi,
    List.getD_eq_getElem?_getD, List.getD_eq_getElem?_getD, List.getElem?_append_left hlt]

/-- Joined columns are found behind those that were there. -/
theorem cell_append_right (hwidth : row.length = schema.length) {name : String}
    (hname : name ∉ schema.names) (other : Schema) (rest : Row) :
    Row.cell (Schema.names (schema ++ other)) (row ++ rest) name = rest.cell other.names name := by
  have hposition : (schema.names ++ other.names).idxOf? name =
      (other.names.idxOf? name).map (· + schema.names.length) := by
    have hnone : schema.names.findIdx? (· == name) = none := List.idxOf?_eq_none_iff.mpr hname
    unfold List.idxOf?
    rw [List.findIdx?_append, hnone, Option.none_or]
  unfold cell
  rw [Schema.names_append, hposition, Schema.length_names, ← hwidth]
  cases other.names.idxOf? name with
  | none => rfl
  | some i =>
      rw [Option.map_some, Option.bind_some, Option.bind_some,
        List.getElem?_append_right (Nat.le_add_left ..), Nat.add_sub_cancel]

theorem cell_under (path : String) (schema : Schema) (row : Row) (name : String) :
    row.cell (schema.under path).names (path ++ "." ++ name) = row.cell schema.names name := by
  have hposition := Schema.position?_under path schema name
  unfold Schema.position? at hposition
  rw [cell, cell, hposition]

end Row

end EntityQuery
