import EntityQuery.Flow.Basic
import EntityQuery.Proofs.Outcome
import Mathlib.Data.List.Forall2

/-!
# Typed rows and groups

A row is typed for some columns if it has a value for each of them, null or of the type that is
declared.  It takes no more than types here, so a floating-point value need not be a number.

The groups that are collected from typed rows are typed: their keys are typed for the grouping
columns, and each aggregate has the type that is declared for it, however far it has come.  An
aggregate of whole rows counts them by a truth value, which is not to be kept as an extreme.

## Main definitions

* `Row.Typed` : a row has a value for each column, null or of its type
* `AggregateCall.Reads` : a call takes a column that is there, or whole rows for something else than
  an extreme
* `Tally.Typed`, `Group.Typed` : what is kept of typed rows

## Main statements

* `Tally.Typed.add`, `Tally.Typed.result` : tallies stay typed, and their results have the declared
  types
* `Group.typed_addRow`, `Group.typed_row` : groups stay typed, and the rows that stand for them are
  typed
-/

namespace EntityQuery

/-! ## Typed values and rows -/

/-- Null or a value of the type; a floating-point value may be something other than a number. -/
def Value.hasType (t : ScalarType) (v : Value) : Bool := v.isNull || v.type? = some t

namespace Row

variable {schema other : Schema} {row rest : Row}

/-- The row has a value for each column, which is null or of the type of the column. -/
def Typed (schema : Schema) (row : Row) : Prop :=
  List.Forall₂ (fun column v => v.hasType column.type = true) schema row

theorem Typed.append (hrow : row.Typed schema) (hrest : rest.Typed other) :
    Row.Typed (schema ++ other) (row ++ rest) :=
  List.rel_append hrow hrest

theorem typed_nulls (schema : Schema) : Row.Typed schema (List.replicate schema.length .null) := by
  induction schema with
  | nil => exact .nil
  | cons column schema ih => exact .cons rfl ih

theorem Typed.of_types_eq (hrow : row.Typed schema) (htypes : schema.types = other.types) :
    row.Typed other := by
  have hvalues : List.Forall₂ (fun t (v : Value) => v.hasType t = true) schema.types row :=
    List.forall₂_map_left_iff.mpr hrow
  rw [htypes] at hvalues
  exact List.forall₂_map_left_iff.mp hvalues

theorem Typed.getD (hrow : row.Typed schema) {i : Nat} (hi : i < schema.length) :
    (row.getD i .null).hasType schema[i].type = true := by
  have hlt : i < row.length := List.Forall₂.length_eq hrow ▸ hi
  rw [List.getD_eq_getElem?_getD, List.getElem?_eq_getElem hlt]
  exact List.Forall₂.get hrow hi hlt

theorem Typed.keyOf (hrow : row.Typed schema) {columns : List Nat}
    (hcolumns : ∀ i ∈ columns, i < schema.length) :
    Row.Typed (Flow.pick schema columns) (row.keyOf columns) := by
  induction columns with
  | nil => exact .nil
  | cons i columns ih =>
      rw [List.forall_mem_cons] at hcolumns
      obtain ⟨hi, hcolumns⟩ := hcolumns
      have hpick : Flow.pick schema (i :: columns) = schema[i] :: Flow.pick schema columns := by
        simp [Flow.pick, List.getElem?_eq_getElem hi]
      rw [hpick]
      exact .cons (hrow.getD hi) (ih hcolumns)

end Row

/-! ## Groups -/

namespace AggregateCall

/-- The type that is declared for the results of a call. -/
def resultType (schema : Schema) (call : AggregateCall) : ScalarType :=
  call.fn.resultType ((call.column.bind (schema[·]?)).map Column.type)

/-- The call asks for the least or the greatest of whole rows. -/
def isRowExtreme (call : AggregateCall) : Bool :=
  call.column.isNone && (call.fn = .min || call.fn = .max)

/-- The call takes a column that is there, or whole rows for something else than an extreme. -/
structure Reads (schema : Schema) (call : AggregateCall) : Prop where
  lt : ∀ i, call.column = some i → i < schema.length
  not_extreme : call.isRowExtreme = false

end AggregateCall

namespace Tally

/-- The extreme that is kept, if any, is typed for the result of the call. -/
def Typed (schema : Schema) (call : AggregateCall) (tally : Tally) : Prop :=
  ∀ v, tally.extreme = some v → v.hasType (call.resultType schema) = true

variable {schema : Schema} {call : AggregateCall} {tally next : Tally} {row : Row}

theorem extreme_addNumber {fn : AggregateFn} {v : Value} (hadd : tally.addNumber fn v = .ok next) :
    next.extreme = tally.extreme := by
  cases v <;> simp only [addNumber, addInt] at hadd
  case int32 | int64 =>
    split at hadd
    · exact (Except.ok.inj hadd) ▸ rfl
    · simp at hadd
  case float64 => exact (Except.ok.inj hadd) ▸ rfl
  all_goals simp at hadd

/-- An extreme that is kept was kept before, or it is the new value and the function keeps
values. -/
theorem extreme_add {fn : AggregateFn} {v kept : Value} (hadd : tally.add fn v = .ok next)
    (hkept : next.extreme = some kept) :
    tally.extreme = some kept ∨ (kept = v ∧ (fn = .min ∨ fn = .max)) := by
  have hkeep (h : (tally.keep fn v).counted = next) : tally.extreme = some kept ∨ kept = v := by
    subst h
    unfold keep at hkept
    repeat' split at hkept
    · exact .inr (Option.some.inj hkept).symm
    · exact .inr (Option.some.inj hkept).symm
    · exact .inl hkept
  unfold add at hadd
  split at hadd
  · obtain rfl := Except.ok.inj hadd
    exact .inl hkept
  · cases fn with
    | count =>
        obtain rfl := Except.ok.inj hadd
        exact .inl hkept
    | sum | avg =>
        obtain ⟨summed, hsummed, hnext⟩ := Outcome.bind_eq_ok_iff.mp hadd
        obtain rfl := Except.ok.inj hnext
        exact .inl ((extreme_addNumber hsummed).symm.trans hkept)
    | min => exact (hkeep (Except.ok.inj hadd)).imp_right fun h => ⟨h, .inl rfl⟩
    | max => exact (hkeep (Except.ok.inj hadd)).imp_right fun h => ⟨h, .inr rfl⟩

/-- Adding the value of a typed row keeps a tally typed. -/
theorem Typed.add (htally : tally.Typed schema call) (hcall : call.Reads schema)
    (hrow : row.Typed schema) (hadd : tally.add call.fn (call.value row) = .ok next) :
    next.Typed schema call := by
  intro kept hkept
  rcases extreme_add hadd hkept with hbefore | ⟨rfl, hfn⟩
  · exact htally kept hbefore
  · obtain ⟨fn, place⟩ := call
    cases place with
    | none =>
        -- whole rows are not kept
        have hextreme := hcall.not_extreme
        rcases hfn with rfl | rfl <;> simp [AggregateCall.isRowExtreme] at hextreme
    | some i =>
        have hi := hcall.lt i rfl
        have htype : AggregateCall.resultType schema ⟨fn, some i⟩ = schema[i].type := by
          rcases hfn with rfl | rfl <;>
            simp [AggregateCall.resultType, List.getElem?_eq_getElem hi, AggregateFn.resultType]
        rw [htype]
        exact hrow.getD hi

/-- The result of a call has the declared type. -/
theorem Typed.result (htally : tally.Typed schema call) :
    (tally.result call.fn (call.resultType schema)).hasType (call.resultType schema) = true := by
  obtain ⟨fn, place⟩ := call
  unfold Typed at htally
  unfold Tally.result
  cases fn with
  | count => rfl
  | sum =>
      -- sums are declared as floating-point or as whole numbers, and made so
      dsimp only
      split
      · rfl
      · rw [AggregateCall.resultType]
        generalize (place.bind (schema[·]?)).map Column.type = type
        cases type with
        | none => rfl
        | some type => cases type <;> rfl
  | avg =>
      dsimp only
      split <;> rfl
  | min | max =>
      dsimp only
      split
      · rfl
      · cases hkept : tally.extreme with
        | none => rfl
        | some kept => exact htally kept hkept

end Tally

namespace Group

variable {schema : Schema} {columns : List Nat} {calls : List AggregateCall} {row : Row}

/-- The key has the types of the grouping columns, and each tally is typed for its call. -/
structure Typed (schema : Schema) (columns : List Nat) (calls : List AggregateCall)
    (group : Group) : Prop where
  key : Row.Typed (Flow.pick schema columns) group.key
  tallies : List.Forall₂ (fun call tally => Tally.Typed schema call tally) calls group.tallies

theorem typed_empty (calls : List AggregateCall) {key : Key}
    (hkey : Row.Typed (Flow.pick schema columns) key) :
    (Group.empty calls key).Typed schema columns calls := by
  refine ⟨hkey, List.forall₂_map_right_iff.mpr (List.forall₂_same.mpr fun call _ kept hkept => ?_)⟩
  cases hkept

theorem typed_addTo (hcalls : ∀ call ∈ calls, call.Reads schema) (hrow : row.Typed schema)
    {tallies : List Tally}
    (htallies : List.Forall₂ (fun call tally => Tally.Typed schema call tally) calls tallies) :
    List.Forall₂ (fun call tally => Tally.Typed schema call tally) calls
      (addTo row calls tallies).1 := by
  induction htallies with
  | nil => exact .nil
  | @cons call tally calls tallies htally htallies ih =>
      rw [List.forall_mem_cons] at hcalls
      rw [addTo]
      split
      · exact .cons htally htallies
      · next next hadd => exact .cons (htally.add hcalls.1 hrow hadd) (ih hcalls.2)

/-- Adding a typed row keeps groups typed, also where it fails half-way. -/
theorem typed_addRow (hcalls : ∀ call ∈ calls, call.Reads schema)
    (hcolumns : ∀ i ∈ columns, i < schema.length) (hrow : row.Typed schema) {groups : List Group}
    (hgroups : ∀ group ∈ groups, group.Typed schema columns calls) :
    ∀ group ∈ (addRow calls (row.keyOf columns) row groups).1,
      group.Typed schema columns calls := by
  induction groups with
  | nil =>
      have hempty := typed_empty calls (hrow.keyOf hcolumns)
      exact List.forall_mem_singleton.mpr ⟨hempty.key, typed_addTo hcalls hrow hempty.tallies⟩
  | cons first rest ih =>
      rw [List.forall_mem_cons] at hgroups
      rw [addRow]
      split
      · exact List.forall_mem_cons.mpr
          ⟨⟨hgroups.1.key, typed_addTo hcalls hrow hgroups.1.tallies⟩, hgroups.2⟩
      · exact List.forall_mem_cons.mpr ⟨hgroups.1, ih hgroups.2⟩

/-- The row that stands for a typed group has the key and the results in their declared types. -/
theorem typed_row {calls : List (AggregateCall × String)} {group : Group}
    (hgroup : group.Typed schema columns (calls.map (·.1))) :
    Row.Typed (Flow.pick schema columns ++ calls.map (Flow.aggregateColumn schema))
      (group.row (calls.map (·.1)) (calls.map fun call =>
        (Flow.aggregateColumn schema call).type)) := by
  refine Row.Typed.append hgroup.key ?_
  obtain ⟨key, tallies⟩ := group
  have htallies := List.forall₂_map_left_iff.mp hgroup.tallies
  dsimp only at htallies ⊢
  clear hgroup
  induction htallies with
  | nil => exact .nil
  | cons htally _ ih => exact .cons htally.result ih

end Group

end EntityQuery
