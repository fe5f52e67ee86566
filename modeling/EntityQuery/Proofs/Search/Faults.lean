import EntityQuery.Proofs.Catalog.Complete
import EntityQuery.Search.Planner

/-!
# Faults of planning

Apart from labels a planner raises three faults itself: a path that leads nowhere, a field of the
wrong type and a filter that cannot be compiled.  Every other fault comes from looking up entities
and fields.  So a fault of another kind that no look-up raises is not raised by what the planner
puts together: predicates, columns, groups and aggregates.

## Main definitions

* `Planner.Foreign` : faults that the planner does not raise itself

## Main statements

* `Planner.Foreign.predicate` : the filters and parameters of a request
* `Planner.Foreign.select`, `Planner.Foreign.showEntity` : the shown columns
* `Planner.Foreign.groupColumn`, `Planner.Foreign.aggregateItem` : groups and aggregates
-/

namespace EntityQuery.Planner

open Outcome

variable {c : Catalog} {root marker : String} {ι : Type} {faults : ι → SearchFault}

/-- None of the faults is raised when paths are resolved, types are checked and filters are
compiled. -/
structure Foreign (faults : ι → SearchFault) : Prop where
  unresolvable : ∀ entity path i, SearchFault.unresolvable entity path ≠ faults i
  typeMismatch : ∀ path fault i, SearchFault.typeMismatch path fault ≠ faults i
  invalidNode : ∀ fault i, SearchFault.invalidNode fault ≠ faults i

namespace Foreign

/-! ## Predicates -/

section

variable (h : Foreign faults) (hooks : FieldHooks)

include h

theorem compile (tree : FilterTree) : Avoids faults (tree.compile hooks) := by
  induction tree with
  | field f => exact .of_error (h.invalidNode _)
  | literal value => exact .of_error (h.invalidNode _)
  | test op f value =>
      rw [FilterTree.compile, FilterTree.compileTest]
      split
      · exact .of_error (h.invalidNode _)
      · split
        · exact .of_error (h.typeMismatch _ _)
        · exact (Avoids.of_mapError h.invalidNode).bind fun e _ => .of_ok rfl
  | unary op operand ih =>
      cases op with
      | not => exact ih.bind fun inner _ => .of_ok rfl
      | _ => exact .of_error (h.invalidNode _)
  | compound op left right ihleft ihright =>
      cases op with
      | and | or | distinct => exact ihleft.bind fun l _ => ihright.bind fun r _ => .of_ok rfl
      | _ => exact .of_error (h.invalidNode _)

theorem compileGroups (groups : List FilterTree) :
    Avoids faults (FilterTree.compileGroups hooks groups) := by
  refine (Avoids.mapM fun tree _ => h.compile hooks tree).bind fun all _ => ?_
  split <;> exact .of_ok rfl

/-- The filters and parameters of a request. -/
theorem predicate (r : Request) : Avoids faults (Planner.predicate hooks r) := by
  refine (h.compileGroups hooks r.groups).bind fun groups _ => ?_
  split
  · exact .of_ok rfl
  · refine (h.compile hooks _).bind fun parameters _ => ?_
    exact .of_ok rfl

end

/-! ## Shown columns -/

section

variable (h : Foreign faults) (hentity : Avoids faults (c.entity root))
  (hfield : ∀ path, Avoids faults (c.field root path))

include h hentity hfield

theorem resolve (text : String) : Avoids faults (Planner.resolve c root marker text) := by
  unfold Planner.resolve
  split
  · exact .of_error (h.unresolvable _ _)
  · exact hentity.bind fun e _ => hfield _

theorem resolveScalar (fault : TypeFault) (text : String) :
    Avoids faults (Planner.resolveScalar c root marker fault text) := by
  refine (h.resolve hentity hfield text).bind fun f _ => ?_
  split
  · exact .of_error (h.typeMismatch _ _)
  · exact .of_ok rfl

theorem select (selections : List Selection) :
    Avoids faults (Planner.select c root marker selections) := by
  refine (Avoids.mapM fun s _ => ?_).bind fun columns _ => .of_ok rfl
  refine (h.resolve hentity hfield _).bind fun f _ => ?_
  dsimp only
  split
  · refine (Catalog.avoids_scalarFields h.unresolvable hfield _).bind fun fields _ => ?_
    exact .of_ok rfl
  · exact .of_ok rfl

theorem showEntity (hid : Avoids faults (c.idAttribute root)) :
    Avoids faults (Planner.showEntity c root) := by
  refine hentity.bind fun e _ => ?_
  refine (Catalog.avoids_scalarFields h.unresolvable hfield none).bind fun own _ => ?_
  refine (Avoids.mapM fun a _ => Catalog.avoids_scalarFields h.unresolvable hfield _).bind
    fun lists _ => ?_
  refine hid.bind fun id _ => ?_
  exact .of_ok rfl

theorem groupColumn (columns : List Selected) (path : String) :
    Avoids faults (Planner.groupColumn c root marker columns path) := by
  refine (h.resolveScalar hentity hfield _ path).bind fun f _ => ?_
  exact .of_ok rfl

theorem aggregateItem (fn : AggregateFn) (path : String) :
    Avoids faults (Planner.aggregateItem c root marker fn path) := by
  refine (h.resolveScalar hentity hfield _ path).bind fun f _ => ?_
  split
  · exact .of_error (h.typeMismatch _ _)
  · exact .of_ok rfl

end

end Foreign

end EntityQuery.Planner
