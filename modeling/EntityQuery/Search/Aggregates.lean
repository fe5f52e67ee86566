import EntityQuery.Fault
import EntityQuery.Path.Spelling

/-!
# Aggregates of a request

A request may ask for aggregates of some fields, grouped by others.  Where it does not say how to
group, the selected fields that are not aggregated make the groups.

## Main definitions

* `Aggregates` : the fields to aggregate, by function, and the fields to group by
* `Aggregates.normalize` : the aggregates of a request in plain spelling, the grouping settled
-/

namespace EntityQuery

/-- The fields to aggregate, by function, and the fields to group by. -/
structure Aggregates where
  count : List String
  sum : List String
  avg : List String
  min : List String
  max : List String
  groupBy : Option (List String)
  deriving DecidableEq, Repr

namespace Aggregates

/-- No aggregates. -/
def empty : Aggregates := ⟨[], [], [], [], [], none⟩

/-- The fields that a function is applied to. -/
def paths (a : Aggregates) : AggregateFn → List String
  | .count => a.count
  | .sum => a.sum
  | .avg => a.avg
  | .min => a.min
  | .max => a.max

/-- All calls of functions, by function. -/
def calls (a : Aggregates) : List (AggregateFn × String) :=
  AggregateFn.all.flatMap fun fn => (a.paths fn).map fun path => (fn, path)

/-- A function is applied to some field. -/
def hasFunctions (a : Aggregates) : Bool := !a.calls.isEmpty

/-- Some function is applied to a field. -/
def contains (a : Aggregates) (path : String) : Bool := a.calls.any (·.2 = path)

/-- Every path changed in the same way; an empty grouping is no grouping. -/
def map (f : String → String) (a : Aggregates) : Aggregates where
  count := a.count.map f
  sum := a.sum.map f
  avg := a.avg.map f
  min := a.min.map f
  max := a.max.map f
  groupBy := (a.groupBy.map (·.map f)).filter (!·.isEmpty)

/-- A grouping by the selected fields that are not aggregated, if there are any. -/
def groupedBySelection (a : Aggregates) (selected : List String) : Aggregates :=
  { a with groupBy := some (selected.filter (!a.contains ·)) |>.filter (!·.isEmpty) }

/-- Aggregates in plain spelling with their grouping; none if nothing is asked for.  A field must
not be grouped by and aggregated at once. -/
def normalize (marker : String) (a : Aggregates) (selected : List String) :
    Except SearchFault (Option Aggregates) :=
  let plain := a.map (Spelling.plain marker)
  match plain.groupBy with
  | some group =>
    match group.find? plain.contains with
    | some path => throw (.aggregateConflict path)
    | none => pure (some plain)
  | none => pure (if plain.hasFunctions then some (plain.groupedBySelection selected) else none)

end Aggregates

end EntityQuery
