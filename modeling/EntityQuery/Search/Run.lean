import EntityQuery.Search.Page
import EntityQuery.Search.Planner
import EntityQuery.Search.Rebuild
import EntityQuery.Store.Fetch

/-!
# Searches

A search is made for one root entity of a catalog.  A request is planned, the plan is run on a
store, and its records are results as they are, or are made into entities.  Results can also be
counted, asked for existence, or demanded to be unique.

## Main definitions

* `Search.run` : the results of a request, with data about the page if they are asked for
* `Search.count`, `Search.holds`, `Search.unique`
-/

namespace EntityQuery

/-! ## Results -/

/-- The results of a search. -/
inductive Hits where
  | entities (items : List Json)
  | rows (records : List Record)

namespace Hits

/-- The number of results. -/
def length : Hits → Nat
  | .entities items => items.length
  | .rows records => records.length

/-- The results as JSON. -/
def toJson : Hits → List Json
  | .entities items => items
  | .rows records => records.map Record.toJson

end Hits

/-- One result. -/
inductive Hit where
  | entity (json : Json)
  | row (record : Record)

/-- A result as JSON. -/
def Hit.toJson : Hit → Json
  | .entity json => json
  | .row record => record.toJson

/-- The results on a page, with data about it if they were asked for. -/
structure ResultPage where
  hits : Hits
  info : Option PageInfo

/-- A page as JSON: the results under the name of a wrapper, and the data about the page. -/
def ResultPage.toJson (wrapper : String) (page : ResultPage) : Json :=
  .obj
    (Keyed.ofList Prod.fst
      ((wrapper, .arr page.hits.toJson) :: (page.info.map PageInfo.members).getD []))

/-! ## Searches -/

/-- A search for a root entity. -/
structure Search where
  catalog : Catalog
  root : String
  config : Config
  hooks : FieldHooks
  rebuilder : Rebuilder

namespace Search

/-- A search for an entity, which must be in the catalog. -/
def forEntity (c : Catalog) (root : String) : Except SearchFault Search := do
  return ⟨c, root, .default, .none, .nested (← c.entity root).rootPath⟩

variable (s : Search)

/-- The request as it is understood. -/
def read (wire : WireRequest) : Except SearchFault Request :=
  wire.read s.catalog s.root s.config.wrapperMarker

/-- The window of the page of a request. -/
def window (r : Request) : Except SearchFault (Option Window) :=
  r.page.mapM (PageRequest.window s.config)

/-- The plan of a request for a window. -/
def planFor (r : Request) (window : Option Window) : Except SearchFault Planned :=
  Planner.plan s.catalog s.root s.config.wrapperMarker s.hooks r window

/-- The plan of a request. -/
def plan (r : Request) : Except SearchFault Planned := do s.planFor r (← s.window r)

/-- A computation that looks at a signal. -/
abbrev Looking (α : Type) := Signal → Except SearchFault α × Signal

/-- A computation on the result of another, if that has one. -/
def andThen {α β : Type} (first : Looking α) (next : α → Looking β) : Looking β := fun signal =>
  match first signal with
  | (.ok a, signal) => next a signal
  | (.error fault, signal) => (.error fault, signal)

/-- A result that does not depend on the signal. -/
def given {α : Type} (result : Except SearchFault α) : Looking α := fun signal => (result, signal)

/-- The records of a plan. -/
def fetch (store : Store) (p : Plan) : Looking (List Record) := fun signal =>
  let (records, signal) := store.fetch p signal
  (records.mapError .store, signal)

/-- The number of rows of the root of a plan. -/
def countOf (store : Store) (p : Plan) : Looking Nat := fun signal =>
  let (n, signal) := store.count p signal
  (n.mapError .store, signal)

/-- The number of all results of a plan: of entities the rows of the root, of rows those without a
window. -/
def total (store : Store) (planned : Planned) : Looking Nat :=
  if planned.plan.isAggregate || planned.shape = .rows then
    andThen (fetch store planned.plan.unpaged) fun records => given (.ok records.length)
  else
    countOf store planned.plan

/-- The results that records stand for. -/
def hits (shape : ResultShape) (records : List Record) : Hits :=
  match shape with
  | .entities => .entities (records.map fun record => s.rebuilder.build record)
  | .rows => .rows records

/-- The result that a record stands for. -/
def hit (shape : ResultShape) (record : Record) : Hit :=
  match shape with
  | .entities => .entity (s.rebuilder.build record)
  | .rows => .row record

/-- The results of a request. -/
def run (store : Store) (r : Request) : Looking ResultPage :=
  andThen (given (s.window r)) fun window =>
  andThen (given (s.planFor r window)) fun planned =>
  andThen (fetch store planned.plan) fun records =>
    let hits := s.hits planned.shape records
    if r.pageData then
      andThen (total store planned) fun total =>
        given (.ok ⟨hits, some (.of window records.length total)⟩)
    else
      given (.ok ⟨hits, none⟩)

/-- The number of rows of the root for which the filters of a request hold. -/
def count (store : Store) (r : Request) : Looking Nat :=
  andThen (given (s.planFor r none)) fun planned => countOf store planned.plan

/-- A request has a result. -/
def holds (store : Store) (r : Request) : Looking Bool :=
  andThen (given (s.planFor r none)) fun planned =>
  andThen (fetch store (planned.plan.limited 1)) fun records => given (.ok !records.isEmpty)

/-- The filters of a request are one group of demands for values of fields. -/
def isIdentifying (r : Request) : Bool :=
  match r.groups with
  | [group] => group.isIdentifying
  | _ => false

/-- The only result of a request that demands values of fields; more than one are refused. -/
def unique (store : Store) (r : Request) : Looking (Option Hit) :=
  if !isIdentifying r then given (.error (.malformed "filters" .notIdentifying))
  else
    andThen (given (s.planFor r none)) fun planned =>
    andThen (fetch store (planned.plan.limited 2)) fun records =>
      match records with
      | [] => given (.ok none)
      | [record] => given (.ok (some (s.hit planned.shape record)))
      | records => given (.error (.notUnique records.length))

/-- A request that demands values of fields has a result. -/
def uniqueHolds (store : Store) (r : Request) : Looking Bool :=
  andThen (s.unique store r) fun hit => given (.ok hit.isSome)

end Search

end EntityQuery
