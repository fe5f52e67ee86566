import EntityQuery.Proofs.Search.Count
import EntityQuery.Proofs.Search.Stages

/-!
# Requests that never fail in the store

A request that has been read and planned has been checked: nothing is left that the store could
refuse.  The source of the plan can be built, as has been shown; on top of it, every stage finds the
columns that it names.  Groups and aggregates are columns of fields, which the source has; what is
shown are columns of fields, or groups and aggregates, which are there after grouping; and the order
names what is shown.

So counting succeeds, and fetching succeeds unless a sum overflows.

## Main statements

* `fetch_of_built` : a plan that has been built is fetched, unless a sum overflows
* `safe_of_read` : the store neither refuses a request that has been read and planned, nor fails
  with anything but an overflow
-/

namespace EntityQuery

/-! ## Plans of requests -/

namespace Search

variable {entities : List Entity} {fallback : Option ScalarType} {search : Search} {store : Store}
  {r : Request}

theorem runAll_of_onlyOverflows {flow : Flow} (hflow : flow.OnlyOverflows) :
    (∃ rows, (Store.runAll flow .never).1 = .ok rows) ∨
      (Store.runAll flow .never).1 = .error (.flow (.tally .overflow)) := by
  obtain ⟨rows, fault, hruns, hfault⟩ := hflow
  obtain ⟨last, hrun⟩ := Flow.run_of_runs hruns
  unfold Store.runAll
  rw [hrun]
  rcases hfault with rfl | rfl
  · exact .inl ⟨rows, rfl⟩
  · exact .inr rfl

theorem exists_count_of_built {c : Catalog} {root marker : String} (hplain : c.Plain)
    (hfits : store.Fits c) {window : Option Window} {planned : Planned}
    (b : planned.Built c root marker store r window) :
    ∃ n, (store.count planned.plan .never).1 = .ok n := by
  obtain ⟨i, hi⟩ := b.exists_position hplain hfits
  exact ⟨_, Store.count_of_sourced b.sourced hi⟩

/-- A plan that has been built is fetched, unless a sum overflows. -/
theorem fetch_of_built {c : Catalog} {root marker : String} {window : Option Window}
    {planned : Planned} (b : planned.Built c root marker store r window) :
    (∃ records, (store.fetch planned.plan .never).1 = .ok records) ∨
      (store.fetch planned.plan .never).1 = .error (.flow (.tally .overflow)) := by
  have hrows : ∀ row ∈ store.joinedRows r planned.plan.joins b.table,
      row.Conforms b.flow.schema := by
    intro row hrow
    obtain ⟨own, hown, hrow⟩ := List.mem_flatMap.mp (List.mem_of_mem_filter hrow)
    exact b.sourced.conforms own hown row hrow
  have hshape : ∃ next, planned.plan.shape b.flow = .ok next ∧ next.OnlyOverflows := by
    refine Plan.exists_shape b.sourced.runs hrows b.sourced.nodup ?_ ?_ ?_ ?_
    · intro name hname
      rw [b.groupBy_eq] at hname
      obtain ⟨f, hf, hcolumn⟩ := b.rests.groupBy name hname
      obtain ⟨type, -, hmem⟩ := b.exists_column hf hcolumn
      exact ⟨type, hmem⟩
    · intro item hitem
      rw [b.aggregates_eq] at hitem
      obtain ⟨f, hf, hcolumn, hnumeric⟩ := b.rests.aggregates item hitem
      obtain ⟨type, htype, hmem⟩ := b.exists_column hf hcolumn
      refine ⟨type, hmem, fun hneeds => ?_⟩
      simpa [htype] using hnumeric hneeds
    · intro q hq
      -- what is shown is a column of a field, or has been grouped or aggregated
      rw [b.projection_eq] at hq
      rw [b.groupBy_eq, b.aggregates_eq]
      rcases b.rests.projection q hq with ⟨hnone, hnone', f, hf, hcolumn⟩ | hcolumn
      · obtain ⟨type, -, hmem⟩ := b.exists_column hf hcolumn
        exact .inl ⟨hnone, hnone', List.mem_map_of_mem hmem⟩
      · exact .inr hcolumn
    · intro item hitem
      rw [b.orderBy_eq] at hitem
      rw [b.projection_eq]
      exact b.rests.orderBy item hitem
  obtain ⟨next, hnext, hsafe⟩ := hshape
  have hfetch : (store.fetch planned.plan .never).1 =
      (Store.runAll next .never).1.map (·.map (Record.zip next.schema.names)) := by
    simp [Store.fetch, Store.unlessCancelled, b.sourced.source, hnext, Except.mapError]
  rw [hfetch]
  rcases runAll_of_onlyOverflows hsafe with ⟨rows, hrows⟩ | hoverflow
  · rw [hrows]
    exact .inl ⟨_, rfl⟩
  · rw [hoverflow]
    exact .inr rfl

/-- The store never fails for a reason that could have been seen before.  A request that has been
read and planned is counted, and it is fetched unless a sum of whole numbers overflows. -/
theorem safe_of_read (haccepted : Catalog.of entities fallback = .ok search.catalog)
    (hplain : search.catalog.Plain) (hfilled : store.Filled search.catalog)
    (hhooks : search.hooks = .none) {wire : WireRequest} (hwire : wire.isProper = true)
    (hread : search.read wire = .ok r) {window : Option Window} {planned : Planned}
    (hplan : search.planFor r window = .ok planned) :
    (∃ n, (store.count planned.plan .never).1 = .ok n) ∧
      ((∃ records, (store.fetch planned.plan .never).1 = .ok records) ∨
        (store.fetch planned.plan .never).1 = .error (.flow (.tally .overflow))) := by
  have hfits := hfilled.fits hplain
  have hsound := WireRequest.sound_of_read hwire hread
  rw [planFor, hhooks] at hplan
  obtain ⟨b⟩ := Planned.nonempty_built haccepted hplain hfits hsound hplan
  exact ⟨exists_count_of_built hplain hfits b, fetch_of_built b⟩

end Search

/-- A request for the sum of the identifiers of the books of every author, by the name of the
author. -/
def Shelf.wire : WireRequest :=
  { WireRequest.empty with
    filters := [Shelf.booksFilter]
    fields := [⟨"name", none, none, .asc⟩]
    aggregates := some { Aggregates.empty with sum := ["books.id"] } }

/-- The request is planned, counted, and fetched unless the sum overflows. -/
theorem Search.safe_of_read_shelf :
    Shelf.wire.isProper = true ∧ ∃ r planned, Shelf.search.read Shelf.wire = .ok r ∧
      Shelf.search.planFor r none = .ok planned ∧
      (∃ n, (Shelf.store.count planned.plan .never).1 = .ok n) ∧
        ((∃ records, (Shelf.store.fetch planned.plan .never).1 = .ok records) ∨
          (Shelf.store.fetch planned.plan .never).1 = .error (.flow (.tally .overflow))) := by
  have hplanned :
      ((Shelf.search.read Shelf.wire).toOption.any fun r => (Shelf.search.planFor r none).isOk) =
        true := by
    decide +kernel
  cases hread : Shelf.search.read Shelf.wire with
  | error fault => simp [hread, Except.toOption] at hplanned
  | ok r =>
      cases hplan : Shelf.search.planFor r none with
      | error fault => simp [hread, hplan, Except.toOption, Except.isOk, Except.toBool] at hplanned
      | ok planned =>
          have haccepted : Catalog.of Shelf.catalog.entities none = .ok Shelf.search.catalog := rfl
          obtain ⟨hcount, hfetch⟩ :=
            Search.safe_of_read haccepted (by decide) Shelf.filled rfl (by decide) hread hplan
          exact ⟨by decide, r, planned, rfl, hplan, hcount, hfetch⟩

end EntityQuery
