import EntityQuery.Proofs.Flow.Built
import EntityQuery.Proofs.Flow.Sorting
import EntityQuery.Proofs.Flow.Total
import EntityQuery.Proofs.Search.Count
import EntityQuery.Proofs.Search.Stages

/-!
# What an answer tells of its flows

An answer of a store that is not a fault tells that every flow below it has run to its end.  The
rows of the source are there, all of them, whatever the signal; the stages on top of them have been
built and have shown the records; and the count is the number of the rows of the source, each once
if a join may repeat it.

So an answer can be repeated: without a signal the same plan gets the same answer.

## Main definitions

* `Plan.countedRows` : the rows of a source that are counted

## Main statements

* `exists_of_fetch` : the flows behind fetched records
* `fetch_window` : the records of a window as a part of all records
* `exists_of_count` : the rows behind a count
-/

namespace EntityQuery

variable {s : Store} {p : Plan} {source flow : Flow} {rows : List Row} {signal : Signal}

/-! ## Stages that have been built -/

namespace Flow

theorem Runs.of_groupBy {columns : List Nat} {calls : List (AggregateCall × Option String)}
    {shown : List Row} {e : Option FlowFault} (hsource : source.Runs rows e)
    (hgroup : source.groupBy columns calls = .ok flow) (hflow : flow.Runs shown none) :
    e = none := by
  rw [eq_of_groupBy hgroup] at hflow
  obtain ⟨-, hfault⟩ := (runs_aggregate hsource columns _).unique hflow
  unfold aggregateFault at hfault
  split at hfault
  · exact hfault.symm
  · simp at hfault

end Flow

theorem Flow.exists_keep_of_filter {predicate : Expr} {kept : List Row}
    (hsource : source.Runs rows none)
    (hfilter : (Flow.filter source predicate false).Runs kept none) :
    ∃ keep : Row → Bool, kept = rows.filter keep := by
  refine ⟨fun row => (predicate.holds row).toOption.getD false, ?_⟩
  refine (runs_filter hsource fun row hrow => ?_).unique hfilter |>.1
  cases hrow' : predicate.holds row with
  | ok keep => rfl
  | error fault =>
      obtain ⟨shown, fault, hfault⟩ := runs_filter_fault hsource hrow hrow'
      have hnone := (hfault.unique hfilter).2
      simp at hnone

namespace Plan

theorem shape_eq_ok (hshape : p.shape source = .ok flow) :
    ∃ grouped shown ordered, p.group source = .ok grouped ∧ p.project grouped = .ok shown ∧
      p.order (p.dedupe shown) = .ok ordered ∧ flow = p.paged ordered := by
  obtain ⟨grouped, hgrouped, hshape⟩ := Outcome.bind_eq_ok_iff.mp hshape
  obtain ⟨shown, hshown, hshape⟩ := Outcome.bind_eq_ok_iff.mp hshape
  obtain ⟨ordered, hordered, hshape⟩ := Outcome.bind_eq_ok_iff.mp hshape
  exact ⟨grouped, shown, ordered, hgrouped, hshown, hordered, (Except.ok.inj hshape).symm⟩

theorem shape_unpaged (hshape : p.shape source = .ok flow) :
    ∃ all, p.unpaged.shape source = .ok all ∧ flow = p.paged all := by
  obtain ⟨grouped, shown, ordered, hgrouped, hshown, hordered, hflow⟩ := shape_eq_ok hshape
  have hgrouped : p.unpaged.group source = .ok grouped := hgrouped
  have hshown : p.unpaged.project grouped = .ok shown := hshown
  have hordered : p.unpaged.order (p.unpaged.dedupe shown) = .ok ordered := hordered
  refine ⟨ordered, ?_, hflow⟩
  rw [shape, hgrouped, Outcome.ok_bind, hshown, Outcome.ok_bind, hordered]
  rfl

/-- A plan that groups puts an aggregation on its source. -/
theorem group_eq_ok (hgroup : p.group source = .ok flow) :
    p.isAggregate = false ∧ flow = source ∨
      p.isAggregate = true ∧ ∃ columns calls,
        flow = .aggregate source columns calls [] false false ∧
        (columns = [] ↔ p.groupBy = []) := by
  unfold group at hgroup
  split at hgroup
  · next haggregate =>
    obtain ⟨columns, hcolumns, hgroup⟩ := Outcome.bind_eq_ok_iff.mp hgroup
    obtain ⟨calls, -, hgroup⟩ := Outcome.bind_eq_ok_iff.mp hgroup
    have hlength : columns.length = p.groupBy.length :=
      (Outcome.mapM_eq_ok_iff.mp hcolumns).length_eq.symm
    refine .inr ⟨haggregate, columns, _, Flow.eq_of_groupBy hgroup, ?_⟩
    rw [← List.length_eq_zero_iff, hlength, List.length_eq_zero_iff]
  · next haggregate => exact .inl ⟨by simpa using haggregate, (Except.ok.inj hgroup).symm⟩

theorem project_eq_ok (hproject : p.project source = .ok flow) :
    ∃ columns, flow = .project source columns false := by
  unfold project at hproject
  split at hproject
  · exact ⟨_, Flow.eq_of_select hproject⟩
  · obtain ⟨columns, -, hproject⟩ := Outcome.bind_eq_ok_iff.mp hproject
    exact ⟨columns, Flow.eq_of_select hproject⟩

theorem order_eq_ok (horder : p.order source = .ok flow) :
    flow = source ∨ ∃ keys, flow = .sort source keys [] false := by
  unfold order at horder
  split at horder
  · exact .inl (Except.ok.inj horder).symm
  · obtain ⟨keys, -, horder⟩ := Outcome.bind_eq_ok_iff.mp horder
    exact .inr ⟨keys, Flow.eq_of_sortBy horder⟩

theorem exists_runs_of_order (horder : p.order source = .ok flow)
    (hsource : source.Runs rows none) : ∃ ordered, flow.Runs ordered none ∧ ordered.Perm rows := by
  rcases order_eq_ok horder with rfl | ⟨keys, rfl⟩
  · exact ⟨rows, hsource, .refl _⟩
  · exact ⟨_, Flow.runs_sort hsource keys, Row.sorted_perm keys rows⟩

/-- The rows of a source that are counted: all of them, or one for every identifier if a join may
repeat a row. -/
def countedRows (p : Plan) (schema : Schema) (rows : List Row) : List Row :=
  if p.distinct || p.hasToManyJoin then Row.firsts (schema.position? p.idColumn).toList [] rows
  else rows

/-- The rows of a source are counted after repeated ones have been left out. -/
theorem counter_eq_ok (hcounter : p.counter source = .ok flow) {e : Option FlowFault}
    (hsource : source.Runs rows e) :
    ∃ input : Flow, input.Runs (p.countedRows source.schema rows) e ∧
      input.groupBy [] [(⟨.count, none⟩, none)] = .ok flow := by
  unfold counter at hcounter
  unfold countedRows
  split at hcounter
  · next hrepeats =>
    obtain ⟨i, hi, hcounter⟩ := Outcome.bind_eq_ok_iff.mp hcounter
    obtain ⟨input, hinput, hcounter⟩ := Outcome.bind_eq_ok_iff.mp hcounter
    obtain rfl := Flow.eq_of_distinctOn hinput
    rw [if_pos hrepeats, position_eq_ok_iff.mp hi]
    exact ⟨_, Flow.runs_distinct hsource [i], hcounter⟩
  · next hrepeats =>
    rw [if_neg hrepeats]
    exact ⟨source, hsource, hcounter⟩

end Plan

/-! ## Answers -/

namespace Store

theorem runs_of_runAll (hrun : (runAll flow signal).1 = .ok rows) : flow.Runs rows none := by
  unfold runAll at hrun
  split at hrun
  · simp at hrun
  · next shown last after hshown =>
    obtain rfl := Except.ok.inj hrun
    exact Flow.runs_of_run hshown

theorem runAll_of_runs (hflow : flow.Runs rows none) : runAll flow .never = (.ok rows, .never) := by
  obtain ⟨last, hrun⟩ := Flow.run_of_runs hflow
  rw [runAll, hrun]

/-- Records are fetched from flows that have run to their end. -/
theorem exists_of_fetch {records : List Record} (hfetch : (s.fetch p signal).1 = .ok records) :
    ∃ source flow rows, s.source p = .ok source ∧ p.shape source = .ok flow ∧ flow.Runs rows none ∧
      records = rows.map (Record.zip flow.schema.names) := by
  unfold fetch unlessCancelled at hfetch
  split at hfetch
  · simp at hfetch
  · split at hfetch
    · simp at hfetch
    · next flow hflow =>
      obtain ⟨source, hsource, hflow⟩ := Outcome.bind_eq_ok_iff.mp hflow
      have hshape := Outcome.mapError_eq_ok_iff.mp hflow
      cases hrows : (runAll flow signal.look).1 with
      | error fault => simp [hrows, Except.map] at hfetch
      | ok rows =>
          have hrecords : records = rows.map (Record.zip flow.schema.names) := by
            simpa [hrows, Except.map, eq_comm] using hfetch
          exact ⟨source, flow, rows, hsource, hshape, runs_of_runAll hrows, hrecords⟩

theorem fetch_of_runs (hsource : s.source p = .ok source) (hshape : p.shape source = .ok flow)
    (hflow : flow.Runs rows none) :
    s.fetch p .never = (.ok (rows.map (Record.zip flow.schema.names)), .never) := by
  simp [fetch, unlessCancelled, hsource, hshape, runAll_of_runs hflow, Except.mapError, Except.map]

theorem fetch_never {records : List Record} (hfetch : (s.fetch p signal).1 = .ok records) :
    s.fetch p .never = (.ok records, .never) := by
  obtain ⟨source, flow, rows, hsource, hshape, hrows, rfl⟩ := exists_of_fetch hfetch
  exact fetch_of_runs hsource hshape hrows

/-- The records of a window are those behind its offset, up to its size, of all records. -/
theorem fetch_window {records all : List Record} (hfetch : (s.fetch p signal).1 = .ok records)
    {other : Signal} (hall : (s.fetch p.unpaged other).1 = .ok all) :
    records = match p.window with
      | some w => (all.drop w.offset).take w.limit
      | none => all := by
  obtain ⟨source, flow, rows, hsource, hshape, hrows, rfl⟩ := exists_of_fetch hfetch
  obtain ⟨source', flow', rows', hsource', hshape', hrows', rfl⟩ := exists_of_fetch hall
  obtain rfl : source = source' := Except.ok.inj (hsource.symm.trans hsource')
  obtain ⟨whole, hwhole, rfl⟩ := Plan.shape_unpaged hshape
  obtain rfl : whole = flow' := Except.ok.inj (hwhole.symm.trans hshape')
  unfold Plan.paged at hrows ⊢
  cases hwindow : p.window with
  | none =>
      simp only [hwindow] at hrows ⊢
      rw [(hrows.unique hrows').1]
  | some w =>
      simp only [hwindow] at hrows ⊢
      rw [((Flow.runs_window hrows' w.offset w.limit).unique hrows).1, List.map_take, List.map_drop]
      rfl

/-- Rows are counted when the source has run to its end. -/
theorem exists_of_count {n : Nat} (hcount : (s.count p signal).1 = .ok n) :
    ∃ source rows, s.source p = .ok source ∧ source.Runs rows none ∧
      n = countOf [[.int64 (Int64.ofNat (p.countedRows source.schema rows).length)]] ∧
      s.count p .never = (.ok n, .never) := by
  unfold count unlessCancelled at hcount
  split at hcount
  · simp at hcount
  · split at hcount
    · simp at hcount
    · next counter hcounter =>
      obtain ⟨source, hsource, hcounter⟩ := Outcome.bind_eq_ok_iff.mp hcounter
      have hcounter := Outcome.mapError_eq_ok_iff.mp hcounter
      cases hcounted : (runAll counter signal.look).1 with
      | error fault => simp [hcounted, Except.map] at hcount
      | ok counted =>
          have hn : n = countOf counted := by simpa [hcounted, Except.map, eq_comm] using hcount
          have hruns := runs_of_runAll hcounted
          -- the source cannot have failed, since its fault would have been passed on
          obtain ⟨rows, e, hrows⟩ := Flow.exists_runs source
          obtain ⟨input, hinput, hgroup⟩ := Plan.counter_eq_ok hcounter hrows
          obtain rfl : e = none := hinput.of_groupBy hgroup hruns
          obtain ⟨counter', hcounter', hnumber⟩ := Flow.exists_runs_count hinput
          obtain rfl : counter = counter' := Except.ok.inj (hgroup.symm.trans hcounter')
          rw [(hnumber.unique hruns).1] at hn
          refine ⟨source, rows, hsource, hrows, hn, ?_⟩
          simp [count, unlessCancelled, hsource, hcounter, runAll_of_runs hnumber, Except.mapError,
            Except.map, hn]

end Store

/-! ## Answers of a search -/

namespace Search

variable {store : Store} {α β : Type}

theorem andThen_eq_ok {first : Looking α} {next : α → Looking β} {b : β}
    (h : (andThen first next signal).1 = .ok b) :
    ∃ a after, first signal = (.ok a, after) ∧ (next a after).1 = .ok b := by
  unfold andThen at h
  split at h
  · next a after hfirst => exact ⟨a, after, hfirst, h⟩
  · simp at h

theorem given_eq_ok {result : Except SearchFault α} {a : α} {after : Signal}
    (h : given result signal = (.ok a, after)) :
    result = .ok a := (Prod.mk.inj h).1

theorem fetch_eq_ok {records : List Record} (h : (fetch store p signal).1 = .ok records) :
    (store.fetch p signal).1 = .ok records := Outcome.mapError_eq_ok_iff.mp h

/-- What results have been put together from, if data about the page are asked for. -/
theorem run_eq_ok {search : Search} {r : Request} {result : ResultPage} (hdata : r.pageData = true)
    (hrun : (search.run store r signal).1 = .ok result) :
    ∃ window planned records n, search.window r = .ok window ∧
      search.planFor r window = .ok planned ∧
      (∃ after, (store.fetch planned.plan after).1 = .ok records) ∧
      (∃ after, (total store planned after).1 = .ok n) ∧
      result = ⟨search.hits planned.shape records, some (.of window records.length n)⟩ := by
  obtain ⟨window, after, hwindow, hrun⟩ := andThen_eq_ok hrun
  obtain ⟨planned, after, hplan, hrun⟩ := andThen_eq_ok hrun
  obtain ⟨records, after', hfetch, hrun⟩ := andThen_eq_ok hrun
  rw [if_pos hdata] at hrun
  obtain ⟨n, last, htotal, hrun⟩ := andThen_eq_ok hrun
  exact ⟨window, planned, records, n, given_eq_ok hwindow, given_eq_ok hplan,
    ⟨after, fetch_eq_ok (by rw [hfetch])⟩, ⟨after', by rw [htotal]⟩, (Except.ok.inj hrun).symm⟩

theorem run_of_never {search : Search} {r : Request} (hdata : r.pageData = true)
    {window : Option Window} {planned : Planned} {records : List Record} {n : Nat}
    (hwindow : search.window r = .ok window) (hplan : search.planFor r window = .ok planned)
    (hfetch : store.fetch planned.plan .never = (.ok records, .never))
    (htotal : total store planned .never = (.ok n, .never)) :
    search.run store r .never =
      (.ok ⟨search.hits planned.shape records, some (.of window records.length n)⟩, .never) := by
  simp [run, andThen, given, hwindow, hplan, fetch, hfetch, hdata, htotal, Except.mapError]

theorem countOf_eq_ok {n : Nat} (h : (countOf store p signal).1 = .ok n) :
    (store.count p signal).1 = .ok n :=
  Outcome.mapError_eq_ok_iff.mp h

end Search

end EntityQuery
