import EntityQuery.Proofs.Search.Entities
import EntityQuery.Proofs.Search.Partition

/-!
# Unique results

A unique result is looked for among the first two records of a plan, without counting anything.  So
a join must not show one row of the root twice, and it must not hide a second one.  Neither happens:
of whole entities as many are shown as rows of the root are counted, and the two records are the
first of these.  If the flow below fails, the count fails in the same way, and so does the fetch,
since all rows have to be there before the first of them in order is known.

The page of a request plays no part in this, nor do the associations that its filters follow.

## Main definitions

* `FilterTree.DemandsValues`, `Request.DemandsValues` : filters that can be asked for a unique
  result

## Main statements

* `FilterTree.isIdentifying_iff` : the filters that are not refused
* `Store.fetch_limited`, `Store.fetch_limited_fault` : the first records of a plan
* `Planned.OfEntities.answers` : the count and the first records of a plan that shows whole entities
* `Search.unique_decided` : what is found is decided by the count
-/

namespace EntityQuery

variable {s : Store} {p : Plan} {source flow : Flow} {rows : List Row} {fault : FlowFault}

/-! ## Filters that demand values -/

/-- Every test demands a value other than null, and all of them have to hold. -/
inductive FilterTree.DemandsValues : FilterTree → Prop where
  | test {op : FilterOperator} {f : FieldRef} {value : Value} (hop : op = .eq ∨ op = .equals)
      (hvalue : value ≠ .null) : DemandsValues (.test op f value)
  | both {left right : FilterTree} (hleft : DemandsValues left) (hright : DemandsValues right) :
      DemandsValues (.compound .and left right)

/-- The filters are one group that demands values. -/
def Request.DemandsValues (r : Request) : Prop := ∃ group, r.groups = [group] ∧ group.DemandsValues

theorem FilterTree.isIdentifying_iff {tree : FilterTree} :
    tree.isIdentifying = true ↔ tree.DemandsValues := by
  induction tree with
  | field f => exact ⟨by simp [isIdentifying], by rintro ⟨⟩⟩
  | literal value => exact ⟨by simp [isIdentifying], by rintro ⟨⟩⟩
  | unary op operand _ => exact ⟨by simp [isIdentifying], by rintro ⟨⟩⟩
  | test op f value =>
      have hop : op.isEquality = true ↔ op = .eq ∨ op = .equals := by cases op <;> decide
      have hvalue : value.isNull = false ↔ value ≠ .null := by cases value <;> simp [Value.isNull]
      rw [isIdentifying, Bool.and_eq_true, Bool.not_eq_true', hop, hvalue]
      constructor
      · rintro ⟨hop, hvalue⟩
        exact .test hop hvalue
      · rintro ⟨hop, hvalue⟩
        exact ⟨hop, hvalue⟩
  | compound op left right ihLeft ihRight =>
      by_cases hop : op = .and
      · rw [hop, isIdentifying, Bool.and_eq_true, ihLeft, ihRight]
        constructor
        · rintro ⟨hleft, hright⟩
          exact .both hleft hright
        · rintro (_ | ⟨hleft, hright⟩)
          exact ⟨hleft, hright⟩
      · constructor
        · cases op <;> simp [isIdentifying] at hop ⊢
        · rintro ⟨⟩
          exact absurd rfl hop

theorem Search.isIdentifying_iff {r : Request} : isIdentifying r = true ↔ r.DemandsValues := by
  unfold isIdentifying Request.DemandsValues
  split
  · next group hgroups => simp [hgroups, FilterTree.isIdentifying_iff]
  · next hgroups =>
    constructor
    · simp
    · rintro ⟨group, hgroup, -⟩
      exact absurd hgroup (hgroups group)

/-! ## The first records of a plan -/

theorem Plan.exists_counter {e : Option FlowFault} (hsource : source.Runs rows e) {i : Nat}
    (hi : source.schema.position? p.idColumn = some i) :
    ∃ input : Flow, input.Runs (p.countedRows source.schema rows) e ∧
      p.counter source = input.groupBy [] [(⟨.count, none⟩, none)] := by
  unfold counter countedRows
  split
  · have hdistinct : source.distinctOn [i] = .ok (.distinct source [i] [] false) := by
      simp [Flow.distinctOn, Schema.lt_of_position? hi]
    refine ⟨_, by rw [hi]; exact Flow.runs_distinct hsource [i], ?_⟩
    simp [position_eq_ok_iff.mpr hi, hdistinct]
  · exact ⟨source, hsource, rfl⟩

namespace Store

/-- The first records of a plan are the first of all records. -/
theorem fetch_limited {all : List Record} (hall : s.fetch p.unpaged .never = (.ok all, .never))
    (limit : Nat) : s.fetch (p.limited limit) .never = (.ok (all.take limit), .never) := by
  have hfetch := fetch_windowed (p := p.unpaged) (by rw [hall]) rfl ⟨0, limit⟩
  rwa [List.drop_zero] at hfetch

/-- There are no first records if the stages of a plan fail before their first row. -/
theorem fetch_limited_fault (hsource : s.source p = .ok source)
    (hshape : p.unpaged.shape source = .ok flow) (hflow : flow.Runs [] (some fault)) {limit : Nat}
    (hlimit : 0 < limit) : s.fetch (p.limited limit) .never = (.error (.flow fault), .never) := by
  have hsource : s.source (p.limited limit) = .ok source := hsource
  have hlimited : (p.limited limit).shape source = .ok (flow.window 0 (some limit)) :=
    Plan.shape_windowed hshape rfl ⟨0, limit⟩
  obtain ⟨last, hrun⟩ := Flow.run_of_runs (Flow.runs_window_fault hflow 0 hlimit)
  simp [fetch, unlessCancelled, hsource, hlimited, runAll, hrun, Except.mapError, Except.map]

end Store

/-! ## Counts and first records of whole entities -/

namespace Planned.OfEntities

variable {c : Catalog} {root : String} {planned : Planned} {fields : List Field} {table : Table}

/-- The rows of a plan for whole entities are counted with the fault of its source, if that
fails. -/
theorem count_eq (h : planned.OfEntities c root s fields table)
    (hsource : s.source planned.plan = .ok source) {e : Option FlowFault}
    (hrows : source.Runs rows e) :
    s.count planned.plan .never = (match e with
      | none =>
          .ok
            (Store.countOf
              [[.int64 (Int64.ofNat (planned.plan.countedRows source.schema rows).length)]])
      | some fault => .error (.flow fault), .never) := by
  obtain ⟨i, hi, -⟩ := h.exists_idPosition
  rw [← (h.columns_of_source hsource).1] at hi
  obtain ⟨input, hinput, hcounter⟩ := Plan.exists_counter hrows hi
  cases e with
  | none =>
      obtain ⟨counter, hgroup, hcount⟩ := Flow.exists_runs_count hinput
      simp [Store.count, Store.unlessCancelled, hsource, hcounter, hgroup,
        Store.runAll_of_runs hcount, Except.mapError, Except.map]
  | some fault =>
      obtain ⟨counter, hgroup, hcount⟩ := Flow.exists_fault_count hinput
      obtain ⟨last, hrun⟩ := Flow.run_of_runs hcount
      simp [Store.count, Store.unlessCancelled, hsource, hcounter, hgroup, Store.runAll, hrun,
        Except.mapError, Except.map]

/-- Either a count and a fetch fail in the same way, or the count is the number of all records, of
which the first are fetched. -/
theorem answers (h : planned.OfEntities c root s fields table) (hcountable : s.Countable)
    {label : String} (horder : planned.plan.orderBy = [⟨label, .asc⟩])
    (hlabel : label ∈ planned.plan.projection.map Projected.label) {limit : Nat}
    (hlimit : 0 < limit) :
    (∃ fault, s.count planned.plan .never = (.error fault, .never) ∧
      s.fetch (planned.plan.limited limit) .never = (.error fault, .never)) ∨
    ∃ all : List Record, s.count planned.plan .never = (.ok all.length, .never) ∧
      s.fetch planned.plan.unpaged .never = (.ok all, .never) ∧
      s.fetch (planned.plan.limited limit) .never = (.ok (all.take limit), .never) := by
  cases hsource : s.source planned.plan with
  | error fault =>
      have hlimited : s.source (planned.plan.limited limit) = .error fault := hsource
      refine .inl ⟨fault, ?_, ?_⟩
      · simp [Store.count, Store.unlessCancelled, hsource]
      · simp [Store.fetch, Store.unlessCancelled, hlimited]
  | ok source =>
      obtain ⟨rows, e, hrows⟩ := Flow.exists_runs source
      obtain ⟨k, hk⟩ := Option.isSome_iff_exists.mp (List.isSome_idxOf?.mpr hlabel)
      have hprojection := (h.columns_of_source hsource).2
      cases e with
      | some fault =>
          -- ordering by the identifier reads all rows before the first is shown, so that a fetch
          -- meets a fault behind its limit too
          obtain ⟨next, hshape, hnext⟩ :=
            Plan.exists_fault_of_label (p := planned.plan.unpaged) h.aggregate_eq rfl
              h.projection_ne_nil hprojection horder hk hrows
          exact .inl ⟨_, h.count_eq hsource hrows,
            Store.fetch_limited_fault hsource hshape hnext hlimit⟩
      | none =>
          obtain ⟨next, hshape, -, -⟩ :=
            Plan.exists_runs_of_label (p := planned.plan.unpaged) h.aggregate_eq rfl
              h.projection_ne_nil hprojection horder hk hrows
          obtain ⟨shown, hshown, hlength, hle⟩ := h.exists_shown hsource hrows hshape
          have hall := Store.fetch_of_runs (p := planned.plan.unpaged) hsource hshape hshown
          refine .inr ⟨_, ?_, hall, Store.fetch_limited hall limit⟩
          rw [h.count_eq hsource hrows, ← hlength, List.length_map]
          dsimp only
          rw [Store.countOf_ofNat (Nat.lt_of_le_of_lt hle (hcountable.length_lt h.table_eq))]

end Planned.OfEntities

/-! ## Searches for a unique result -/

namespace Search

variable {search : Search} {store : Store} {r : Request} {planned : Planned}

/-- Whole entities are shown in the order of their identifiers, which are shown. -/
theorem exists_label (hplain : search.catalog.Plain) (haccepted : ∃ entities fallback,
      Catalog.of entities fallback = .ok search.catalog) {window : Option Window}
    (hplan : search.planFor r window = .ok planned) (hshape : planned.shape = .entities) :
    ∃ label, planned.plan.orderBy = [⟨label, .asc⟩] ∧
      label ∈ planned.plan.projection.map Projected.label := by
  obtain ⟨entities, fallback, haccepted⟩ := haccepted
  obtain ⟨e, id, compiled, shown, shape, joins, he, -, -, hshown, -, rfl⟩ :=
    Planner.plan_eq_ok hplan
  obtain ⟨-, -, hshown⟩ | ⟨hrows, -⟩ := Planner.shown_eq_ok hshown
  · obtain ⟨e', fields, id, -, hfields, hid, rfl⟩ := Planner.showEntity_eq_ok hshown
    obtain ⟨type, htype⟩ := Catalog.exists_idType haccepted ⟨e, Catalog.knows_of_entity he⟩
    obtain ⟨f, hf, hpath⟩ := Planner.exists_mem_of_idAttribute hplain.attributes htype hid hfields
    refine ⟨_, rfl, ?_⟩
    rw [List.map_map]
    refine List.mem_map.mpr ⟨f, hf, ?_⟩
    simp [Planner.entityLabel, hpath, Path.single, Path.text, Path.names]
  · have hshape : shape = .entities := hshape
    simp [hshape] at hrows

theorem shape_of_planFor (hselections : r.selections = []) (haggregates : r.aggregates = none)
    {window : Option Window} (hplan : search.planFor r window = .ok planned) :
    planned.shape = .entities := by
  obtain ⟨e, id, compiled, shown, shape, joins, -, -, -, hshown, -, rfl⟩ := Planner.plan_eq_ok hplan
  rw [Planner.shown, hselections, haggregates] at hshown
  obtain ⟨entity, -, hshown⟩ := Outcome.bind_eq_ok_iff.mp hshown
  exact (Prod.mk.inj (Except.ok.inj hshown)).2.symm

/-- A search without a page returns the whole entities of all records. -/
theorem exists_run_of_records {all : List Record} (hpage : r.page = none)
    (hplan : search.planFor r none = .ok planned) (hshape : planned.shape = .entities)
    (haggregate : planned.plan.isAggregate = false)
    (hall : store.fetch planned.plan .never = (.ok all, .never))
    (hcount : store.count planned.plan .never = (.ok all.length, .never)) :
    ∃ info, (search.run store r .never).1 =
      .ok ⟨.entities (all.map search.rebuilder.build), info⟩ := by
  have hwindow : search.window r = .ok none := by
    rw [window, hpage]
    rfl
  have htotal : total store planned .never = (.ok all.length, .never) := by
    simp [total, haggregate, hshape, countOf, hcount, Except.mapError]
  obtain ⟨⟨hits, info⟩, hrun, hhits⟩ := exists_run_of_fetch hwindow hplan hall fun _ => ⟨_, htotal⟩
  rw [hshape] at hhits
  obtain rfl : hits = .entities (all.map search.rebuilder.build) := hhits
  exact ⟨info, by rw [hrun]⟩

/-- A search for a unique result either fails as the count does, or tells from the first two of all
records. -/
theorem unique_cases (happart : search.TellsApart store r) (hselections : r.selections = [])
    (haggregates : r.aggregates = none) (hdemands : r.DemandsValues) :
    (∃ fault, (search.count store r .never).1 = .error fault ∧
      (search.unique store r .never).1 = .error fault) ∨
    ∃ (all : List Record) (info : Option PageInfo),
      (search.count store r .never).1 = .ok all.length ∧
      (search.run store { r with page := none } .never).1 =
        .ok ⟨.entities (all.map search.rebuilder.build), info⟩ ∧
      (search.unique store r .never).1 = match all with
        | [] => .ok none
        | [record] => .ok (some (.entity (search.rebuilder.build record)))
        | _ => .error (.notUnique 2) := by
  have hidentifying : isIdentifying r = true := isIdentifying_iff.mpr hdemands
  cases hplan : search.planFor r none with
  | error fault =>
      refine .inl ⟨fault, ?_, ?_⟩
      · simp [count, andThen, given, hplan]
      · simp [unique, hidentifying, andThen, given, hplan]
  | ok planned =>
      have hshape := shape_of_planFor hselections haggregates hplan
      obtain ⟨hcountable, fields, table, h⟩ := exists_ofEntities (fun _ _ => happart) hplan hshape
      obtain ⟨label, horder, hlabel⟩ := exists_label happart.plain happart.accepted hplan hshape
      -- two records are enough to tell one from more
      rcases h.answers hcountable horder hlabel Nat.two_pos with
        ⟨fault, hcount, hfetch⟩ | ⟨all, hcount, hall, hfetch⟩
      · refine .inl ⟨.store fault, ?_, ?_⟩
        · simp [count, andThen, given, hplan, countOf, hcount, Except.mapError]
        · simp [unique, hidentifying, andThen, given, hplan, fetch, hfetch, Except.mapError]
      · obtain ⟨info, hrun⟩ :=
          exists_run_of_records (r := { r with page := none }) rfl (planFor_unpaged hplan) hshape
            h.aggregate_eq hall hcount
        refine .inr ⟨all, info, ?_, hrun, ?_⟩
        · simp [count, andThen, given, hplan, countOf, hcount, Except.mapError]
        · rcases all with _ | ⟨first, _ | ⟨second, rest⟩⟩ <;>
            simp [unique, hidentifying, andThen, given, hplan, fetch, hfetch, hit, hshape,
              Except.mapError]

/-- Without hooks the count is the number of rows of the root that match; if there is only one, its
entity is found. -/
theorem exists_matching_of_unique (happart : search.TellsApart store r)
    (hselections : r.selections = []) (haggregates : r.aggregates = none)
    (hhooks : search.hooks = .none) (hsound : r.Sound search.catalog search.root)
    (hplan : search.planFor r none = .ok planned) :
    ∃ matching, search.matching store r = .ok matching ∧
      (search.count store r .never).1 = .ok matching.length ∧
      ∀ row, r.DemandsValues → matching = [row] →
        ∃ json, search.entityOf store row = .ok json ∧
          (search.unique store r .never).1 = .ok (some (.entity json)) := by
  obtain ⟨entities, fallback, haccepted⟩ := happart.accepted
  obtain ⟨matching, hmatching, hn⟩ :=
    exists_count haccepted happart.plain happart.filled happart.identified happart.countable hhooks
      hsound hplan
  have hcount : (search.count store r .never).1 = .ok matching.length := by
    simp [count, andThen, given, hplan, countOf, hn, Except.mapError]
  refine ⟨matching, hmatching, hcount, ?_⟩
  rintro row hdemands rfl
  -- all whole entities are that of the row, and the records they are made of are as many as are
  -- counted
  have hsound' : Request.Sound search.catalog search.root { r with page := none } :=
    ⟨hsound.groups, hsound.parameters⟩
  obtain ⟨others, rows, found, hothers, hperm, -, hfound, hrun⟩ :=
    exists_run haccepted happart.plain happart.filled happart.identified hhooks hsound'
      hselections haggregates rfl (planFor_unpaged hplan)
  have hsame : search.matching store { r with page := none } = search.matching store r :=
    matching_congr rfl rfl
  obtain rfl : others = [row] := Except.ok.inj (hothers.symm.trans (hsame.trans hmatching))
  obtain rfl := List.perm_singleton.mp hperm
  rcases unique_cases happart hselections haggregates hdemands with
    ⟨fault, hfault, -⟩ | ⟨all, info, hlength, hall, hunique⟩
  · simp [hcount] at hfault
  · obtain ⟨record, rfl⟩ : ∃ record, all = [record] := by
      rw [hcount, Except.ok.injEq] at hlength
      exact List.length_eq_one_iff.mp hlength.symm
    rw [hrun, Except.ok.injEq, ResultPage.mk.injEq, Hits.entities.injEq] at hall
    obtain ⟨rfl, -⟩ := hall
    cases Outcome.mapM_eq_ok_iff.mp hfound with
    | cons hjson _ => exact ⟨_, hjson, hunique⟩

/-- What a search for a unique result finds is decided by the count of the request, whatever
associations its filters follow and whatever page it names.  Nothing is found if nothing is counted,
the only whole entity if one row of the root is counted, and more are refused; where the count
fails, so does the search.  Filters of any other shape are refused.  Without hooks, the count is the
number of rows of the root that match, and the entity that of the only one. -/
theorem unique_decided (happart : search.TellsApart store r) (hselections : r.selections = [])
    (haggregates : r.aggregates = none) :
    (¬ r.DemandsValues → (search.unique store r .never).1 =
      .error (.malformed "filters" .notIdentifying)) ∧
    (r.DemandsValues →
      (∀ fault, (search.count store r .never).1 = .error fault →
        (search.unique store r .never).1 = .error fault) ∧
      ((search.count store r .never).1 = .ok 0 → (search.unique store r .never).1 = .ok none) ∧
      ((search.count store r .never).1 = .ok 1 →
        ∃ json info, (search.unique store r .never).1 = .ok (some (.entity json)) ∧
          (search.run store { r with page := none } .never).1 = .ok ⟨.entities [json], info⟩) ∧
      ∀ n, 2 ≤ n → (search.count store r .never).1 = .ok n →
        (search.unique store r .never).1 = .error (.notUnique 2)) ∧
    (search.hooks = .none → r.Sound search.catalog search.root → ∀ planned,
      search.planFor r none = .ok planned →
      ∃ matching, search.matching store r = .ok matching ∧
        (search.count store r .never).1 = .ok matching.length ∧
        ∀ row, r.DemandsValues → matching = [row] →
          ∃ json, search.entityOf store row = .ok json ∧
            (search.unique store r .never).1 = .ok (some (.entity json))) := by
  refine ⟨fun hnone => ?_, fun hdemands => ?_, fun hhooks hsound planned hplan =>
    exists_matching_of_unique happart hselections haggregates hhooks hsound hplan⟩
  · have hidentifying : isIdentifying r = false := by
      rw [← Bool.not_eq_true, isIdentifying_iff]
      exact hnone
    simp [unique, hidentifying, given]
  · rcases unique_cases happart hselections haggregates hdemands with
      ⟨fault, hcount, hunique⟩ | ⟨all, info, hcount, hrun, hunique⟩
    · rw [hcount, hunique]
      simp
    · rw [hcount, hunique, hrun]
      -- none, one and more, as the count has it
      rcases all with _ | ⟨record, _ | ⟨second, rest⟩⟩
      · simp
        omega
      · simp
        omega
      · simp

end Search

/-- A request for the author of a name who has written a book of a title, for a page that there is
not. -/
def Shelf.demand : WireRequest :=
  { WireRequest.empty with
    filters :=
      [.obj [("books", .obj [("title", .obj [("eq", .str "Ficciones")])]),
        ("name", .obj [("eq", .str "Borges")])]]
    page := some ⟨7, some 3⟩ }

/-- One author is counted, and found. -/
theorem Search.unique_decided_shelf :
    ∃ r json info, Shelf.search.read Shelf.demand = .ok r ∧ r.DemandsValues ∧
      (Shelf.search.count Shelf.store r .never).1 = .ok 1 ∧
      (Shelf.search.unique Shelf.store r .never).1 = .ok (some (.entity json)) ∧
      (Shelf.search.run Shelf.store { r with page := none } .never).1 =
        .ok ⟨.entities [json], info⟩ := by
  have hrun : ((Shelf.search.read Shelf.demand).toOption.any fun r =>
      r.selections.isEmpty && r.aggregates.isNone && Search.isIdentifying r &&
        (Shelf.search.count Shelf.store r .never).1.toOption.any fun n => n == 1) = true := by
    decide +kernel
  obtain ⟨r, hread, hrun⟩ := (Option.any_eq_true _ _).mp hrun
  have hread := Outcome.toOption_eq_some_iff.mp hread
  simp only [Bool.and_eq_true, List.isEmpty_iff, Option.isNone_iff_eq_none,
    Search.isIdentifying_iff, Option.any_eq_true, beq_iff_eq, Outcome.toOption_eq_some_iff] at hrun
  obtain ⟨⟨⟨hselections, haggregates⟩, hdemands⟩, _, hcount, rfl⟩ := hrun
  have hsound : r.Sound Shelf.catalog "Author" := WireRequest.sound_of_read (by decide) hread
  have happart : Shelf.search.TellsApart Shelf.store r :=
    ⟨⟨Shelf.catalog.entities, none, rfl⟩, by decide, Shelf.filled, Shelf.identified, by decide,
      hsound.resolved⟩
  obtain ⟨-, hdecided, -⟩ := Search.unique_decided happart hselections haggregates
  obtain ⟨-, -, hone, -⟩ := hdecided hdemands
  obtain ⟨json, info, hunique, hwhole⟩ := hone hcount
  exact ⟨r, json, info, hread, hdemands, hcount, hunique, hwhole⟩

end EntityQuery
