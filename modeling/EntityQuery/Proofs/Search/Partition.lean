import EntityQuery.Proofs.Search.Pages

/-!
# Pages partition the results

A page is a window on the results, which are pulled through the window from the stages that show all
of them.  When these show all results without a fault, so does every window on them, and what it
shows is the part of the results behind its offset, up to its size.  A window of the results depends
on nothing else: the number of all results, which data about a page tell, is the same for all pages.

So the pages of a size put one behind the other are the results, each of them once.  A page that is
no window, because of its size or because its offset is no machine word, is refused before anything
is planned, and no other page is shown in its place.

## Main definitions

* `Hits.part` : the results behind an offset, up to a size
* `Hits.items` : the results one by one
* `PageRequest.Refused` : a page that is no window

## Main statements

* `fetch_windowed` : the records of a window are a part of all records
* `pages_partition` : every page shows its part of the results, and pages one behind the other show
  all of them
-/

namespace EntityQuery

variable {s : Store} {p : Plan} {planned : Planned} {source flow : Flow} {signal : Signal}

/-! ## Parts of results -/

namespace Hits

/-- The results behind an offset, up to a size. -/
def part (offset size : Nat) : Hits → Hits
  | .entities items => .entities ((items.drop offset).take size)
  | .rows records => .rows ((records.drop offset).take size)

/-- The results one by one. -/
def items : Hits → List Hit
  | .entities items => items.map .entity
  | .rows records => records.map .row

@[simp] theorem length_items (hits : Hits) : hits.items.length = hits.length := by
  cases hits <;> simp [items, length]

@[simp] theorem items_part (offset size : Nat) (hits : Hits) :
    (hits.part offset size).items = (hits.items.drop offset).take size := by
  cases hits <;> simp [part, items, List.map_take, List.map_drop]

end Hits

/-! ## Windows -/

namespace PageRequest

/-- The size of a page, which is the default size if it is not given. -/
def sizeFor (config : Config) (page : PageRequest) : Nat := page.size.getD config.defaultPageSize

/-- A page is no window: its size is not allowed, or its offset is no machine word. -/
def Refused (config : Config) (page : PageRequest) : Prop :=
  page.sizeFor config = 0 ∨ config.maxPageSize < page.sizeFor config ∨
    Width.fitsWord (page.number * page.sizeFor config) = false

instance (config : Config) (page : PageRequest) : Decidable (page.Refused config) :=
  inferInstanceAs (Decidable (_ ∨ _ ∨ _))

theorem window_of_not_refused {config : Config} {page : PageRequest}
    (hpage : ¬ page.Refused config) :
    page.window config = .ok ⟨page.number * page.sizeFor config, page.sizeFor config⟩ := by
  simp only [Refused, not_or, Bool.not_eq_false] at hpage
  obtain ⟨hzero, hmost, hoffset⟩ := hpage
  rw [sizeFor] at hzero hmost hoffset ⊢
  simp [window, hzero, hmost, hoffset]

theorem window_of_refused {config : Config} {page : PageRequest} (hpage : page.Refused config) :
    ∃ fault, page.window config = .error (.invalidPage fault) := by
  unfold window
  dsimp only
  split
  · exact ⟨_, rfl⟩
  · next hsize =>
    rw [not_or] at hsize
    rcases hpage with hzero | hmost | hoffset
    · exact absurd hzero hsize.1
    · exact absurd hmost hsize.2
    · rw [sizeFor] at hoffset
      exact ⟨_, by rw [hoffset]; rfl⟩

end PageRequest

theorem Plan.shape_windowed (hshape : p.shape source = .ok flow) (hwindow : p.window = none)
    (w : Window) :
    Plan.shape { p with window := some w } source = .ok (flow.window w.offset (some w.limit)) := by
  obtain ⟨grouped, shown, ordered, hgrouped, hshown, hordered, rfl⟩ := shape_eq_ok hshape
  have hgrouped : Plan.group { p with window := some w } source = .ok grouped := hgrouped
  have hshown : Plan.project { p with window := some w } grouped = .ok shown := hshown
  have hordered :
      Plan.order { p with window := some w } (Plan.dedupe { p with window := some w } shown) =
        .ok ordered :=
    hordered
  rw [shape, hgrouped, Outcome.ok_bind, hshown, Outcome.ok_bind, hordered]
  simp [paged, hwindow]

/-- When all records can be fetched, so can those of a window: the records behind its offset, up to
its size. -/
theorem Store.fetch_windowed {records : List Record} (hfetch : (s.fetch p signal).1 = .ok records)
    (hwindow : p.window = none) (w : Window) :
    s.fetch { p with window := some w } .never =
      (.ok ((records.drop w.offset).take w.limit), .never) := by
  obtain ⟨source, flow, rows, hsource, hshape, hrows, rfl⟩ := exists_of_fetch hfetch
  have hsource : s.source { p with window := some w } = .ok source := hsource
  have hpart := fetch_of_runs hsource (Plan.shape_windowed hshape hwindow w)
    (Flow.runs_window hrows w.offset w.limit)
  rw [hpart, List.map_take, List.map_drop]
  rfl

/-! ## Searches -/

namespace Search

variable {search : Search} {store : Store} {r : Request}

theorem planFor_windowed (hplan : search.planFor { r with page := none } none = .ok planned)
    (page : Option PageRequest) (window : Option Window) :
    search.planFor { r with page := page } window =
      .ok ⟨{ planned.plan with window := window }, planned.shape⟩ := by
  obtain ⟨e, id, compiled, shown, shape, joins, he, hid, hcompiled, hshown, hjoins, rfl⟩ :=
    Planner.plan_eq_ok hplan
  have hcompiled : Planner.predicate search.hooks { r with page := page } = .ok compiled :=
    hcompiled
  have hshown : Planner.shown search.catalog search.root search.config.wrapperMarker
      { r with page := page } =
      .ok (shown, shape) := hshown
  simp [planFor, Planner.plan, he, hid, hcompiled, hshown, hjoins]

/-- What results have been put together from. -/
theorem exists_of_run {result : ResultPage} (hrun : (search.run store r signal).1 = .ok result) :
    ∃ window planned records, search.window r = .ok window ∧ search.planFor r window = .ok planned ∧
      (∃ after, (store.fetch planned.plan after).1 = .ok records) ∧
      result.hits = search.hits planned.shape records ∧
      (r.pageData = true → ∃ n after, (total store planned after).1 = .ok n) := by
  obtain ⟨window, after, hwindow, hrun⟩ := andThen_eq_ok hrun
  obtain ⟨planned, after, hplan, hrun⟩ := andThen_eq_ok hrun
  obtain ⟨records, after', hfetch, hrun⟩ := andThen_eq_ok hrun
  refine ⟨window, planned, records, given_eq_ok hwindow, given_eq_ok hplan,
    ⟨after, fetch_eq_ok (by rw [hfetch])⟩, ?_⟩
  dsimp only at hrun
  split at hrun
  · obtain ⟨n, last, htotal, hrun⟩ := andThen_eq_ok hrun
    have hresult := Except.ok.inj hrun
    exact ⟨by rw [← hresult], fun _ => ⟨n, after', by rw [htotal]⟩⟩
  · next hdata =>
    have hresult := Except.ok.inj hrun
    exact ⟨by rw [← hresult], fun hasked => absurd hasked hdata⟩

/-- Results are put together from what is fetched and, if data about the page are asked for, a
total. -/
theorem exists_run_of_fetch {window : Option Window} (hwindow : search.window r = .ok window)
    (hplan : search.planFor r window = .ok planned) {records : List Record}
    (hfetch : store.fetch planned.plan .never = (.ok records, .never))
    (htotal : r.pageData = true → ∃ n, total store planned .never = (.ok n, .never)) :
    ∃ result, search.run store r .never = (.ok result, .never) ∧
      result.hits = search.hits planned.shape records := by
  cases hdata : r.pageData with
  | true =>
      obtain ⟨n, hn⟩ := htotal hdata
      exact ⟨_, run_of_never hdata hwindow hplan hfetch hn, rfl⟩
  | false =>
      refine ⟨⟨search.hits planned.shape records, none⟩, ?_, rfl⟩
      simp [run, andThen, given, hwindow, hplan, fetch, hfetch, hdata, Except.mapError]

@[simp] theorem hits_part (shape : ResultShape) (records : List Record) (offset size : Nat) :
    search.hits shape ((records.drop offset).take size) =
      (search.hits shape records).part offset size := by
  cases shape <;> simp [hits, Hits.part, List.map_take, List.map_drop]

/-- When the search for all results succeeds, so does that for every page that is a window, and it
shows the results behind the offset, up to the size of the page. -/
theorem run_page {whole : ResultPage}
    (hwhole : (search.run store { r with page := none } signal).1 = .ok whole) {page : PageRequest}
    (hpage : ¬ page.Refused search.config) :
    ∃ result, search.run store { r with page := some page } .never = (.ok result, .never) ∧
      result.hits = whole.hits.part (page.number * page.sizeFor search.config)
        (page.sizeFor search.config) := by
  obtain ⟨window, planned, records, hnone, hplan, ⟨_, hfetch⟩, hhits, htotal⟩ :=
    exists_of_run hwhole
  obtain rfl : none = window := Except.ok.inj hnone
  set w : Window := ⟨page.number * page.sizeFor search.config, page.sizeFor search.config⟩
  have hwindow : search.window { r with page := some page } = .ok (some w) := by
    simp [window, PageRequest.window_of_not_refused hpage, w]
  have hrecords := Store.fetch_windowed hfetch (window_of_planFor hplan) w
  obtain ⟨result, hrun, hresult⟩ :=
    exists_run_of_fetch hwindow (planFor_windowed hplan (some page) (some w)) hrecords
      fun hdata => by
        obtain ⟨n, _, hn⟩ := htotal hdata
        exact ⟨n, total_windowed hn (some w)⟩
  exact ⟨result, hrun, by rw [hresult, hits_part, hhits]⟩

/-- The first pages of a size show the first results, each of them once. -/
theorem exists_pages {whole : ResultPage}
    (hwhole : (search.run store { r with page := none } signal).1 = .ok whole) {size m : Nat}
    (hpages : ∀ k < m, ¬ PageRequest.Refused search.config ⟨k, some size⟩) :
    ∃ results,
        ((List.range m).mapM fun k =>
          (search.run store { r with page := some ⟨k, some size⟩ } .never).1) =
        .ok results ∧
      results.flatMap (·.hits.items) = whole.hits.items.take (m * size) := by
  induction m with
  | zero => exact ⟨[], rfl, by simp⟩
  | succ m ih =>
      obtain ⟨results, hresults, hitems⟩ := ih fun k hk => hpages k (Nat.lt_succ_of_lt hk)
      obtain ⟨result, hrun, hhits⟩ := run_page hwhole (hpages m (Nat.lt_succ_self m))
      refine ⟨results ++ [result], ?_, ?_⟩
      · rw [List.range_succ, List.mapM_append, hresults, Outcome.ok_bind]
        simp [hrun]
      · calc (results ++ [result]).flatMap (·.hits.items)
          _ = whole.hits.items.take (m * size) ++ (whole.hits.items.drop (m * size)).take size := by
            rw [List.flatMap_append, hitems, List.flatMap_singleton, hhits, Hits.items_part]
            rfl
          _ = whole.hits.items.take ((m + 1) * size) := by rw [Nat.succ_mul, List.take_add]

/-- When the search for all results succeeds, so does that for every page that is a window, and it
shows the results behind the offset, up to the size of the page.  So the first pages of a size are
the first of all results, and as many of them as there is room for all results are all of them.  Any
other page is refused. -/
theorem pages_partition (search : Search) (store : Store) (r : Request) :
    (∀ whole, (search.run store { r with page := none } .never).1 = .ok whole →
      (∀ page : PageRequest, ¬ page.Refused search.config →
        ∃ result, search.run store { r with page := some page } .never = (.ok result, .never) ∧
          result.hits = whole.hits.part (page.number * page.sizeFor search.config)
            (page.sizeFor search.config)) ∧
      ∀ size m, (∀ k < m, ¬ PageRequest.Refused search.config ⟨k, some size⟩) →
        ∃ results,
            ((List.range m).mapM fun k =>
              (search.run store { r with page := some ⟨k, some size⟩ } .never).1) =
            .ok results ∧
          results.flatMap (·.hits.items) = whole.hits.items.take (m * size) ∧
          (whole.hits.length ≤ m * size → results.flatMap (·.hits.items) = whole.hits.items)) ∧
    ∀ (page : PageRequest) (signal : Signal), page.Refused search.config →
      ∃ fault, search.run store { r with page := some page } signal =
        (.error (.invalidPage fault), signal) := by
  refine ⟨fun whole hwhole => ⟨fun page hpage => run_page hwhole hpage, fun size m hpages => ?_⟩,
    ?_⟩
  · obtain ⟨results, hresults, hitems⟩ := exists_pages hwhole hpages
    refine ⟨results, hresults, hitems, fun hall => ?_⟩
    rw [hitems, List.take_of_length_le (by rwa [Hits.length_items])]
  · intro page signal hpage
    obtain ⟨fault, hfault⟩ := PageRequest.window_of_refused hpage
    have hwindow : search.window { r with page := some page } = .error (.invalidPage fault) := by
      simp [window, hfault]
    exact ⟨fault, by rw [run, andThen, given, hwindow]⟩

/-- The two authors of a shelf are shown on pages of one author each; a page of no authors is
refused, and so is one that is too far away for a machine word. -/
theorem pages_partition_shelf :
    ∃ r whole first second, Shelf.search.read Shelf.secondPage = .ok r ∧
      (Shelf.search.run Shelf.store { r with page := none } .never).1 = .ok whole ∧
      whole.hits.length = 2 ∧
      (Shelf.search.run Shelf.store { r with page := some ⟨0, some 1⟩ } .never).1 = .ok first ∧
      (Shelf.search.run Shelf.store { r with page := some ⟨1, some 1⟩ } .never).1 = .ok second ∧
      second.hits = whole.hits.part 1 1 ∧ first.hits.items ++ second.hits.items = whole.hits.items ∧
      ∀ page : PageRequest, page = ⟨0, some 0⟩ ∨ page = ⟨2 ^ 63, some 2⟩ →
        ∃ fault, Shelf.search.run Shelf.store { r with page := some page } .never =
          (.error (.invalidPage fault), .never) := by
  have hrun : ((Shelf.search.read Shelf.secondPage).toOption.any fun r =>
      (Shelf.search.run Shelf.store { r with page := none } .never).1.toOption.any fun whole =>
        whole.hits.length == 2) = true := by
    decide +kernel
  obtain ⟨r, hread, hrun⟩ := (Option.any_eq_true _ _).mp hrun
  have hread := Outcome.toOption_eq_some_iff.mp hread
  simp only [Option.any_eq_true, beq_iff_eq, Outcome.toOption_eq_some_iff] at hrun
  obtain ⟨whole, hwhole, hlength⟩ := hrun
  obtain ⟨hpages, hrefused⟩ := pages_partition Shelf.search Shelf.store r
  obtain ⟨hpage, hall⟩ := hpages whole hwhole
  have hwindows : ∀ k < 2, ¬ PageRequest.Refused Shelf.search.config ⟨k, some 1⟩ := by decide
  obtain ⟨first, hfirst, -⟩ := hpage ⟨0, some 1⟩ (hwindows 0 (by decide))
  obtain ⟨second, hsecond, hpart⟩ := hpage ⟨1, some 1⟩ (hwindows 1 (by decide))
  obtain ⟨results, hresults, -, hitems⟩ := hall 1 2 hwindows
  have hboth : [first, second] = results := by
    refine Except.ok.inj (Eq.trans ?_ hresults)
    rw [List.range_succ, List.range_succ]
    simp [hfirst, hsecond]
  refine ⟨r, whole, first, second, hread, hwhole, hlength, by rw [hfirst], by rw [hsecond], hpart,
    ?_, ?_⟩
  · rw [← hboth] at hitems
    simpa using hitems (by rw [hlength])
  · rintro page (rfl | rfl)
    · exact hrefused _ _ (by decide)
    · exact hrefused _ _ (by decide)

end Search

end EntityQuery
