import EntityQuery.Proofs.Search.Fields
import EntityQuery.Proofs.Search.Source
import EntityQuery.Proofs.Search.Spelled

/-!
# Groups and aggregates do not meet

A field must not be grouped by and aggregated at once.  A request is checked for that while its
paths are still texts, in plain spelling, and where the grouping is left to the selected fields
those that are aggregated are left out.  A plan groups by columns and aggregates columns.  So the
plan keeps the two apart as far as a column is reached by one text only: a column of a plan is
grouped by and aggregated exactly if two different texts lead to it.

Two texts lead to one column if a root path stands in front of one of them, which is taken off only
after the check, or if two attributes are stored in one column.  Where neither is the case the check
is all that is needed.

## Strategy

A text without a root path in front is that of the path of its field (`text_of_resolve`), and where
attributes have different columns the column of a field determines its path: the names that lead to
its owner, as they are told apart by the text (`Path.dotted_injective`), and the attribute, as its
owner stores no two in one column (`Catalog.nodup_ownColumns`).

## Main definitions

* `Request.grouped`, `Request.aggregated` : the paths to group by and to aggregate
* `Planner.LeadsTo` : the column to which a path leads
* `Planner.Unrooted` : no root path stands in front of a path

## Main statements

* `WireRequest.disjoint_of_read` : no path is grouped by and aggregated
* `Catalog.path_eq_of_columnPath` : the column determines the path
* `Planner.disjoint_of_plan` : when no column is grouped by and aggregated
-/

namespace EntityQuery

variable {c : Catalog} {root marker : String}

/-! ## Paths of a request -/

namespace Request

/-- The paths to group by. -/
def grouped (r : Request) : List String := (r.aggregates.bind Aggregates.groupBy).getD []

/-- The calls of functions. -/
def calls (r : Request) : List (AggregateFn × String) := (r.aggregates.map Aggregates.calls).getD []

/-- The paths to aggregate. -/
def aggregated (r : Request) : List String := r.calls.map Prod.snd

end Request

namespace Aggregates

variable {a settled : Aggregates}

theorem contains_iff {path : String} : a.contains path = true ↔ path ∈ a.calls.map Prod.snd := by
  simp only [contains, List.any_eq_true, decide_eq_true_eq, List.mem_map]

theorem calls_map (f : String → String) (a : Aggregates) :
    (a.map f).calls = a.calls.map fun call => (call.1, f call.2) := by
  unfold calls
  rw [List.map_flatMap]
  refine List.flatMap_congr fun fn _ => ?_
  cases fn <;> simp [map, paths, Function.comp_def]

theorem mem_groupedBySelection {selected : List String} {path : String}
    (hpath : path ∈ (a.groupedBySelection selected).groupBy.getD []) :
    path ∈ selected ∧ a.contains path = false := by
  unfold groupedBySelection at hpath
  dsimp only at hpath
  cases hgroup : (some (selected.filter (!a.contains ·))).filter (!·.isEmpty) with
  | none => simp [hgroup] at hpath
  | some group =>
      obtain ⟨heq, -⟩ := Option.filter_eq_some_iff.mp hgroup
      rw [hgroup, Option.getD_some, ← Option.some.inj heq, List.mem_filter] at hpath
      exact ⟨hpath.1, by simpa using hpath.2⟩

/-- The paths in plain spelling are those that are grouped by and aggregated; what is aggregated is
not grouped by. -/
theorem normalize_eq_ok {selected : List String}
    (hsettled : a.normalize marker selected = .ok (some settled)) :
    settled.calls = (a.map (Spelling.plain marker)).calls ∧
      ∀ path ∈ settled.groupBy.getD [],
        ((∃ sent, path = Spelling.plain marker sent) ∨ path ∈ selected) ∧
        settled.contains path = false := by
  unfold normalize at hsettled
  dsimp only at hsettled
  split at hsettled
  · next group hgroup =>
    split at hsettled
    · simp at hsettled
    · next hapart =>
      obtain rfl := Option.some.inj (Except.ok.inj hsettled)
      rw [hgroup, Option.getD_some]
      refine ⟨rfl, fun path hpath =>
        ⟨.inl ?_, by simpa using List.find?_eq_none.mp hapart path hpath⟩⟩
      obtain ⟨hgroup, -⟩ := Option.filter_eq_some_iff.mp hgroup
      obtain ⟨sent, -, rfl⟩ := Option.map_eq_some_iff.mp hgroup
      obtain ⟨text, -, rfl⟩ := List.mem_map.mp hpath
      exact ⟨text, rfl⟩
  · split at hsettled
    · obtain rfl := Option.some.inj (Except.ok.inj hsettled)
      refine ⟨rfl, fun path hpath => ?_⟩
      obtain ⟨hselected, hapart⟩ := mem_groupedBySelection hpath
      exact ⟨.inr hselected, hapart⟩
    · simp at hsettled

end Aggregates

namespace WireRequest

variable {wire : WireRequest} {r : Request}

theorem read_eq_ok (hread : wire.read c root marker = .ok r) :
    (∀ s ∈ r.selections, ∃ sent, s.path = Spelling.plain marker sent) ∧
      ∀ a, r.aggregates = some a →
        ∃ sent, wire.aggregates = some sent ∧
          sent.normalize marker (r.selections.map Selection.path) = .ok (some a) := by
  obtain ⟨groups, -, hread⟩ := Outcome.bind_eq_ok_iff.mp hread
  obtain ⟨parameters, -, hread⟩ := Outcome.bind_eq_ok_iff.mp hread
  have hnamed {selections : List Selection}
      (hselections : selections =
        (wire.fields.map fun s => { s with path := Spelling.plain marker s.path }).filter
        fun s => !Spelling.isPageField s.path) :
      ∀ s ∈ selections, ∃ sent, s.path = Spelling.plain marker sent := by
    rintro s hs
    rw [hselections] at hs
    obtain ⟨sent, -, rfl⟩ := List.mem_map.mp (List.mem_filter.mp hs).1
    exact ⟨sent.path, rfl⟩
  dsimp only at hread
  split at hread
  · next sent hsent =>
    obtain ⟨aggregates, haggregates, hread⟩ := Outcome.bind_eq_ok_iff.mp hread
    obtain rfl := Except.ok.inj hread
    refine ⟨hnamed rfl, fun a ha => ⟨sent, hsent, ?_⟩⟩
    rw [haggregates]
    exact congrArg Except.ok ha
  · obtain rfl := Except.ok.inj hread
    exact ⟨hnamed rfl, by simp⟩

/-- No path is grouped by and aggregated. -/
theorem disjoint_of_read (hread : wire.read c root marker = .ok r) :
    List.Disjoint r.grouped r.aggregated := by
  obtain ⟨-, haggregates⟩ := read_eq_ok hread
  intro path hgrouped haggregated
  unfold Request.grouped at hgrouped
  unfold Request.aggregated Request.calls at haggregated
  cases ha : r.aggregates with
  | none => simp [ha] at hgrouped
  | some a =>
      obtain ⟨sent, -, hnormalize⟩ := haggregates a ha
      rw [ha] at hgrouped haggregated
      have hapart := ((Aggregates.normalize_eq_ok hnormalize).2 path hgrouped).2
      have hthere := Aggregates.contains_iff.mpr haggregated
      simp [hapart] at hthere

/-- The paths to group by and to aggregate are in plain spelling. -/
theorem plain_of_read (hread : wire.read c root marker = .ok r) {path : String}
    (hpath : path ∈ r.grouped ++ r.aggregated) : Spelling.plain marker path = path := by
  obtain ⟨hselections, haggregates⟩ := read_eq_ok hread
  have hsent : ∃ sent, path = Spelling.plain marker sent := by
    unfold Request.grouped Request.aggregated Request.calls at hpath
    cases ha : r.aggregates with
    | none => simp [ha] at hpath
    | some a =>
        obtain ⟨sent, -, hnormalize⟩ := haggregates a ha
        obtain ⟨hcalls, hgrouped⟩ := Aggregates.normalize_eq_ok hnormalize
        rw [ha, List.mem_append] at hpath
        rcases hpath with hpath | hpath
        · rcases (hgrouped path hpath).1 with hsent | hselected
          · exact hsent
          · obtain ⟨s, hs, rfl⟩ := List.mem_map.mp hselected
            exact hselections s hs
        · rw [Option.map_some, Option.getD_some, hcalls, Aggregates.calls_map,
            List.map_map] at hpath
          obtain ⟨call, -, rfl⟩ := List.mem_map.mp hpath
          exact ⟨call.2, rfl⟩
  obtain ⟨sent, rfl⟩ := hsent
  exact Spelling.plain_plain marker sent

end WireRequest

/-! ## Columns of own attributes -/

namespace Catalog

/-- Own attributes of an entity have columns of their own. -/
theorem nodup_ownColumns (hplain : c.Plain) {entity : String} (hentity : c.Knows entity) :
    ((c.ownAttributes entity).map fun a => c.columnName entity a.name).Nodup := by
  obtain ⟨e, he⟩ := hentity
  obtain ⟨hmem, rfl⟩ := mem_of_entity? he
  have hcolumns : (c.ownAttributes e.name).filterMap (c.physicalColumn? e.name) =
      (c.ownAttributes e.name).map fun a => c.columnName e.name a.name := by
    rw [← List.filterMap_eq_map]
    exact List.filterMap_congr fun a ha => physicalColumn?_of_isOwn (List.mem_filter.mp ha).2
  rw [← hcolumns]
  exact (hplain.columns e hmem).sublist (List.filter_sublist.filterMap _)

theorem mem_ownAttributes_of_field (hnames : c.Unrepeated) {p : Path} {f : Field}
    (hf : c.field root p = .ok f) (hscalar : f.isComplex = false) :
    ∃ a ∈ c.ownAttributes f.owner, a.name = p.field ∧ f.column = c.columnName f.owner a.name := by
  obtain ⟨joins, owner, a, kind, hfollow, ha, hkind, heq⟩ := field_eq_ok_iff.mp hf
  have howner : f.owner = owner := by rw [heq]
  rw [howner]
  obtain ⟨hvisible, hname⟩ := (attribute?_eq_some_iff hnames).mp ha
  have hown := isComplex_of_field hf (howner ▸ ha)
  rw [hscalar, howner] at hown
  exact ⟨a, List.mem_filter.mpr ⟨hvisible, by simpa using hown.symm⟩, hname, by rw [heq, hname]⟩

theorem dotless_columnName (hplain : c.Plain) {entity name : String} (hname : Path.Dotless name) :
    Path.Dotless (c.columnName entity name) := by
  unfold columnName
  cases hoverride : c.override? entity name with
  | none => exact hname
  | some column => exact dotless_of_override? hplain hoverride

/-- The column of a scalar field determines its path. -/
theorem path_eq_of_columnPath (hplain : c.Plain) {p q : Path} {f g : Field}
    (hf : c.field root p = .ok f) (hg : c.field root q = .ok g) (hfscalar : f.isComplex = false)
    (hgscalar : g.isComplex = false) (hcolumn : f.columnPath = g.columnPath) : p = q := by
  have hdotless {p : Path} {f : Field} (hf : c.field root p = .ok f)
      (hscalar : f.isComplex = false) :
      ∀ name ∈ p.steps ++ [f.column], Path.Dotless name := by
    obtain ⟨places, hclosed, hplace⟩ := closed_of_field hf
    obtain ⟨a, ha, -, hcolumn⟩ := mem_ownAttributes_of_field hplain.attributes hf hscalar
    rw [List.forall_mem_append, hcolumn]
    refine ⟨hclosed.dotless hplain.names hplace, fun name hname => ?_⟩
    rw [List.mem_singleton.mp hname]
    exact dotless_columnName hplain (dotless_of_visible hplain (List.mem_filter.mp ha).1)
  rw [Field.columnPath_of_field hf, Field.columnPath_of_field hg] at hcolumn
  obtain ⟨hsteps, hlast⟩ := List.append_inj'
    (Path.dotted_injective (by simp) (by simp) (hdotless hf hfscalar)
      (hdotless hg hgscalar) hcolumn) rfl
  -- the same steps lead to one owner, in which the column belongs to one attribute
  have howner : f.owner = g.owner := by
    obtain ⟨_, _, _, _, hfollow, -, -, rfl⟩ := field_eq_ok_iff.mp hf
    obtain ⟨_, _, _, _, hfollow', -, -, rfl⟩ := field_eq_ok_iff.mp hg
    rw [hsteps, hfollow'] at hfollow
    exact (Prod.mk.inj (Option.some.inj hfollow)).2.symm
  obtain ⟨a, ha, hafield, hacolumn⟩ := mem_ownAttributes_of_field hplain.attributes hf hfscalar
  obtain ⟨b, hb, hbfield, hbcolumn⟩ := mem_ownAttributes_of_field hplain.attributes hg hgscalar
  have hentity := knows_of_attribute? (visible_of_mem hplain.attributes (List.mem_filter.mp hb).1)
  rw [howner] at ha hacolumn
  have hsame : a = b := List.inj_on_of_nodup_map (nodup_ownColumns hplain hentity) ha hb
    (by rw [← hacolumn, ← hbcolumn]; simpa using hlast)
  calc p = ⟨p.steps, p.field⟩ := rfl
    _ = ⟨q.steps, q.field⟩ := by rw [hsteps, ← hafield, hsame, hbfield]
    _ = q := rfl

end Catalog

/-! ## Columns of a plan -/

namespace Planner

/-- A path as sent leads to a scalar field that is stored in the column. -/
def LeadsTo (c : Catalog) (root marker path column : String) : Prop :=
  ∃ f, resolve c root marker path = .ok f ∧ f.isComplex = false ∧ f.columnPath = column

/-- No root path stands in front of the path: its first name is an attribute or no root path of the
entity. -/
def Unrooted (c : Catalog) (root path : String) : Prop :=
  ∀ first ∈ (Text.pieces '.' path).head?, FilterReader.isRootPath c root first = false

instance (c : Catalog) (root path : String) : Decidable (Unrooted c root path) :=
  inferInstanceAs
    (Decidable (∀ first ∈ (Text.pieces '.' path).head?,
      FilterReader.isRootPath c root first = false))

/-- Without a root path in front a path in plain spelling is the text of the path of its field. -/
theorem text_of_resolve {path : String} (hplain : Spelling.plain marker path = path)
    (hpath : Unrooted c root path) {f : Field} (hf : resolve c root marker path = .ok f) :
    f.path.text = path := by
  obtain ⟨p, e, hp, he, hfield⟩ := resolve_eq_ok_iff.mp hf
  rw [hplain] at hp
  have hnames := (Path.read?_eq_some_iff.mp hp).1
  have hwhole : withoutRoot c root e.rootPaths p = p := by
    unfold withoutRoot
    split
    · rfl
    · next first hfirst =>
      have hno := hpath first (hnames ▸ hfirst)
      rw [FilterReader.isRootPath, he] at hno
      rw [if_neg (by simpa using hno)]
  rw [hwhole] at hfield
  rw [Catalog.path_of_field hfield, Path.text, hnames, Path.dotted_pieces]

theorem leadsTo_iff_of_resolveScalar {fault : TypeFault} {path : String} {f : Field}
    (hf : resolveScalar c root marker fault path = .ok f) {column : String} :
    LeadsTo c root marker path column ↔ f.columnPath = column := by
  obtain ⟨hf, hscalar⟩ := resolveScalar_eq_ok hf
  constructor
  · rintro ⟨g, hg, -, hcolumn⟩
    rwa [Except.ok.inj (hf.symm.trans hg)]
  · exact fun hcolumn => ⟨f, hf, hscalar, hcolumn⟩

theorem leadsTo_iff_of_groupColumn {columns : List Selected} {path : String}
    {group : Projected × List JoinStep}
    (hgroup : groupColumn c root marker columns path = .ok group) {column : String} :
    LeadsTo c root marker path column ↔ group.1.column = column := by
  obtain ⟨f, hf, hgroup⟩ := Outcome.bind_eq_ok_iff.mp hgroup
  obtain rfl := Except.ok.inj hgroup
  exact leadsTo_iff_of_resolveScalar hf

theorem leadsTo_iff_of_aggregateItem {fn : AggregateFn} {path : String}
    {item : AggregateItem × List JoinStep} (hitem : aggregateItem c root marker fn path = .ok item)
    {column : String} : LeadsTo c root marker path column ↔ item.1.column = column := by
  obtain ⟨f, hf, hitem⟩ := Outcome.bind_eq_ok_iff.mp hitem
  split at hitem
  · simp at hitem
  · obtain rfl := Except.ok.inj hitem
    exact leadsTo_iff_of_resolveScalar hf

/-- A plan groups and aggregates what its request asks for. -/
theorem groups_of_plan {hooks : FieldHooks} {r : Request} {window : Option Window}
    {planned : Planned} (hplan : plan c root marker hooks r window = .ok planned) :
    ∃ columns groups items, r.grouped.mapM (groupColumn c root marker columns) = .ok groups ∧
      (r.calls.mapM fun (fn, path) => aggregateItem c root marker fn path) = .ok items ∧
      planned.plan.groupBy = groups.map (·.1.column) ∧
      planned.plan.aggregates = items.map (·.1) := by
  obtain ⟨e, id, compiled, shown, shape, joins, -, -, -, hshown, -, rfl⟩ := plan_eq_ok hplan
  rcases shown_eq_ok hshown with ⟨-, ⟨-, hnone⟩, hshown⟩
    | ⟨-, columns, -, ⟨a, ha, hshown⟩ | ⟨hnone, hshown⟩⟩
  · obtain ⟨_, _, _, _, _, _, rfl⟩ := showEntity_eq_ok hshown
    exact ⟨[], [], [], by simp [Request.grouped, hnone], by simp [Request.calls, hnone], rfl, rfl⟩
  · obtain ⟨groups, hgroups, hshown⟩ := Outcome.bind_eq_ok_iff.mp hshown
    obtain ⟨items, hitems, hshown⟩ := Outcome.bind_eq_ok_iff.mp hshown
    obtain rfl := Except.ok.inj hshown
    refine ⟨columns, groups, items, ?_, ?_, rfl, rfl⟩
    · rw [Request.grouped, ha]
      exact mapM_of_labelled hgroups
    · rw [Request.calls, ha]
      exact mapM_of_labelled hitems
  · obtain ⟨⟨⟩, -, hshown⟩ := Outcome.bind_eq_ok_iff.mp hshown
    obtain rfl := Except.ok.inj hshown
    exact ⟨[], [], [], by simp [Request.grouped, hnone], by simp [Request.calls, hnone], rfl, rfl⟩

theorem mem_groupBy_iff {hooks : FieldHooks} {r : Request} {window : Option Window}
    {planned : Planned} (hplan : plan c root marker hooks r window = .ok planned)
    {column : String} :
    column ∈ planned.plan.groupBy ↔ ∃ path ∈ r.grouped, LeadsTo c root marker path column := by
  obtain ⟨columns, groups, -, hgroups, -, hgroupBy, -⟩ := groups_of_plan hplan
  rw [hgroupBy, List.mem_map]
  constructor
  · rintro ⟨group, hgroup, hcolumn⟩
    obtain ⟨path, hpath, hgroup⟩ := Outcome.exists_of_mem_mapM hgroups hgroup
    exact ⟨path, hpath, (leadsTo_iff_of_groupColumn hgroup).mpr hcolumn⟩
  · rintro ⟨path, hpath, hleads⟩
    obtain ⟨group, hmem, hgroup⟩ := Outcome.exists_mem_of_mapM hgroups hpath
    exact ⟨group, hmem, (leadsTo_iff_of_groupColumn hgroup).mp hleads⟩

theorem mem_aggregates_iff {hooks : FieldHooks} {r : Request} {window : Option Window}
    {planned : Planned} (hplan : plan c root marker hooks r window = .ok planned)
    {column : String} :
    column ∈ planned.plan.aggregates.map AggregateItem.column ↔
      ∃ path ∈ r.aggregated, LeadsTo c root marker path column := by
  obtain ⟨columns, -, items, -, hitems, -, haggregates⟩ := groups_of_plan hplan
  rw [haggregates, List.map_map, List.mem_map]
  constructor
  · rintro ⟨item, hitem, hcolumn⟩
    obtain ⟨call, hcall, hitem⟩ := Outcome.exists_of_mem_mapM hitems hitem
    exact ⟨call.2, List.mem_map_of_mem hcall, (leadsTo_iff_of_aggregateItem hitem).mpr hcolumn⟩
  · rintro ⟨path, hpath, hleads⟩
    obtain ⟨call, hcall, rfl⟩ := List.mem_map.mp hpath
    obtain ⟨item, hmem, hitem⟩ := Outcome.exists_mem_of_mapM hitems hcall
    exact ⟨item, hmem, (leadsTo_iff_of_aggregateItem hitem).mp hleads⟩

/-- A plan groups by none of the columns that it aggregates, exactly if no two different paths lead
to one of them.  That is so if attributes are stored in columns of their own and no path has a root
path in front. -/
theorem disjoint_of_plan {wire : WireRequest} {r : Request}
    (hread : wire.read c root marker = .ok r) {hooks : FieldHooks} {window : Option Window}
    {planned : Planned} (hplan : plan c root marker hooks r window = .ok planned) :
    (List.Disjoint planned.plan.groupBy (planned.plan.aggregates.map AggregateItem.column) ↔
        ∀ path ∈ r.grouped, ∀ other ∈ r.aggregated, ∀ column,
          LeadsTo c root marker path column → LeadsTo c root marker other column → path = other) ∧
      (c.Plain → (∀ path ∈ r.grouped ++ r.aggregated, Unrooted c root path) →
        List.Disjoint planned.plan.groupBy (planned.plan.aggregates.map AggregateItem.column)) := by
  have hiff :
      List.Disjoint planned.plan.groupBy (planned.plan.aggregates.map AggregateItem.column) ↔
      ∀ path ∈ r.grouped, ∀ other ∈ r.aggregated, ∀ column,
        LeadsTo c root marker path column → LeadsTo c root marker other column → path = other := by
    constructor
    · intro hdisjoint path hpath other hother column hgrouped haggregated
      exact (hdisjoint ((mem_groupBy_iff hplan).mpr ⟨path, hpath, hgrouped⟩)
        ((mem_aggregates_iff hplan).mpr ⟨other, hother, haggregated⟩)).elim
    · intro hsame column hgrouped haggregated
      obtain ⟨path, hpath, hleads⟩ := (mem_groupBy_iff hplan).mp hgrouped
      obtain ⟨other, hother, hleads'⟩ := (mem_aggregates_iff hplan).mp haggregated
      obtain rfl := hsame path hpath other hother column hleads hleads'
      exact WireRequest.disjoint_of_read hread hpath hother
  refine ⟨hiff, fun hplain hunrooted =>
    hiff.mpr fun path hpath other hother column hleads hleads' => ?_⟩
  obtain ⟨f, hf, hfscalar, rfl⟩ := hleads
  obtain ⟨g, hg, hgscalar, hcolumn⟩ := hleads'
  -- scalar fields of one column have one path, and an unrooted path is the text of its field
  have hsame : f.path = g.path :=
    Catalog.path_eq_of_columnPath hplain (field_of_resolve hf)
      (field_of_resolve hg) hfscalar hgscalar hcolumn.symm
  have hpath := List.mem_append_left r.aggregated hpath
  have hother := List.mem_append_right r.grouped hother
  calc path
      = f.path.text :=
        (text_of_resolve (WireRequest.plain_of_read hread hpath) (hunrooted _ hpath) hf).symm
    _ = g.path.text := by rw [hsame]
    _ = other := text_of_resolve (WireRequest.plain_of_read hread hother) (hunrooted _ hother) hg

/-- Books by their authors, the titles of each counted. -/
theorem disjoint_of_plan_shelf :
    ∃ r planned, WireRequest.read Shelf.catalog "Book" "data"
        { WireRequest.empty with
          aggregates := some
            { Aggregates.empty with
              count := ["data.title"], groupBy := some ["author_Author.name"] } } =
          .ok r ∧
      plan Shelf.catalog "Book" "data" .none r none = .ok planned ∧
      planned.plan.groupBy = ["author.name"] ∧
      Shelf.catalog.Plain ∧
      List.Disjoint planned.plan.groupBy (planned.plan.aggregates.map AggregateItem.column) := by
  have hmade : ((WireRequest.read Shelf.catalog "Book" "data"
      { WireRequest.empty with
        aggregates := some
          { Aggregates.empty with
            count := ["data.title"], groupBy := some ["author_Author.name"] } }
      ).toOption.any fun r =>
        r.grouped ++ r.aggregated = ["author.name", "title"] &&
          (plan Shelf.catalog "Book" "data" .none r none).toOption.any fun planned =>
            planned.plan.groupBy = ["author.name"]) = true := by
    decide +kernel
  simp only [Option.any_eq_true, Outcome.toOption_eq_some_iff, Bool.and_eq_true,
    decide_eq_true_eq] at hmade
  obtain ⟨r, hread, hpaths, planned, hplan, hgroupBy⟩ := hmade
  have hplain : Shelf.catalog.Plain := by decide
  obtain ⟨-, hdisjoint⟩ := disjoint_of_plan hread hplan
  exact ⟨r, planned, hread, hplan, hgroupBy, hplain, hdisjoint hplain (by rw [hpaths]; decide)⟩

/-- Behind a root path a title is counted that is grouped by at once. -/
theorem not_disjoint_behind_rootPath :
    Catalog.of Shelf.catalog.entities none = .ok Shelf.catalog ∧
      ∃ r planned, WireRequest.read Shelf.catalog "Book" "data"
          { WireRequest.empty with
            aggregates :=
              some { Aggregates.empty with count := ["book.title"], groupBy := some ["title"] } } =
                .ok r ∧
        plan Shelf.catalog "Book" "data" .none r none = .ok planned ∧
        "title" ∈ planned.plan.groupBy ∧
        "title" ∈ planned.plan.aggregates.map AggregateItem.column := by
  have hmade : ((WireRequest.read Shelf.catalog "Book" "data"
      { WireRequest.empty with
        aggregates :=
          some { Aggregates.empty with count := ["book.title"], groupBy := some ["title"] } }
      ).toOption.any fun r =>
        (plan Shelf.catalog "Book" "data" .none r none).toOption.any fun planned =>
          planned.plan.groupBy.contains "title" &&
            (planned.plan.aggregates.map AggregateItem.column).contains "title") = true := by
    decide +kernel
  simp only [Option.any_eq_true, Outcome.toOption_eq_some_iff, Bool.and_eq_true,
    List.contains_iff_mem] at hmade
  obtain ⟨r, hread, planned, hplan, hgrouped, haggregated⟩ := hmade
  exact ⟨rfl, r, planned, hread, hplan, hgrouped, haggregated⟩

end Planner

end EntityQuery
