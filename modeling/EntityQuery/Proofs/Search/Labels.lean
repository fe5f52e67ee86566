import EntityQuery.Proofs.Search.Grouped

/-!
# Labels that do not clash

What a plan shows has labels, and no two of them are the same.  A request asks for labels: one for
each selected scalar field, one for each scalar field of the target of a selected association, the
path itself where it groups by a path that is not selected, and the call of each function.  If these
are distinct and no path is grouped by twice, then planning the request never fails because of a
label.

A group is labelled by the first selection of its path, not by the one that it stems from.  So a
path that is grouped by twice gets one label twice, whatever labels were asked for, and no such
request can be planned.  Where the grouping is left to the selected fields this happens as soon as a
field is selected twice.

## Strategy

Groups and calls are made one after the other, and each label is compared with those before it
(`unclashed_labelled`).  The label of a group is one that was asked for its path
(`mem_columnLabels_of_groupColumn`), so distinct labels tell the paths apart.  No other step of the
planner looks at labels.

## Main definitions

* `Unclashed` : a computation does not fail because of a label that comes twice
* `Request.labels` : the labels that a request asks for

## Main statements

* `Planner.labels_of_select` : the labels of selected columns
* `Planner.nodup_of_labelled` : items that have been made have labels of their own
* `Planner.labels_of_plan` : when no labels clash
-/

namespace EntityQuery

variable {c : Catalog} {root marker : String}

/-- The computation does not fail because of a label that comes twice. -/
abbrev Unclashed {α : Type} (x : Except SearchFault α) : Prop :=
  Outcome.Avoids SearchFault.duplicateAlias x

/-! ## Looking up fields -/

namespace Catalog

theorem unclashed_entity (name : String) : Unclashed (c.entity name) := by
  unfold entity
  split
  · exact .of_ok rfl
  · exact .of_error (by simp)

theorem unclashed_idAttribute (name : String) : Unclashed (c.idAttribute name) := by
  refine (unclashed_entity name).bind fun e _ => ?_
  split
  · exact .of_ok rfl
  · exact .of_error (by simp)

theorem unclashed_parameterType (entity parameter : String) :
    Unclashed (c.parameterType entity parameter) := by
  unfold parameterType
  split
  · exact .of_ok rfl
  · exact .of_error (by simp)

theorem unclashed_idType (name : String) : Unclashed (c.idType name) := by
  refine (unclashed_idAttribute name).bind fun id _ => ?_
  split
  · exact .of_ok rfl
  · exact unclashed_parameterType name _
  · exact .of_error (by simp)

theorem unclashed_kindOf (entity : String) (a : Attribute) (overridden : Bool) :
    Unclashed (c.kindOf entity a overridden) := by
  unfold kindOf
  split
  · exact .of_ok rfl
  · refine (unclashed_parameterType entity _).bind fun type _ => ?_
    exact .of_ok rfl
  · split
    · refine (unclashed_idType _).bind fun type _ => ?_
      exact .of_ok rfl
    · exact .of_ok rfl

theorem unclashed_field (source : String) (path : Path) : Unclashed (c.field source path) := by
  unfold field
  split
  · exact .of_error (by simp)
  · split
    · exact .of_error (by simp)
    · refine (unclashed_kindOf _ _ _).bind fun kind _ => ?_
      exact .of_ok rfl

/-! ## Scalar fields of an association -/

/-- The names of the scalar fields of an entity: the attribute that is found is stored as a value of
its own. -/
def scalarNames (c : Catalog) (entity : String) : List String :=
  ((c.visible entity).map Attribute.name).filter fun name =>
    (c.attribute? entity name).any (c.isOwn entity)

/-- What stands below an association is an attribute of its target. -/
theorem owner_of_child {path : Path} {f : Field} (hf : c.field root path = .ok f) {target : String}
    {cardinality : Cardinality} (hkind : f.kind = .association target cardinality) {name : String}
    {g : Field} (hg : c.field root (path.child name) = .ok g) :
    g.owner = target := by
  obtain ⟨joins, owner, a, kind, hfollow, ha, hakind, rfl⟩ := field_eq_ok_iff.mp hf
  obtain ⟨_, last, _, _, hchild, -, -, rfl⟩ := field_eq_ok_iff.mp hg
  have hsteps : (path.child name).steps = path.steps ++ [path.field] := rfl
  rw [hsteps, follow_append, hfollow, Option.bind_some] at hchild
  obtain ⟨⟨_, _⟩, hlast, heq⟩ := Option.map_eq_some_iff.mp hchild
  obtain ⟨-, rfl⟩ := Prod.mk.inj heq
  obtain ⟨b, _, hb, htype, hoverride, -⟩ := follow_singleton_eq_some_iff.mp hlast
  obtain rfl : a = b := Option.some.inj (ha.symm.trans hb)
  rw [kindOf, htype, hoverride] at hakind
  exact (FieldKind.association.inj ((Except.ok.inj hakind).trans hkind)).1

/-- The scalar fields below an association are those of its target. -/
theorem names_of_scalarFields {path : Path} {f : Field} (hf : c.field root path = .ok f)
    {target : String} {cardinality : Cardinality} (hkind : f.kind = .association target cardinality)
    {fields : List Field} (hfields : c.scalarFields root (some path) = .ok fields) :
    fields.map Field.name = c.scalarNames target := by
  obtain ⟨found, hfound, hfields⟩ := Outcome.bind_eq_ok_iff.mp hfields
  obtain rfl : found = target := by
    rw [targetOf, hf, Outcome.ok_bind, hkind] at hfound
    exact (Except.ok.inj hfound).symm
  obtain ⟨all, hall, hfields⟩ := Outcome.bind_eq_ok_iff.mp hfields
  obtain rfl := Except.ok.inj hfields
  have hname (a : Attribute) {g : Field}
      (hg : c.field root (Path.below (some path) a.name) = .ok g) :
      g.name = a.name := by
    rw [Field.name, path_of_field hg]
    rfl
  have hscalar (a : Attribute) {g : Field}
      (hg : c.field root (Path.below (some path) a.name) = .ok g) :
      (!g.isComplex) = (c.attribute? found a.name).any (c.isOwn found) := by
    have howner : g.owner = found := owner_of_child hf hkind hg
    obtain ⟨_, _, b, _, -, hb, -, heq⟩ := field_eq_ok_iff.mp hg
    have hattribute : c.attribute? g.owner a.name = some b := by rw [heq]; exact hb
    rw [isComplex_of_field hg hattribute, Bool.not_not, ← howner, hattribute, Option.any_some]
  rw [scalarNames, List.filter_map]
  exact Outcome.map_of_mapM (fun a _ {g} hg => hname a hg)
    (Outcome.mapM_filter (fun a _ {g} hg => hscalar a hg) hall)

end Catalog

/-! ## Labels of a request -/

/-- The labels that a selection asks for, behind the paths that they stand for: one for a scalar
field, one for each scalar field of the target for an association. -/
def Selection.labels (c : Catalog) (root marker : String) (s : Selection) :
    List (String × String) :=
  let path := Spelling.plain marker s.path
  let label := s.label.getD path
  match (Planner.resolve c root marker path).map Field.kind with
  | .ok (.association target _) =>
    (c.scalarNames target).map fun name => (path ++ "." ++ name, label ++ "." ++ name)
  | _ => [(path, label)]

namespace Request

variable (c root marker) (r : Request)

/-- The labels of the selections. -/
def selectedLabels : List (String × String) := r.selections.flatMap (Selection.labels c root marker)

/-- The paths to group by that are not selected, neither themselves nor with the association that
they continue. -/
def unselected : List String :=
  r.grouped.filter fun path =>
    path ∉ r.selections.map (fun s => Spelling.plain marker s.path) ∧
      path ∉ (r.selectedLabels c root marker).map Prod.fst

/-- The labels of what is not called; a path that is not selected is its own label. -/
def columnLabels : List (String × String) :=
  r.selectedLabels c root marker ++ (r.unselected c root marker).map fun path => (path, path)

/-- The labels of the calls. -/
def callLabels : List String := r.calls.map fun call => call.1.name ++ "(" ++ call.2 ++ ")"

/-- All labels that a request asks for. -/
def labels : List String := (r.columnLabels c root marker).map Prod.snd ++ r.callLabels

end Request

namespace Planner

/-! ## Items with labels -/

section

variable {α β : Type} {make : α → Except SearchFault β} {label : β → String} {items : List α}
  {seen : List String}

/-- Items do not clash if their labels are distinct and new. -/
theorem unclashed_labelled (hmake : ∀ a, Unclashed (make a))
    (hapart : items.Pairwise fun a a' => ∀ b b',
      make a = .ok b → make a' = .ok b' → label b ≠ label b')
    (hnew : ∀ a ∈ items, ∀ b, make a = .ok b → label b ∉ seen) :
    Unclashed (labelled make label items seen) := by
  induction items generalizing seen with
  | nil => exact .of_ok rfl
  | cons a items ih =>
      rw [List.pairwise_cons] at hapart
      rw [List.forall_mem_cons] at hnew
      rw [labelled]
      refine (hmake a).bind fun b hb => ?_
      rw [if_neg (by simpa using hnew.1 b hb)]
      refine (ih hapart.2 fun a' ha' b' hb' => ?_).bind fun rest _ => .of_ok rfl
      rw [List.mem_cons, not_or]
      exact ⟨(hapart.1 a' ha' b b' hb hb').symm, hnew.2 a' ha' b' hb'⟩

/-- Items that have been made have labels of their own, none of which was there before. -/
theorem nodup_of_labelled {made : List β} (hmade : labelled make label items seen = .ok made) :
    (made.map label).Nodup ∧ ∀ b ∈ made, label b ∉ seen := by
  induction items generalizing seen made with
  | nil =>
      obtain rfl := Except.ok.inj hmade
      simp
  | cons a items ih =>
      rw [labelled] at hmade
      obtain ⟨b, -, hmade⟩ := Outcome.bind_eq_ok_iff.mp hmade
      split at hmade
      · simp at hmade
      · next hnew =>
        obtain ⟨rest, hrest, hmade⟩ := Outcome.bind_eq_ok_iff.mp hmade
        obtain rfl := Except.ok.inj hmade
        obtain ⟨hnodup, hapart⟩ := ih hrest
        rw [List.map_cons, List.nodup_cons, List.forall_mem_cons]
        refine ⟨⟨fun hmem => ?_, hnodup⟩, by simpa using hnew, fun b' hb' hseen => ?_⟩
        · obtain ⟨b', hb', heq⟩ := List.mem_map.mp hmem
          exact hapart b' hb' (heq ▸ List.mem_cons_self)
        · exact hapart b' hb' (List.mem_cons_of_mem _ hseen)

end

/-! ## Labels of columns and groups -/

theorem labels_of_scalar {s : Selection} {f : Field}
    (hf : resolve c root marker (Spelling.plain marker s.path) = .ok f)
    (hscalar : f.isComplex = false) :
    s.labels c root marker =
      [(Spelling.plain marker s.path, s.label.getD (Spelling.plain marker s.path))] := by
  unfold Selection.labels
  dsimp only
  rw [hf]
  cases hkind : f.kind with
  | scalar type => simp only [Except.map, hkind]
  | association target cardinality => simp [Field.isComplex, Field.type?, hkind] at hscalar

/-- A selected association has a label for each scalar field of its target. -/
theorem labels_of_association {s : Selection} {f : Field}
    (hf : resolve c root marker (Spelling.plain marker s.path) = .ok f)
    (hcomplex : f.isComplex = true) {fields : List Field}
    (hfields : c.scalarFields root (some f.path) = .ok fields) :
    s.labels c root marker = fields.map fun g =>
      (Spelling.plain marker s.path ++ "." ++ g.name,
        s.label.getD (Spelling.plain marker s.path) ++ "." ++ g.name) := by
  unfold Selection.labels
  dsimp only
  rw [hf]
  cases hkind : f.kind with
  | scalar type => simp [Field.isComplex, Field.type?, hkind] at hcomplex
  | association target cardinality =>
      simp only [Except.map, hkind]
      rw [← Catalog.names_of_scalarFields (field_of_resolve hf) hkind hfields, List.map_map]
      rfl

theorem labels_of_columnsOf {s : Selection} {columns : List Selected}
    (hcolumns : columnsOf c root marker s = .ok columns) :
    columns.map (fun column => (column.path, column.label)) = s.labels c root marker := by
  obtain ⟨f, hf, hcolumns⟩ := Outcome.bind_eq_ok_iff.mp hcolumns
  dsimp only at hcolumns
  split at hcolumns
  · next hcomplex =>
    obtain ⟨fields, hfields, hcolumns⟩ := Outcome.bind_eq_ok_iff.mp hcolumns
    obtain rfl := Except.ok.inj hcolumns
    rw [labels_of_association hf hcomplex hfields, List.map_map]
    rfl
  · next hscalar =>
    obtain rfl := Except.ok.inj hcolumns
    rw [labels_of_scalar hf (by simpa using hscalar)]
    rfl

/-- The labels of selected columns are those that the selections ask for. -/
theorem labels_of_select {r : Request} {columns : List Selected}
    (hcolumns : select c root marker r.selections = .ok columns) :
    columns.map (fun column => (column.path, column.label)) = r.selectedLabels c root marker := by
  obtain ⟨lists, hlists, hcolumns⟩ := Outcome.bind_eq_ok_iff.mp hcolumns
  obtain rfl := Except.ok.inj hcolumns
  rw [List.map_flatten, Outcome.map_of_mapM (fun s _ {_} hs => labels_of_columnsOf hs) hlists]
  rfl

theorem lookup_map_columns (columns : List Selected) (path : String) :
    (columns.map fun column => (column.path, column.label)).lookup path =
      (columns.find? (·.path = path)).map Selected.label := by
  induction columns with
  | nil => rfl
  | cons column columns ih =>
      by_cases h : column.path = path
      · simp [h]
      · have h' : (path == column.path) = false := by simpa using fun e => h e.symm
        simpa [List.lookup_cons, h, h'] using ih

theorem label_of_groupColumn {columns : List Selected} {path : String}
    {group : Projected × List JoinStep}
    (hgroup : groupColumn c root marker columns path = .ok group) :
    group.1.label =
      ((columns.map fun column => (column.path, column.label)).lookup path).getD path := by
  obtain ⟨f, -, hgroup⟩ := Outcome.bind_eq_ok_iff.mp hgroup
  obtain rfl := Except.ok.inj hgroup
  rw [lookup_map_columns]

/-- The label of a group is one that is asked for its path. -/
theorem mem_columnLabels_of_groupColumn {r : Request} {columns : List Selected}
    (hcolumns : select c root marker r.selections = .ok columns) {path : String}
    (hpath : path ∈ r.grouped) {group : Projected × List JoinStep}
    (hgroup : groupColumn c root marker columns path = .ok group) :
    (path, group.1.label) ∈ r.columnLabels c root marker := by
  rw [label_of_groupColumn hgroup, labels_of_select hcolumns, Request.columnLabels, List.mem_append]
  obtain ⟨f, hf, -⟩ := Outcome.bind_eq_ok_iff.mp hgroup
  cases hlookup : (r.selectedLabels c root marker).lookup path with
  | some label => exact .inl (Keyed.mem_of_lookup hlookup)
  | none =>
      have habsent : path ∉ (r.selectedLabels c root marker).map Prod.fst := by
        intro hmem
        obtain ⟨pair, hpair, rfl⟩ := List.mem_map.mp hmem
        simpa using List.lookup_eq_none_iff.mp hlookup pair hpair
      -- a selected path of a scalar field would have a label
      have hunselected : path ∉ r.selections.map fun s => Spelling.plain marker s.path := by
        intro hmem
        obtain ⟨s, hs, rfl⟩ := List.mem_map.mp hmem
        obtain ⟨hf, hscalar⟩ := resolveScalar_eq_ok hf
        have hlabel : (Spelling.plain marker s.path, s.label.getD (Spelling.plain marker s.path)) ∈
            r.selectedLabels c root marker := by
          refine List.mem_flatMap.mpr ⟨s, hs, ?_⟩
          rw [labels_of_scalar hf hscalar]
          exact List.mem_singleton_self _
        exact habsent (List.mem_map_of_mem hlabel)
      exact .inr (List.mem_map.mpr
        ⟨path, List.mem_filter.mpr ⟨hpath, decide_eq_true ⟨hunselected, habsent⟩⟩, rfl⟩)

theorem label_of_aggregateItem {call : AggregateFn × String} {item : AggregateItem × List JoinStep}
    (hitem : aggregateItem c root marker call.1 call.2 = .ok item) :
    item.1.label = call.1.name ++ "(" ++ call.2 ++ ")" := by
  obtain ⟨f, -, hitem⟩ := Outcome.bind_eq_ok_iff.mp hitem
  split at hitem
  · simp at hitem
  · obtain rfl := Except.ok.inj hitem
    rfl

/-! ## Labels of a plan -/

theorem foreign_duplicateAlias : Foreign SearchFault.duplicateAlias := ⟨by simp, by simp, by simp⟩

theorem unclashed_groupColumn (columns : List Selected) (path : String) :
    Unclashed (groupColumn c root marker columns path) :=
  foreign_duplicateAlias.groupColumn (Catalog.unclashed_entity root)
    (Catalog.unclashed_field root) columns path

theorem unclashed_aggregateItem (call : AggregateFn × String) :
    Unclashed (aggregateItem c root marker call.1 call.2) :=
  foreign_duplicateAlias.aggregateItem (Catalog.unclashed_entity root)
    (Catalog.unclashed_field root) call.1 call.2

/-- Groups and calls do not clash if the labels that are asked for are distinct and no path is
grouped by twice. -/
theorem unclashed_showAggregates {r : Request} {columns : List Selected}
    (hcolumns : select c root marker r.selections = .ok columns) {a : Aggregates}
    (ha : r.aggregates = some a) (hlabels : (r.labels c root marker).Nodup)
    (hgrouped : r.grouped.Nodup) : Unclashed (showAggregates c root marker columns a) := by
  have hgroupBy : a.groupBy.getD [] = r.grouped := by rw [Request.grouped, ha]; rfl
  have hcalls : a.calls = r.calls := by rw [Request.calls, ha]; rfl
  obtain ⟨hcolumnLabels, hcallLabels, hbetween⟩ := List.nodup_append.mp hlabels
  unfold showAggregates
  rw [hgroupBy, hcalls]
  refine Outcome.Avoids.bind (unclashed_labelled (unclashed_groupColumn columns) ?_ (by simp))
    fun groups hgroups => ?_
  · -- two paths with one label would be one path
    refine hgrouped.imp_of_mem ?_
    intro path path' hpath hpath' hne group group' hgroup hgroup' heq
    refine hne ?_
    have hmem := mem_columnLabels_of_groupColumn hcolumns hpath hgroup
    have hmem' := mem_columnLabels_of_groupColumn hcolumns hpath' hgroup'
    exact (Prod.mk.inj (List.inj_on_of_nodup_map hcolumnLabels hmem hmem' heq)).1
  · refine Outcome.Avoids.bind (unclashed_labelled unclashed_aggregateItem ?_ ?_) fun items _ =>
      .of_ok rfl
    · refine (List.pairwise_map.mp hcallLabels).imp ?_
      intro call call' hne item item' hitem hitem'
      rwa [label_of_aggregateItem hitem, label_of_aggregateItem hitem']
    · intro call hcall item hitem hseen
      obtain ⟨group, hgroup, heq⟩ := List.mem_map.mp hseen
      obtain ⟨path, hpath, hmade⟩ := exists_of_mem_labelled hgroups hgroup
      have hmem :=
        List.mem_map_of_mem (f := Prod.snd) (mem_columnLabels_of_groupColumn hcolumns hpath hmade)
      refine hbetween _ hmem _ (List.mem_map_of_mem hcall) ?_
      rw [← label_of_aggregateItem hitem]
      exact heq

theorem unclashed_showRows {r : Request} {columns : List Selected}
    (hcolumns : select c root marker r.selections = .ok columns)
    (hlabels : (r.labels c root marker).Nodup) : Unclashed (showRows columns) := by
  have hnodup : (columns.map Selected.label).Nodup := by
    have heq : columns.map Selected.label = (r.selectedLabels c root marker).map Prod.snd := by
      rw [← labels_of_select hcolumns, List.map_map]
      rfl
    rw [Request.labels, Request.columnLabels, List.map_append, List.append_assoc] at hlabels
    rw [heq]
    exact hlabels.of_append_left
  rw [showRows, checkLabels, (Keyed.repeated?_eq_none_iff _).mpr hnodup]
  exact .of_ok rfl

theorem unclashed_shown {r : Request} (hlabels : (r.labels c root marker).Nodup)
    (hgrouped : r.grouped.Nodup) : Unclashed (shown c root marker r) := by
  have hentity : Unclashed (c.entity root) := Catalog.unclashed_entity root
  have hfield (path : Path) : Unclashed (c.field root path) := Catalog.unclashed_field root path
  unfold shown
  split
  · have hshown :=
      foreign_duplicateAlias.showEntity hentity hfield (Catalog.unclashed_idAttribute root)
    exact hshown.bind fun shown _ => .of_ok rfl
  · have hselect : Unclashed (select c root marker r.selections) :=
      foreign_duplicateAlias.select hentity hfield r.selections
    refine hselect.bind fun columns hcolumns => ?_
    split
    · next a ha =>
      exact (unclashed_showAggregates hcolumns ha hlabels hgrouped).bind fun shown _ => .of_ok rfl
    · exact (unclashed_showRows hcolumns hlabels).bind fun shown _ => .of_ok rfl

theorem unclashed_join (step : JoinStep) : Unclashed (join c step) := by
  unfold join
  dsimp only
  split
  · refine (Catalog.unclashed_idAttribute _).bind fun id _ => ?_
    exact (Catalog.unclashed_entity _).bind fun target _ => .of_ok rfl
  · refine (Catalog.unclashed_idAttribute _).bind fun id _ => ?_
    refine (Catalog.unclashed_field _ _).bind fun back _ => ?_
    exact (Catalog.unclashed_entity _).bind fun target _ => .of_ok rfl

/-- Planning does not fail because of a label if the labels that are asked for are distinct and no
path is grouped by twice. -/
theorem unclashed_plan (hooks : FieldHooks) {r : Request} (window : Option Window)
    (hlabels : (r.labels c root marker).Nodup) (hgrouped : r.grouped.Nodup) :
    Unclashed (plan c root marker hooks r window) := by
  refine (Catalog.unclashed_entity root).bind fun e _ => ?_
  refine (Catalog.unclashed_idAttribute root).bind fun id _ => ?_
  refine (foreign_duplicateAlias.predicate hooks r).bind fun compiled _ => ?_
  refine (unclashed_shown hlabels hgrouped).bind fun shown _ => ?_
  refine (Outcome.Avoids.mapM fun step _ => unclashed_join step).bind fun joins _ => ?_
  exact .of_ok rfl

/-- Rows of a plan have distinct labels, and no path is grouped by twice. -/
theorem nodup_of_shown {r : Request} {shown : Shown} {shape : ResultShape}
    (hshown : Planner.shown c root marker r = .ok (shown, shape)) :
    r.grouped.Nodup ∧ (shape = .rows → (shown.projection.map Projected.label).Nodup) := by
  rcases shown_eq_ok hshown with ⟨rfl, ⟨-, hnone⟩, -⟩
    | ⟨-, columns, -, ⟨a, ha, hshown⟩ | ⟨hnone, hshown⟩⟩
  · exact ⟨by simp [Request.grouped, hnone], by simp⟩
  · obtain ⟨groups, hgroups, hshown⟩ := Outcome.bind_eq_ok_iff.mp hshown
    obtain ⟨items, hitems, hshown⟩ := Outcome.bind_eq_ok_iff.mp hshown
    obtain rfl := Except.ok.inj hshown
    obtain ⟨hgroupLabels, -⟩ := nodup_of_labelled hgroups
    obtain ⟨hitemLabels, hbetween⟩ := nodup_of_labelled hitems
    constructor
    · have hgrouped : a.groupBy.getD [] = r.grouped := by rw [Request.grouped, ha]; rfl
      rw [Outcome.map_of_mapM (fun path _ {_} h => label_of_groupColumn h)
        (mapM_of_labelled hgroups), hgrouped] at hgroupLabels
      exact hgroupLabels.of_map
    · intro _
      rw [List.map_append, List.map_map, List.map_map, List.nodup_append]
      refine ⟨hgroupLabels, hitemLabels, fun label hlabel label' hlabel' heq => ?_⟩
      obtain ⟨item, hitem, rfl⟩ := List.mem_map.mp hlabel'
      subst heq
      exact hbetween item hitem hlabel
  · obtain ⟨⟨⟩, hcheck, hshown⟩ := Outcome.bind_eq_ok_iff.mp hshown
    obtain rfl := Except.ok.inj hshown
    refine ⟨by simp [Request.grouped, hnone], fun _ => ?_⟩
    unfold checkLabels at hcheck
    split at hcheck
    · simp at hcheck
    · next hnodup =>
      rw [List.map_map]
      exact (Keyed.repeated?_eq_none_iff _).mp hnodup

/-- Distinct labels do not clash unless a path is grouped by twice, which no plan does; the rows of
a plan have distinct labels. -/
theorem labels_of_plan (c : Catalog) (root marker : String) (hooks : FieldHooks) (r : Request)
    (window : Option Window) :
    ((r.labels c root marker).Nodup → r.grouped.Nodup →
        ∀ label, plan c root marker hooks r window ≠ .error (.duplicateAlias label)) ∧
      ∀ planned, plan c root marker hooks r window = .ok planned →
        r.grouped.Nodup ∧
        (planned.shape = .rows → (planned.plan.projection.map Projected.label).Nodup) := by
  refine ⟨fun hlabels hgrouped => unclashed_plan hooks window hlabels hgrouped,
    fun planned hplan => ?_⟩
  obtain ⟨e, id, compiled, shown, shape, joins, -, -, -, hshown, -, rfl⟩ := plan_eq_ok hplan
  exact nodup_of_shown hshown

/-- Titles and names of authors, each counted under a label of its own. -/
theorem labels_of_plan_shelf :
    ∃ r planned, WireRequest.read Shelf.catalog "Book" "data"
        { WireRequest.empty with
          fields := [⟨"title", some "t", none, .asc⟩, ⟨"author.name", some "n", none, .asc⟩]
          aggregates := some { Aggregates.empty with count := ["id"] } } = .ok r ∧
      r.labels Shelf.catalog "Book" "data" = ["t", "n", "count(id)"] ∧
      r.grouped = ["title", "author.name"] ∧
      (∀ label, plan Shelf.catalog "Book" "data" .none r none ≠ .error (.duplicateAlias label)) ∧
      plan Shelf.catalog "Book" "data" .none r none = .ok planned ∧
      (planned.plan.projection.map Projected.label).Nodup := by
  have hmade : ((WireRequest.read Shelf.catalog "Book" "data"
      { WireRequest.empty with
        fields := [⟨"title", some "t", none, .asc⟩, ⟨"author.name", some "n", none, .asc⟩]
        aggregates := some { Aggregates.empty with count := ["id"] } }).toOption.any fun r =>
        decide (r.labels Shelf.catalog "Book" "data" = ["t", "n", "count(id)"]) &&
          decide (r.grouped = ["title", "author.name"]) &&
          (plan Shelf.catalog "Book" "data" .none r none).toOption.any fun planned =>
            decide (planned.shape = .rows)) = true := by
    decide +kernel
  simp only [Option.any_eq_true, Outcome.toOption_eq_some_iff, Bool.and_eq_true,
    decide_eq_true_eq] at hmade
  obtain ⟨r, hread, ⟨hlabels, hgrouped⟩, planned, hplan, hshape⟩ := hmade
  obtain ⟨hclash, hnodup⟩ := labels_of_plan Shelf.catalog "Book" "data" .none r none
  exact ⟨r, planned, hread, hlabels, hgrouped,
    hclash (by rw [hlabels]; decide) (by rw [hgrouped]; decide), hplan,
    (hnodup planned hplan).2 hshape⟩

/-- A title that is selected twice, under two labels, is grouped by twice under the first of
them. -/
theorem plan_grouped_twice :
    Catalog.of Shelf.catalog.entities none = .ok Shelf.catalog ∧
      ∃ r, WireRequest.read Shelf.catalog "Book" "data"
          { WireRequest.empty with
            fields := [⟨"title", some "x", none, .asc⟩, ⟨"title", some "y", none, .asc⟩]
            aggregates := some { Aggregates.empty with count := ["id"] } } = .ok r ∧
        r.labels Shelf.catalog "Book" "data" = ["x", "y", "count(id)"] ∧
        plan Shelf.catalog "Book" "data" .none r none = .error (.duplicateAlias "x") := by
  have hmade : ((WireRequest.read Shelf.catalog "Book" "data"
      { WireRequest.empty with
        fields := [⟨"title", some "x", none, .asc⟩, ⟨"title", some "y", none, .asc⟩]
        aggregates := some { Aggregates.empty with count := ["id"] } }).toOption.any fun r =>
        decide (r.labels Shelf.catalog "Book" "data" = ["x", "y", "count(id)"]) &&
          match plan Shelf.catalog "Book" "data" .none r none with
          | .error (.duplicateAlias label) => decide (label = "x")
          | _ => false) = true := by
    decide +kernel
  simp only [Option.any_eq_true, Outcome.toOption_eq_some_iff, Bool.and_eq_true,
    decide_eq_true_eq] at hmade
  obtain ⟨r, hread, hlabels, hclash⟩ := hmade
  refine ⟨rfl, r, hread, hlabels, ?_⟩
  split at hclash
  · next label hplan =>
    obtain rfl := of_decide_eq_true hclash
    exact hplan
  · simp at hclash

end Planner

end EntityQuery
