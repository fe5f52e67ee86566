import EntityQuery.Proofs.Store.Columns
import EntityQuery.Search.Planner

/-!
# What a plan shows

Whatever a plan shows stems from fields that paths lead to: its columns are columns of scalar
fields, functions that add are applied to numbers, its joins are those of the fields, and it is
ordered by what is shown.

A plan is put together from lists that are made item by item, and every item brings its field with
it.  The fields of such a list are collected once and for all by `exists_fields`; the rest follows
the cases of the planner.

## Main definitions

* `Field.Shows` : a column of a scalar field that the catalog knows
* `Planner.Shown.Rests` : what is shown rests on some fields

## Main statements

* `shown_eq_ok` : whole entities, groups or selected columns are shown
* `exists_rests` : what a plan shows rests on fields
-/

namespace EntityQuery

variable {c : Catalog} {root marker : String}

/-- The field is one that the catalog knows, it is a scalar, and the column is its own. -/
structure Field.Shows (c : Catalog) (root : String) (f : Field) (column : String) : Prop where
  field : c.field root f.path = .ok f
  scalar : f.isComplex = false
  column : f.columnPath = column

namespace Planner

/-- What is shown rests on some fields. -/
structure Shown.Rests (c : Catalog) (root : String) (shown : Shown)
    (fields : List Field) : Prop where
  resolved : ∀ f ∈ fields, c.field root f.path = .ok f
  joins : shown.joins = fields.flatMap Field.joins
  groupBy : ∀ column ∈ shown.groupBy, ∃ f ∈ fields, f.Shows c root column
  aggregates : ∀ item ∈ shown.aggregates, ∃ f ∈ fields, f.Shows c root item.column ∧
    (item.fn.needsNumbers = true → f.type?.any ScalarType.isNumeric = true)
  /-- Without groups and aggregates columns of fields are shown, otherwise groups and aggregates. -/
  projection : ∀ p ∈ shown.projection,
    (shown.groupBy = [] ∧ shown.aggregates = [] ∧ ∃ f ∈ fields, f.Shows c root p.column) ∨
      p.column ∈ shown.groupBy ∨ p.column ∈ shown.aggregates.map AggregateItem.label
  orderBy : ∀ item ∈ shown.orderBy, item.label ∈ shown.projection.map Projected.label

/-! ## Fields of lists -/

/-- The fields that the items of a list bring with them. -/
theorem exists_fields {α : Type} {joins : α → List JoinStep} {P : α → Field → Prop} {items : List α}
    (hitems : ∀ x ∈ items, ∃ f, c.field root f.path = .ok f ∧ joins x = f.joins ∧ P x f) :
    ∃ fields : List Field, (∀ f ∈ fields, c.field root f.path = .ok f) ∧
      items.flatMap joins = fields.flatMap Field.joins ∧ ∀ x ∈ items, ∃ f ∈ fields, P x f := by
  induction items with
  | nil => exact ⟨[], by simp⟩
  | cons x items ih =>
      rw [List.forall_mem_cons] at hitems
      obtain ⟨f, hf, hjoins, hx⟩ := hitems.1
      obtain ⟨fields, hfields, hrest, hitems⟩ := ih hitems.2
      refine ⟨f :: fields, ?_, ?_, ?_⟩
      · exact List.forall_mem_cons.mpr ⟨hf, hfields⟩
      · rw [List.flatMap_cons, List.flatMap_cons, hjoins, hrest]
      · rw [List.forall_mem_cons]
        refine ⟨⟨f, List.mem_cons_self .., hx⟩, fun y hy => ?_⟩
        obtain ⟨g, hg, hy⟩ := hitems y hy
        exact ⟨g, List.mem_cons_of_mem _ hg, hy⟩

/-- Items that are made one after the other are those that are made of the given ones. -/
theorem mapM_of_labelled {α β : Type} {make : α → Except SearchFault β} {label : β → String}
    {items : List α} {seen : List String} {made : List β}
    (hmade : labelled make label items seen = .ok made) : items.mapM make = .ok made := by
  induction items generalizing seen made with
  | nil => exact hmade
  | cons a items ih =>
      rw [labelled] at hmade
      obtain ⟨first, hfirst, hmade⟩ := Outcome.bind_eq_ok_iff.mp hmade
      split at hmade
      · simp at hmade
      · obtain ⟨rest, hrest, hmade⟩ := Outcome.bind_eq_ok_iff.mp hmade
        rw [List.mapM_cons, hfirst, Outcome.ok_bind, ih hrest, ← hmade]
        rfl

theorem exists_of_mem_labelled {α β : Type} {make : α → Except SearchFault β} {label : β → String}
    {items : List α} {seen : List String} {made : List β}
    (hmade : labelled make label items seen = .ok made) {b : β} (hb : b ∈ made) :
    ∃ a ∈ items, make a = .ok b :=
  Outcome.exists_of_mem_mapM (mapM_of_labelled hmade) hb

/-! ## Fields of paths -/

theorem field_of_resolve {text : String} {f : Field} (hf : resolve c root marker text = .ok f) :
    c.field root f.path = .ok f := by
  unfold resolve at hf
  split at hf
  · simp at hf
  · obtain ⟨e, -, hf⟩ := Outcome.bind_eq_ok_iff.mp hf
    rwa [Catalog.path_of_field hf]

theorem resolveScalar_eq_ok {fault : TypeFault} {text : String} {f : Field}
    (hf : resolveScalar c root marker fault text = .ok f) :
    resolve c root marker text = .ok f ∧ f.isComplex = false := by
  obtain ⟨g, hg, hf⟩ := Outcome.bind_eq_ok_iff.mp hf
  split at hf
  · simp at hf
  · next hscalar =>
    obtain rfl := Except.ok.inj hf
    exact ⟨hg, by simpa using hscalar⟩

theorem shows_of_resolveScalar {fault : TypeFault} {text : String} {f : Field}
    (hf : resolveScalar c root marker fault text = .ok f) : f.Shows c root f.columnPath := by
  obtain ⟨hf, hscalar⟩ := resolveScalar_eq_ok hf
  exact ⟨field_of_resolve hf, hscalar, rfl⟩

theorem shows_of_scalarFields {path : Option Path} {fields : List Field}
    (hfields : c.scalarFields root path = .ok fields) {f : Field} (hf : f ∈ fields) :
    f.Shows c root f.columnPath ∧ ∃ a : Attribute, f.path = Path.below path a.name := by
  obtain ⟨target, -, hfields⟩ := Outcome.bind_eq_ok_iff.mp hfields
  obtain ⟨all, hall, hfields⟩ := Outcome.bind_eq_ok_iff.mp hfields
  obtain rfl := Except.ok.inj hfields
  obtain ⟨hmem, hscalar⟩ := List.mem_filter.mp hf
  obtain ⟨a, -, ha⟩ := Outcome.exists_of_mem_mapM hall hmem
  have hpath := Catalog.path_of_field ha
  exact ⟨⟨hpath ▸ ha, by simpa using hscalar, rfl⟩, a, hpath⟩

/-! ## Columns, groups and aggregates -/

/-- Every selected column is the column of a scalar field. -/
theorem exists_of_select {selections : List Selection} {columns : List Selected}
    (hcolumns : select c root marker selections = .ok columns) {s : Selected} (hs : s ∈ columns) :
    ∃ f, c.field root f.path = .ok f ∧ s.joins = f.joins ∧ f.Shows c root s.column := by
  obtain ⟨lists, hlists, hcolumns⟩ := Outcome.bind_eq_ok_iff.mp hcolumns
  obtain rfl := Except.ok.inj hcolumns
  obtain ⟨some, hsome, hs⟩ := List.mem_flatten.mp hs
  obtain ⟨selection, -, hcolumns⟩ := Outcome.exists_of_mem_mapM hlists hsome
  obtain ⟨f, hf, hcolumns⟩ := Outcome.bind_eq_ok_iff.mp hcolumns
  dsimp only at hcolumns
  split at hcolumns
  · obtain ⟨fields, hfields, hcolumns⟩ := Outcome.bind_eq_ok_iff.mp hcolumns
    obtain rfl := Except.ok.inj hcolumns
    obtain ⟨g, hg, rfl⟩ := List.mem_map.mp hs
    have hshows := (shows_of_scalarFields hfields hg).1
    exact ⟨g, hshows.field, rfl, hshows⟩
  · next hscalar =>
    obtain rfl := Except.ok.inj hcolumns
    rw [List.mem_singleton.mp hs]
    have hfield := field_of_resolve hf
    exact ⟨f, hfield, rfl, hfield, by simpa using hscalar, rfl⟩

theorem exists_of_groupColumn {columns : List Selected} {path : String}
    {group : Projected × List JoinStep}
    (hgroup : groupColumn c root marker columns path = .ok group) :
    ∃ f, c.field root f.path = .ok f ∧ group.2 = f.joins ∧ f.Shows c root group.1.column := by
  obtain ⟨f, hf, hgroup⟩ := Outcome.bind_eq_ok_iff.mp hgroup
  obtain rfl := Except.ok.inj hgroup
  have hshows := shows_of_resolveScalar hf
  exact ⟨f, hshows.field, rfl, hshows⟩

theorem exists_of_aggregateItem {fn : AggregateFn} {path : String}
    {item : AggregateItem × List JoinStep}
    (hitem : aggregateItem c root marker fn path = .ok item) :
    ∃ f, c.field root f.path = .ok f ∧ item.2 = f.joins ∧
      f.Shows c root item.1.column ∧
      (item.1.fn.needsNumbers = true → f.type?.any ScalarType.isNumeric = true) := by
  obtain ⟨f, hf, hitem⟩ := Outcome.bind_eq_ok_iff.mp hitem
  have hshows := shows_of_resolveScalar hf
  split at hitem
  · simp at hitem
  · next hnumbers =>
    obtain rfl := Except.ok.inj hitem
    refine ⟨f, hshows.field, rfl, hshows, fun hneeds => ?_⟩
    simpa [hneeds] using hnumbers

theorem mem_of_mem_ordering {columns : List Selected} {labels : List String} {item : OrderItem}
    (hitem : item ∈ ordering columns labels) : item.label ∈ labels := by
  obtain ⟨pair, hpair, rfl⟩ := List.mem_map.mp hitem
  rw [List.mem_mergeSort] at hpair
  obtain ⟨s, -, hs⟩ := List.mem_filterMap.mp hpair
  split at hs
  · split at hs
    · next hshown =>
      obtain rfl := Option.some.inj hs
      exact List.contains_iff_mem.mp hshown
    · simp at hs
  · simp at hs

/-! ## What is shown -/

theorem exists_rests_of_showRows {selections : List Selection} {columns : List Selected}
    (hcolumns : select c root marker selections = .ok columns) {shown : Shown}
    (hshown : showRows columns = .ok shown) : ∃ fields, shown.Rests c root fields := by
  obtain ⟨⟨⟩, -, hshown⟩ := Outcome.bind_eq_ok_iff.mp hshown
  obtain rfl := Except.ok.inj hshown
  obtain ⟨fields, hfields, hjoins, hthere⟩ := exists_fields fun s hs => exists_of_select hcolumns hs
  refine ⟨fields, ⟨hfields, hjoins, by simp, by simp, ?_, fun item hitem => ?_⟩⟩
  · intro p hp
    obtain ⟨s, hs, rfl⟩ := List.mem_map.mp hp
    exact .inl ⟨rfl, rfl, hthere s hs⟩
  · simpa using mem_of_mem_ordering hitem

theorem exists_rests_of_showAggregates {selections : List Selection} {columns : List Selected}
    (hcolumns : select c root marker selections = .ok columns) {a : Aggregates} {shown : Shown}
    (hshown : showAggregates c root marker columns a = .ok shown) :
    ∃ fields, shown.Rests c root fields := by
  obtain ⟨groups, hgroups, hshown⟩ := Outcome.bind_eq_ok_iff.mp hshown
  obtain ⟨items, hitems, hshown⟩ := Outcome.bind_eq_ok_iff.mp hshown
  obtain rfl := Except.ok.inj hshown
  obtain ⟨selected, hselected, hselectedJoins, -⟩ :=
    exists_fields fun s hs => exists_of_select hcolumns hs
  -- a group and an aggregate rest on one field each
  have hgroupFields : ∀ group ∈ groups,
      ∃ f, c.field root f.path = .ok f ∧ group.2 = f.joins ∧ f.Shows c root group.1.column := by
    intro group hgroup
    obtain ⟨path, -, hgroup⟩ := exists_of_mem_labelled hgroups hgroup
    exact exists_of_groupColumn hgroup
  have hitemFields : ∀ item ∈ items, ∃ f, c.field root f.path = .ok f ∧ item.2 = f.joins ∧
      f.Shows c root item.1.column ∧
        (item.1.fn.needsNumbers = true → f.type?.any ScalarType.isNumeric = true) := by
    intro item hitem
    obtain ⟨⟨fn, path⟩, -, hitem⟩ := exists_of_mem_labelled hitems hitem
    exact exists_of_aggregateItem hitem
  obtain ⟨grouped, hgrouped, hgroupedJoins, hgroup⟩ := exists_fields hgroupFields
  obtain ⟨called, hcalled, hcalledJoins, hitem⟩ := exists_fields hitemFields
  refine ⟨selected ++ grouped ++ called, ⟨?_, ?_, ?_, ?_, ?_, ?_⟩⟩
  · simp only [List.forall_mem_append]
    exact ⟨⟨hselected, hgrouped⟩, hcalled⟩
  · simp only [List.flatMap_append]
    rw [hselectedJoins, hgroupedJoins, hcalledJoins]
  · intro column hcolumn
    obtain ⟨group, hmem, rfl⟩ := List.mem_map.mp hcolumn
    obtain ⟨f, hf, hshows⟩ := hgroup group hmem
    exact ⟨f, by simp [hf], hshows⟩
  · intro call hcall
    obtain ⟨item, hmem, rfl⟩ := List.mem_map.mp hcall
    obtain ⟨f, hf, hshows⟩ := hitem item hmem
    exact ⟨f, by simp [hf], hshows⟩
  -- what is shown is a group or an aggregate
  · intro p hp
    rcases List.mem_append.mp hp with hp | hp
    · obtain ⟨group, hmem, rfl⟩ := List.mem_map.mp hp
      exact .inr (.inl (List.mem_map.mpr ⟨group, hmem, rfl⟩))
    · obtain ⟨item, hmem, rfl⟩ := List.mem_map.mp hp
      exact .inr (.inr (by simpa using ⟨item.1, ⟨item.2, hmem⟩, rfl⟩))
  · exact fun item hitem => mem_of_mem_ordering hitem

/-! ## Whole entities -/

/-- The associations with one target whose fields are shown with those of the root. -/
def nestedAttributes (c : Catalog) (root : String) : List Attribute :=
  (c.visible root).filter fun a =>
    match a.type with
    | .association _ (.toOne _) => (c.override? root a.name).isNone
    | _ => false

/-- The fields that are shown of whole entities: those of the root, and those of its associations
with one target. -/
def entityFields (c : Catalog) (root : String) : Except SearchFault (List Field) := do
  let own ← c.scalarFields root none
  let lists ← (nestedAttributes c root).mapM fun a =>
    c.scalarFields root (some (Path.single a.name))
  return own ++ lists.flatten

/-- The label of a field of a whole entity. -/
def entityLabel (rootPath : String) (f : Field) : String := rootPath ++ "." ++ f.path.text

theorem joins_of_single {name : String} {f : Field} (hf : c.field root (.single name) = .ok f) :
    f.joins = [] ∧ f.owner = root ∧ f.column = c.columnName root name := by
  obtain ⟨joins, owner, found, kind, hfollow, -, -, rfl⟩ := Catalog.field_eq_ok_iff.mp hf
  obtain ⟨rfl, rfl⟩ := Prod.mk.inj (Option.some.inj hfollow)
  exact ⟨rfl, rfl, rfl⟩

theorem mem_nestedAttributes (hplain : c.Plain) {a : Attribute} (ha : a ∈ nestedAttributes c root) :
    c.attribute? root a.name = some a ∧ c.override? root a.name = none ∧
      ∃ target joinColumn, a.type = .association target (.toOne joinColumn) := by
  obtain ⟨hvisible, ha⟩ := List.mem_filter.mp ha
  split at ha
  · next target joinColumn htype =>
    have hattribute := Catalog.visible_of_mem hplain.attributes hvisible
    exact ⟨hattribute, Option.isNone_iff_eq_none.mp ha, target, joinColumn, htype⟩
  · simp at ha

theorem joins_of_child (hplain : c.Plain) {a : Attribute} (ha : a ∈ nestedAttributes c root)
    {name : String} {f : Field} (hf : c.field root ((Path.single a.name).child name) = .ok f) :
    ∃ target joinColumn, a.type = .association target (.toOne joinColumn) ∧ f.owner = target ∧
      f.joins = [⟨a.name, root, a.name, target, .toOne joinColumn⟩] := by
  obtain ⟨hattribute, -, target, joinColumn, htype⟩ := mem_nestedAttributes hplain ha
  obtain ⟨joins, owner, found, kind, hfollow, -, -, rfl⟩ := Catalog.field_eq_ok_iff.mp hf
  obtain ⟨b, cardinality, hb, hbtype, -, rfl⟩ := Catalog.follow_singleton_eq_some_iff.mp hfollow
  obtain rfl : a = b := Option.some.inj (hattribute.symm.trans hb)
  obtain ⟨rfl, rfl⟩ := AttributeType.association.inj (htype.symm.trans hbtype)
  exact ⟨target, joinColumn, htype, rfl, by simp [Path.single]⟩

/-- What is shown of whole entities: their fields, in the order of the identifiers. -/
theorem showEntity_eq_ok {shown : Shown} (hshown : showEntity c root = .ok shown) :
    ∃ e fields id, c.entity root = .ok e ∧ entityFields c root = .ok fields ∧
      c.idAttribute root = .ok id ∧
      shown = {
        projection := fields.map fun f => ⟨f.columnPath, entityLabel e.rootPath f⟩
        groupBy := []
        aggregates := []
        orderBy := [⟨e.rootPath ++ "." ++ id.name, .asc⟩]
        joins := fields.flatMap Field.joins } := by
  obtain ⟨e, he, hshown⟩ := Outcome.bind_eq_ok_iff.mp hshown
  obtain ⟨own, hown, hshown⟩ := Outcome.bind_eq_ok_iff.mp hshown
  obtain ⟨lists, hlists, hshown⟩ := Outcome.bind_eq_ok_iff.mp hshown
  obtain ⟨id, hid, hshown⟩ := Outcome.bind_eq_ok_iff.mp hshown
  have hfields : entityFields c root = .ok (own ++ lists.flatten) :=
    Outcome.bind_eq_ok_iff.mpr ⟨own, hown, Outcome.bind_eq_ok_iff.mpr ⟨lists, hlists, rfl⟩⟩
  refine ⟨e, _, id, he, hfields, hid, ?_⟩
  -- the fields of the root are labelled by their names and need no joins
  have hlabels : (own.map fun f => (⟨f.columnPath, e.rootPath ++ "." ++ f.name⟩ : Projected)) =
      own.map fun f => ⟨f.columnPath, entityLabel e.rootPath f⟩ := by
    refine List.map_congr_left fun f hf => ?_
    obtain ⟨-, a, hpath⟩ := shows_of_scalarFields hown hf
    simp [entityLabel, Field.name, hpath, Path.below, Path.single, Path.text, Path.names]
  have hjoins : own.flatMap Field.joins = [] := by
    rw [List.flatMap_eq_nil_iff]
    intro f hf
    obtain ⟨hshows, a, hpath⟩ := shows_of_scalarFields hown hf
    exact (joins_of_single (hpath ▸ hshows.field)).1
  rw [← Except.ok.inj hshown, hlabels, List.map_append, List.flatMap_append, hjoins]
  rfl

/-- Every field of a whole entity is a scalar field of the root, or of the target of an association
with one. -/
theorem shows_of_entityFields {fields : List Field} (hfields : entityFields c root = .ok fields)
    {f : Field} (hf : f ∈ fields) :
    f.Shows c root f.columnPath ∧
      ((∃ a : Attribute, f.path = .single a.name) ∨
        ∃ a ∈ nestedAttributes c root, ∃ b : Attribute,
          f.path = (Path.single a.name).child b.name) := by
  obtain ⟨own, hown, hfields⟩ := Outcome.bind_eq_ok_iff.mp hfields
  obtain ⟨lists, hlists, hfields⟩ := Outcome.bind_eq_ok_iff.mp hfields
  obtain rfl := Except.ok.inj hfields
  rcases List.mem_append.mp hf with hf | hf
  · obtain ⟨hshows, hpath⟩ := shows_of_scalarFields hown hf
    exact ⟨hshows, .inl hpath⟩
  · obtain ⟨list, hlist, hf⟩ := List.mem_flatten.mp hf
    obtain ⟨a, ha, hlist⟩ := Outcome.exists_of_mem_mapM hlists hlist
    obtain ⟨hshows, b, hpath⟩ := shows_of_scalarFields hlist hf
    exact ⟨hshows, .inr ⟨a, ha, b, hpath⟩⟩

/-- A field that is labelled by the name of an attribute of the root is a field of the root. -/
theorem path_of_text (hplain : c.Plain) {fields : List Field}
    (hfields : entityFields c root = .ok fields) {f : Field} (hf : f ∈ fields) {name : String}
    (hname : Path.Dotless name) (htext : f.path.text = name) : f.path = .single name := by
  obtain ⟨hshows, ⟨a, hpath⟩ | ⟨a, ha, b, hpath⟩⟩ := shows_of_entityFields hfields hf
  · rw [hpath] at htext ⊢
    simpa [Path.text, Path.names, Path.single] using htext
  · -- the label of a field of a target has a point in it
    have hfield := hshows.field
    rw [hpath] at hfield htext
    obtain ⟨hattribute, -⟩ := mem_nestedAttributes hplain ha
    obtain ⟨_, _, _, _, -, hb, -⟩ := Catalog.field_eq_ok_iff.mp hfield
    have hdotless : ∀ n ∈ [a.name, b.name], Path.Dotless n := by
      simpa
        using ⟨Catalog.dotless_of_attribute? hplain.names hattribute,
          Catalog.dotless_of_attribute? hplain.names hb⟩
    have htext : Path.dotted [a.name, b.name] = Path.dotted [name] := by
      rwa [Path.dotted_singleton]
    simpa using Path.dotted_injective (by simp) (by simp) hdotless (by simpa using hname) htext

/-- The identifier is one of the fields of an entity. -/
theorem exists_mem_of_idAttribute (hnames : c.Unrepeated) {type : ScalarType}
    (htype : c.idType root = .ok type) {id : Attribute} (hid : c.idAttribute root = .ok id)
    {fields : List Field} (hfields : entityFields c root = .ok fields) :
    ∃ f ∈ fields, f.path = .single id.name := by
  obtain ⟨own, hown, hfields⟩ := Outcome.bind_eq_ok_iff.mp hfields
  obtain ⟨lists, -, hfields⟩ := Outcome.bind_eq_ok_iff.mp hfields
  obtain rfl := Except.ok.inj hfields
  obtain ⟨target, htarget, hown⟩ := Outcome.bind_eq_ok_iff.mp hown
  obtain rfl := Except.ok.inj htarget
  obtain ⟨all, hall, hown⟩ := Outcome.bind_eq_ok_iff.mp hown
  obtain rfl := Except.ok.inj hown
  have ha := Catalog.attribute?_of_idAttribute hid
  have hvisible := ((Catalog.attribute?_eq_some_iff hnames).mp ha).1
  obtain ⟨f, hf, hfield⟩ := Outcome.exists_mem_of_mapM hall hvisible
  obtain ⟨found, hfound, hkind⟩ := Catalog.exists_idAttribute htype
  obtain rfl : id = found := Except.ok.inj (hid.symm.trans hfound)
  obtain ⟨kind, hkind', rfl⟩ := (Catalog.field_single_eq_ok_iff ha).mp hfield
  rw [hkind] at hkind'
  obtain rfl := Except.ok.inj hkind'
  exact ⟨_, List.mem_append_left _ (List.mem_filter.mpr ⟨hf, rfl⟩), rfl⟩

theorem exists_rests_of_showEntity (hnames : c.Unrepeated) {type : ScalarType}
    (htype : c.idType root = .ok type) {shown : Shown} (hshown : showEntity c root = .ok shown) :
    ∃ fields, shown.Rests c root fields := by
  obtain ⟨e, fields, id, -, hfields, hid, rfl⟩ := showEntity_eq_ok hshown
  have hshows (f : Field) (hf : f ∈ fields) := (shows_of_entityFields hfields hf).1
  refine ⟨fields, ⟨fun f hf => (hshows f hf).field, rfl, by simp, by simp, ?_, ?_⟩⟩
  · intro p hp
    obtain ⟨f, hf, rfl⟩ := List.mem_map.mp hp
    exact .inl ⟨rfl, rfl, f, hf, hshows f hf⟩
  · intro item hitem
    obtain ⟨f, hf, hpath⟩ := exists_mem_of_idAttribute hnames htype hid hfields
    rw [List.mem_singleton.mp hitem, List.map_map]
    refine List.mem_map.mpr ⟨f, hf, ?_⟩
    simp [entityLabel, hpath, Path.single, Path.text, Path.names]

/-- Without selections and aggregates whole entities are shown, otherwise rows of groups or of what
is selected. -/
theorem shown_eq_ok {r : Request} {shown : Shown} {shape : ResultShape}
    (hshown : Planner.shown c root marker r = .ok (shown, shape)) :
    (shape = .entities ∧ (r.selections = [] ∧ r.aggregates = none) ∧
      showEntity c root = .ok shown) ∨
      shape = .rows ∧ ∃ columns, select c root marker r.selections = .ok columns ∧
        ((∃ a, r.aggregates = some a ∧ showAggregates c root marker columns a = .ok shown) ∨
          r.aggregates = none ∧ showRows columns = .ok shown) := by
  unfold Planner.shown at hshown
  split at hshown
  · next hentities =>
    obtain ⟨entity, hentity, hshown⟩ := Outcome.bind_eq_ok_iff.mp hshown
    obtain ⟨rfl, rfl⟩ := Prod.mk.inj (Except.ok.inj hshown)
    rw [Bool.and_eq_true, List.isEmpty_iff, Option.isNone_iff_eq_none] at hentities
    exact .inl ⟨rfl, hentities, hentity⟩
  · obtain ⟨columns, hcolumns, hshown⟩ := Outcome.bind_eq_ok_iff.mp hshown
    refine .inr ?_
    split at hshown
    · next a ha =>
      obtain ⟨aggregated, haggregated, hshown⟩ := Outcome.bind_eq_ok_iff.mp hshown
      obtain ⟨rfl, rfl⟩ := Prod.mk.inj (Except.ok.inj hshown)
      exact ⟨rfl, columns, hcolumns, .inl ⟨a, ha, haggregated⟩⟩
    · next hnone =>
      obtain ⟨rows, hrows, hshown⟩ := Outcome.bind_eq_ok_iff.mp hshown
      obtain ⟨rfl, rfl⟩ := Prod.mk.inj (Except.ok.inj hshown)
      exact ⟨rfl, columns, hcolumns, .inr ⟨hnone, hrows⟩⟩

/-- What a plan shows rests on fields. -/
theorem exists_rests (hnames : c.Unrepeated) {type : ScalarType} (htype : c.idType root = .ok type)
    {r : Request} {shown : Shown} {shape : ResultShape}
    (hshown : Planner.shown c root marker r = .ok (shown, shape)) :
    ∃ fields, shown.Rests c root fields := by
  rcases shown_eq_ok hshown with
    ⟨-, -, hentity⟩ | ⟨-, columns, hcolumns, ⟨a, -, haggregated⟩ | ⟨-, hrows⟩⟩
  · exact exists_rests_of_showEntity hnames htype hentity
  · exact exists_rests_of_showAggregates hcolumns haggregated
  · exact exists_rests_of_showRows hcolumns hrows

end Planner

end EntityQuery
