import EntityQuery.Proofs.Search.Complete
import EntityQuery.Proofs.Search.Shown
import EntityQuery.Search.Run

/-!
# Fields of whole entities

An attribute of an entity is stored as a value of its own unless it is an association whose column
is not overridden.  The scalar fields of an entity are the fields of these attributes, in their
order.  A search for all entities shows them for the root and for the targets of those of its
associations that have one target.

In an accepted catalog all these fields are there, and so are the joins that lead to them.  So a
request for all entities can always be planned.

## Main definitions

* `Catalog.ownAttributes` : the attributes that are stored as values of their own
* `Catalog.shownAttributes` : all visible attributes but associations with many targets

## Main statements

* `ownAttributes_append_perm` : what is shown of an entity
* `mapM_of_scalarFields`, `mapM_of_nestedFields` : the scalar fields are those of own attributes
* `Search.exists_planFor_all` : a request for all entities can be planned
-/

namespace EntityQuery

variable {c : Catalog} {entities : List Entity} {fallback : Option ScalarType} {root : String}

/-! ## Attributes that are shown -/

namespace Catalog

/-- The attribute is stored as a value of its own: it is no association, or its column is
overridden. -/
def isOwn (c : Catalog) (entity : String) (a : Attribute) : Bool :=
  match a.type with
  | .association _ _ => (c.override? entity a.name).isSome
  | _ => true

/-- The attribute is no association with many targets, or its column is overridden. -/
def isShown (c : Catalog) (entity : String) (a : Attribute) : Bool :=
  match a.type with
  | .association _ (.toMany _) => (c.override? entity a.name).isSome
  | _ => true

/-- The visible attributes that are stored as values of their own. -/
def ownAttributes (c : Catalog) (entity : String) : List Attribute :=
  (c.visible entity).filter (c.isOwn entity)

/-- The visible attributes but for associations with many targets whose columns are not
overridden. -/
def shownAttributes (c : Catalog) (entity : String) : List Attribute :=
  (c.visible entity).filter (c.isShown entity)

/-- What is shown are the attributes with values of their own and the associations with one
target. -/
theorem ownAttributes_append_perm (c : Catalog) (entity : String) :
    (c.ownAttributes entity ++ Planner.nestedAttributes c entity).Perm
      (c.shownAttributes entity) := by
  have hown : c.ownAttributes entity = (c.shownAttributes entity).filter (c.isOwn entity) := by
    rw [shownAttributes, List.filter_filter]
    refine List.filter_congr fun a _ => ?_
    obtain ⟨name, type⟩ := a
    rcases type with _ | _ | ⟨target, _ | _⟩ <;> simp [isOwn, isShown]
  have hnested : Planner.nestedAttributes c entity =
      (c.shownAttributes entity).filter (!c.isOwn entity ·) := by
    rw [shownAttributes, List.filter_filter]
    refine List.filter_congr fun a _ => ?_
    obtain ⟨name, type⟩ := a
    rcases type with _ | _ | ⟨target, _ | _⟩ <;> simp [isOwn, isShown]
  rw [hown, hnested]
  exact List.filter_append_perm _ _

theorem physicalColumn?_of_isOwn {entity : String} {a : Attribute} (ha : c.isOwn entity a = true) :
    c.physicalColumn? entity a = some (c.columnName entity a.name) := by
  obtain ⟨name, type⟩ := a
  unfold isOwn at ha
  unfold physicalColumn? columnName
  cases hoverride : c.override? entity name with
  | some column => rfl
  | none =>
      cases type with
      | association target cardinality => simp [hoverride] at ha
      | _ => rfl

theorem nodup_visible (c : Catalog) (entity : String) :
    ((c.visible entity).map Attribute.name).Nodup :=
  Keyed.nodup_map_ofList _ _

theorem nodup_ownAttributes (c : Catalog) (entity : String) :
    ((c.ownAttributes entity).map Attribute.name).Nodup :=
  (c.nodup_visible entity).sublist (List.filter_sublist.map _)

theorem nodup_shownAttributes (c : Catalog) (entity : String) :
    ((c.shownAttributes entity).map Attribute.name).Nodup :=
  (c.nodup_visible entity).sublist (List.filter_sublist.map _)

/-- The identifier is stored as a value of its own. -/
theorem mem_ownAttributes_of_idAttribute (hnames : c.Unrepeated) {entity : String}
    {type : ScalarType} (htype : c.idType entity = .ok type) {id : Attribute}
    (hid : c.idAttribute entity = .ok id) : id ∈ c.ownAttributes entity := by
  have hvisible := ((attribute?_eq_some_iff hnames).mp (attribute?_of_idAttribute hid)).1
  refine List.mem_filter.mpr ⟨hvisible, ?_⟩
  obtain ⟨found, hfound, hkind⟩ := exists_idAttribute htype
  obtain rfl : id = found := Except.ok.inj (hid.symm.trans hfound)
  unfold isOwn
  split
  · next htype =>
    have hscalar := hkind false
    simp [kindOf, htype] at hscalar
  · rfl

theorem dotless_of_visible (hplain : c.Plain) {entity : String} {a : Attribute}
    (ha : a ∈ c.visible entity) : Path.Dotless a.name :=
  dotless_of_attribute? hplain.names (visible_of_mem hplain.attributes ha)

/-- A field is a scalar exactly if its attribute is stored as a value of its own. -/
theorem isComplex_of_field {path : Path} {f : Field} (hf : c.field root path = .ok f)
    {a : Attribute} (ha : c.attribute? f.owner path.field = some a) :
    f.isComplex = !c.isOwn f.owner a := by
  obtain ⟨joins, owner, found, kind, -, hfound, hkind, rfl⟩ := field_eq_ok_iff.mp hf
  obtain rfl : found = a := Option.some.inj (hfound.symm.trans ha)
  obtain ⟨hname, -⟩ := name_of_attribute? ha
  unfold kindOf at hkind
  unfold isOwn
  cases htype : found.type with
  | scalar type =>
      rw [htype] at hkind
      obtain rfl := Except.ok.inj hkind
      rfl
  | parameter parameter =>
      rw [htype] at hkind
      obtain ⟨type, -, hkind⟩ := Outcome.bind_eq_ok_iff.mp hkind
      obtain rfl := Except.ok.inj hkind
      rfl
  | association target cardinality =>
      rw [htype] at hkind
      dsimp only at hkind
      rw [hname]
      split at hkind
      · next hoverride =>
        obtain ⟨type, -, hkind⟩ := Outcome.bind_eq_ok_iff.mp hkind
        obtain rfl := Except.ok.inj hkind
        simp [Field.isComplex, Field.type?, hoverride]
      · next hoverride =>
        obtain rfl := Except.ok.inj hkind
        simpa [Field.isComplex, Field.type?] using hoverride

end Catalog

namespace Planner

open Catalog

/-! ## Scalar fields -/

theorem mapM_own {path : Option Path} {target : String} {fields : List Field}
    (hnames : c.Unrepeated) (htarget : c.targetOf root path = .ok target)
    (howner : ∀ name, ∀ {f}, c.field root (Path.below path name) = .ok f → f.owner = target)
    (hfields : c.scalarFields root path = .ok fields) :
    (c.ownAttributes target).mapM (fun a => c.field root (Path.below path a.name)) =
      .ok fields := by
  obtain ⟨found, hfound, hfields⟩ := Outcome.bind_eq_ok_iff.mp hfields
  obtain rfl : found = target := Except.ok.inj (hfound.symm.trans htarget)
  obtain ⟨all, hall, hfields⟩ := Outcome.bind_eq_ok_iff.mp hfields
  obtain rfl := Except.ok.inj hfields
  refine Outcome.mapM_filter (fun a ha {f} hf => ?_) hall
  have hfield : (Path.below path a.name).field = a.name := by cases path <;> rfl
  have hattribute : c.attribute? f.owner (Path.below path a.name).field = some a := by
    rw [howner a.name hf, hfield]
    exact visible_of_mem hnames ha
  rw [isComplex_of_field hf hattribute, howner a.name hf, Bool.not_not]

/-- The scalar fields of the root are those of its own attributes. -/
theorem mapM_of_scalarFields (hnames : c.Unrepeated) {fields : List Field}
    (hfields : c.scalarFields root none = .ok fields) :
    (c.ownAttributes root).mapM (fun a => c.field root (.single a.name)) = .ok fields :=
  mapM_own hnames rfl (fun _ {_} hf => (joins_of_single hf).2.1) hfields

section
variable {b : Attribute} (hb : b ∈ nestedAttributes c root) {target joinColumn : String}
  (htype : b.type = .association target (.toOne joinColumn))
include hb htype

theorem targetOf_nested (hplain : c.Plain) :
    c.targetOf root (some (.single b.name)) = .ok target := by
  obtain ⟨hattribute, hoverride, -⟩ := mem_nestedAttributes hplain hb
  have hkind : c.kindOf root b (c.override? root b.name).isSome =
      .ok (.association target (.toOne joinColumn)) := by
    simp [kindOf, htype, hoverride]
  have hfield := (field_single_eq_ok_iff hattribute).mpr ⟨_, hkind, rfl⟩
  rw [targetOf, hfield]
  rfl

/-- The scalar fields of the target of an association are those of the own attributes of the
target. -/
theorem mapM_of_nestedFields (hplain : c.Plain) {fields : List Field}
    (hfields : c.scalarFields root (some (.single b.name)) = .ok fields) :
    (c.ownAttributes target).mapM (fun a => c.field root ((Path.single b.name).child a.name)) =
      .ok fields := by
  refine mapM_own hplain.attributes (targetOf_nested hb htype hplain)
    (fun name {f} hf => ?_) hfields
  obtain ⟨found, _, hfound, rfl, -⟩ := joins_of_child hplain hb hf
  exact (AttributeType.association.inj (htype.symm.trans hfound)).1.symm

theorem exists_field_nested (haccepted : Catalog.of entities fallback = .ok c) (hplain : c.Plain)
    {a : Attribute} (ha : a ∈ c.visible target) :
    ∃ f, c.field root ((Path.single b.name).child a.name) = .ok f := by
  obtain ⟨hattribute, hoverride, -⟩ := mem_nestedAttributes hplain hb
  have hnested := visible_of_mem hplain.attributes ha
  obtain ⟨kind, hkind⟩ :=
    exists_kindOf haccepted hplain.attributes hnested (c.override? target a.name).isSome
  have hfollow : c.follow root [] [b.name] =
      some ([⟨Path.dotted ([] ++ [b.name]), root, b.name, target, .toOne joinColumn⟩], target) :=
    follow_singleton_eq_some_iff.mpr ⟨b, _, hattribute, htype, hoverride, rfl⟩
  exact ⟨_, field_eq_ok_iff.mpr ⟨_, target, a, kind, hfollow, hnested, hkind, rfl⟩⟩

end

/-! ## Plans for all entities -/

theorem exists_scalarFields {path : Option Path} {target : String}
    (htarget : c.targetOf root path = .ok target)
    (hfield : ∀ a ∈ c.visible target, ∃ f, c.field root (Path.below path a.name) = .ok f) :
    ∃ fields, c.scalarFields root path = .ok fields := by
  obtain ⟨fields, hfields⟩ := Outcome.exists_mapM_eq_ok hfield
  exact ⟨fields.filter (!·.isComplex), by simp [scalarFields, htarget, hfields]⟩

/-- Whole entities have their fields. -/
theorem exists_showEntity (haccepted : Catalog.of entities fallback = .ok c) (hplain : c.Plain)
    (hroot : c.Knows root) :
    ∃ shown, showEntity c root = .ok shown ∧ ∀ step ∈ shown.joins, step.Known c := by
  have htarget : c.targetOf root none = .ok root := rfl
  obtain ⟨own, hown⟩ := exists_scalarFields htarget fun a ha =>
    exists_field_of_visible haccepted hplain.attributes ha
  have hnested : ∀ b ∈ nestedAttributes c root, ∃ fields,
      c.scalarFields root (some (.single b.name)) = .ok fields := by
    intro b hb
    obtain ⟨-, -, target, joinColumn, htype⟩ := mem_nestedAttributes hplain hb
    exact exists_scalarFields (targetOf_nested hb htype hplain) fun a ha =>
      exists_field_nested hb htype haccepted hplain ha
  obtain ⟨lists, hlists⟩ := Outcome.exists_mapM_eq_ok hnested
  obtain ⟨id, hid⟩ := exists_idAttribute_of_knows haccepted hroot
  obtain ⟨e, he⟩ := hroot
  have hentity : c.entity root = .ok e := by simp [Catalog.entity, he]
  obtain ⟨shown, hshown⟩ : ∃ shown, showEntity c root = .ok shown :=
    ⟨_, Outcome.bind_eq_ok_iff.mpr ⟨e, hentity, Outcome.bind_eq_ok_iff.mpr ⟨own, hown,
      Outcome.bind_eq_ok_iff.mpr ⟨lists, hlists, Outcome.bind_eq_ok_iff.mpr ⟨id, hid, rfl⟩⟩⟩⟩⟩
  refine ⟨shown, hshown, ?_⟩
  obtain ⟨e', fields, id', -, hfields, -, rfl⟩ := showEntity_eq_ok hshown
  intro step hstep
  obtain ⟨f, hf, hstep⟩ := List.mem_flatMap.mp hstep
  exact known_of_field (shows_of_entityFields hfields hf).1.field step hstep

end Planner

/-- A request for all entities can be planned. -/
theorem Search.exists_planFor_all {search : Search}
    (haccepted : Catalog.of entities fallback = .ok search.catalog) (hplain : search.catalog.Plain)
    (hroot : search.catalog.Knows search.root) :
    ∃ planned, search.planFor .all none = .ok planned := by
  obtain ⟨shown, hshown, hknown⟩ := Planner.exists_showEntity haccepted hplain hroot
  obtain ⟨id, hid⟩ := Catalog.exists_idAttribute_of_knows haccepted hroot
  obtain ⟨e, he⟩ := hroot
  have hsteps : ∀ step ∈ JoinStep.merge [] shown.joins, ∃ j,
      Planner.join search.catalog step = .ok j := by
    intro step hstep
    obtain ⟨more, hmerge, hmore⟩ := Keyed.exists_addAll JoinStep.path [] shown.joins
    rw [JoinStep.merge, hmerge, List.nil_append] at hstep
    exact Planner.exists_join haccepted hplain.attributes (hknown step (hmore step hstep))
  obtain ⟨joins, hjoins⟩ := Outcome.exists_mapM_eq_ok hsteps
  have hpredicate : Planner.predicate search.hooks .all = .ok ⟨.always, false, []⟩ := rfl
  have hentities :
      Planner.shown search.catalog search.root search.config.wrapperMarker .all =
        .ok (shown, .entities) := by
    simp [Planner.shown, Request.all, hshown]
  simp [planFor, Planner.plan, Catalog.entity, he, hid, hpredicate, hentities, hjoins]

end EntityQuery
