import EntityQuery.Catalog.Validate
import EntityQuery.Proofs.Path
import EntityQuery.Store.Table

/-!
# Attributes of accepted catalogs

A catalog is accepted after its entities and their attributes have been checked.  What later stages
look up one by one, an attribute by its name, a target, an identifier and its type, is then there.

Checks go over all visible attributes, while look-up goes up the lineage.  The two agree if no
entity repeats the name of an attribute, since then the first and the last declaration of a name
within an entity are the same.

## Main definitions

* `Catalog.Plain` : names and columns are not shared
* `Catalog.Unrepeated` : no entity repeats the name of an attribute
* `Catalog.DotlessNames` : no attribute has a point in its name
* `Catalog.Knows` : the catalog has an entity of a name

## Main statements

* `attribute?_eq_some_iff` : look-up finds the visible attributes
* `knows_target` : associations have targets
* `leadsBack_of_toMany` : associations with many targets are mapped by one that leads back
* `exists_idType` : entities have identifiers
-/

namespace EntityQuery

namespace Catalog

variable {c : Catalog} {entities : List Entity} {fallback : Option ScalarType}

/-! ## Catalogs whose names and columns are not shared -/

/-- The column that an attribute of an entity takes in its table; none for an association with many
targets. -/
def physicalColumn? (c : Catalog) (entity : String) (a : Attribute) : Option String :=
  match c.override? entity a.name, a.type with
  | some column, _ => some column
  | none, .association _ (.toOne joinColumn) => some joinColumn
  | none, .association _ (.toMany _) => none
  | none, _ => some a.name

/-- The column of an association with one target, if the attribute is one. -/
def joinColumn? (a : Attribute) : Option String :=
  match a.type with
  | .association _ (.toOne joinColumn) => some joinColumn
  | _ => none

/-- Every entity has its own table, attributes of one entity have different names and visible ones
different columns, and no name or column holds a point. -/
structure Plain (c : Catalog) : Prop where
  tables : (c.entities.map Entity.tableName).Nodup
  attributes : ∀ e ∈ c.entities, (e.attributes.map Attribute.name).Nodup
  columns : ∀ e ∈ c.entities, ((c.visible e.name).filterMap (c.physicalColumn? e.name)).Nodup
  names : ∀ e ∈ c.entities, ∀ a ∈ e.attributes, Path.Dotless a.name
  joinColumns : ∀ e ∈ c.entities, ∀ a ∈ e.attributes, ∀ column, joinColumn? a = some column →
    Path.Dotless column
  overrides : ∀ e ∈ c.entities, ∀ o ∈ e.overrides, Path.Dotless o.2

instance (c : Catalog) : Decidable c.Plain :=
  decidable_of_iff
    ((c.entities.map Entity.tableName).Nodup ∧
      (∀ e ∈ c.entities, (e.attributes.map Attribute.name).Nodup) ∧
      (∀ e ∈ c.entities, ((c.visible e.name).filterMap (c.physicalColumn? e.name)).Nodup) ∧
      (∀ e ∈ c.entities, ∀ a ∈ e.attributes, Path.Dotless a.name) ∧
      (∀ e ∈ c.entities, ∀ a ∈ e.attributes, ∀ column ∈ joinColumn? a, Path.Dotless column) ∧
      ∀ e ∈ c.entities, ∀ o ∈ e.overrides, Path.Dotless o.2)
    ⟨fun ⟨h₁, h₂, h₃, h₄, h₅, h₆⟩ => ⟨h₁, h₂, h₃, h₄, h₅, h₆⟩, fun h =>
      ⟨h.tables, h.attributes, h.columns, h.names, h.joinColumns, h.overrides⟩⟩

/-- No entity declares two attributes of one name. -/
def Unrepeated (c : Catalog) : Prop := ∀ e ∈ c.entities, (e.attributes.map Attribute.name).Nodup

instance (c : Catalog) : Decidable c.Unrepeated :=
  inferInstanceAs (Decidable (∀ e ∈ c.entities, (e.attributes.map Attribute.name).Nodup))

/-- No attribute has a point in its name. -/
def DotlessNames (c : Catalog) : Prop := ∀ e ∈ c.entities, ∀ a ∈ e.attributes, Path.Dotless a.name

instance (c : Catalog) : Decidable c.DotlessNames :=
  inferInstanceAs (Decidable (∀ e ∈ c.entities, ∀ a ∈ e.attributes, Path.Dotless a.name))

/-- The catalog has an entity of the name. -/
def Knows (c : Catalog) (name : String) : Prop := ∃ e, c.entity? name = some e

/-! ## Entities -/

theorem check_of_accepted (haccepted : Catalog.of entities fallback = .ok c) :
    c = ⟨entities, fallback⟩ ∧ (c.entities.map Entity.name).Nodup ∧ c.check = .ok () := by
  unfold Catalog.of at haccepted
  split at haccepted
  · simp at haccepted
  · next hrepeated =>
    obtain ⟨⟨⟩, hcheck, hc⟩ := Outcome.bind_eq_ok_iff.mp haccepted
    obtain rfl := Except.ok.inj hc
    exact ⟨rfl, (Keyed.repeated?_eq_none_iff _).mp hrepeated, hcheck⟩

theorem checkEntity_of_accepted (haccepted : Catalog.of entities fallback = .ok c) {e : Entity}
    (he : e ∈ c.entities) : c.checkEntity e = .ok () := by
  obtain ⟨-, -, hcheck⟩ := check_of_accepted haccepted
  obtain ⟨⟨⟩, -, hentities⟩ := Outcome.bind_eq_ok_iff.mp hcheck
  exact Outcome.forM_eq_ok_iff.mp hentities e he

theorem mem_of_entity? {name : String} {e : Entity} (he : c.entity? name = some e) :
    e ∈ c.entities ∧ e.name = name := by
  unfold entity? at he
  exact ⟨List.mem_of_find?_eq_some he, by simpa using List.find?_some he⟩

theorem knows_of_entity {name : String} {e : Entity} (he : c.entity name = .ok e) :
    c.entity? name = some e := by
  unfold entity at he
  split at he
  · next found hfound => rw [hfound, Except.ok.inj he]
  · simp at he

theorem mem_of_mem_ancestry {steps : Nat} {name : String} {e : Entity}
    (he : e ∈ c.ancestry steps name) : e ∈ c.entities := by
  induction steps generalizing name with
  | zero => simp [ancestry] at he
  | succ steps ih =>
      rw [ancestry] at he
      split at he
      · simp at he
      · next first hfirst =>
        have hmem : first ∈ c.entities := (mem_of_entity? hfirst).1
        split at he
        · rwa [List.mem_singleton.mp he]
        · rcases List.mem_cons.mp he with rfl | he
          · exact hmem
          · exact ih he

theorem mem_of_mem_lineage {name : String} {e : Entity} (he : e ∈ c.lineage name) :
    e ∈ c.entities :=
  mem_of_mem_ancestry he

/-! ## Look-up of attributes -/

theorem find?_flatMap_attributes {chain : List Entity}
    (hchain : ∀ e ∈ chain, (e.attributes.map Attribute.name).Nodup) (name : String) :
    (Keyed.ofList Attribute.name (chain.reverse.flatMap Entity.attributes)).find? (·.name = name) =
      chain.findSome? (·.declared? name) := by
  induction chain with
  | nil => rfl
  | cons e chain ih =>
      rw [List.forall_mem_cons] at hchain
      rw [List.reverse_cons, List.flatMap_append, List.flatMap_singleton, Keyed.ofList,
        List.foldl_append, Keyed.find?_foldl_put Attribute.name name hchain.1, ← Keyed.ofList,
        ih hchain.2]
      unfold Entity.declared?
      rw [List.findSome?_cons]
      cases e.attributes.find? (·.name = name) <;> rfl

theorem find?_visible (hnames : c.Unrepeated) (entity name : String) :
    (c.visible entity).find? (·.name = name) = c.attribute? entity name :=
  find?_flatMap_attributes (fun e he => hnames e (mem_of_mem_lineage he)) name

theorem mem_map_visible_iff {entity name : String} :
    name ∈ (c.visible entity).map Attribute.name ↔ (c.attribute? entity name).isSome = true := by
  rw [visible, Keyed.mem_map_ofList, attribute?, List.findSome?_isSome_iff, List.mem_map]
  simp only [List.mem_flatMap, List.mem_reverse, Entity.declared?, List.find?_isSome,
    decide_eq_true_eq]
  constructor
  · rintro ⟨a, ⟨e, he, ha⟩, hname⟩
    exact ⟨e, he, a, ha, hname⟩
  · rintro ⟨e, he, a, ha, hname⟩
    exact ⟨a, ⟨e, he, ha⟩, hname⟩

/-- Look-up finds the visible attributes. -/
theorem attribute?_eq_some_iff (hnames : c.Unrepeated) {entity name : String} {a : Attribute} :
    c.attribute? entity name = some a ↔ a ∈ c.visible entity ∧ a.name = name := by
  rw [← find?_visible hnames]
  exact Keyed.find?_eq_some_iff Attribute.name (Keyed.nodup_map_ofList _ _)

theorem name_of_attribute? {entity name : String} {a : Attribute}
    (ha : c.attribute? entity name = some a) :
    a.name = name ∧ ∃ e ∈ c.entities, a ∈ e.attributes := by
  unfold attribute? at ha
  obtain ⟨e, he, ha⟩ := List.exists_of_findSome?_eq_some ha
  unfold Entity.declared? at ha
  exact ⟨by simpa using List.find?_some ha, e, mem_of_mem_lineage he, List.mem_of_find?_eq_some ha⟩

theorem dotless_of_attribute? (hnames : c.DotlessNames) {entity name : String} {a : Attribute}
    (ha : c.attribute? entity name = some a) : Path.Dotless name := by
  obtain ⟨rfl, e, he, hmem⟩ := name_of_attribute? ha
  exact hnames e he a hmem

theorem dotless_of_joinColumn (hplain : c.Plain) {entity name : String} {a : Attribute}
    (ha : c.attribute? entity name = some a) {target joinColumn : String}
    (htype : a.type = .association target (.toOne joinColumn)) : Path.Dotless joinColumn := by
  obtain ⟨-, e, he, hmem⟩ := name_of_attribute? ha
  exact hplain.joinColumns e he a hmem joinColumn (by simp [joinColumn?, htype])

theorem dotless_of_override? (hplain : c.Plain) {entity name column : String}
    (hcolumn : c.override? entity name = some column) : Path.Dotless column := by
  unfold override? at hcolumn
  obtain ⟨e, he, hcolumn⟩ := List.exists_of_findSome?_eq_some hcolumn
  exact hplain.overrides e (mem_of_mem_lineage he) _ (Keyed.mem_of_lookup hcolumn)

theorem visible_of_mem (hnames : c.Unrepeated) {entity : String} {a : Attribute}
    (ha : a ∈ c.visible entity) : c.attribute? entity a.name = some a :=
  (attribute?_eq_some_iff hnames).mpr ⟨ha, rfl⟩

theorem knows_of_attribute? {entity name : String} {a : Attribute}
    (ha : c.attribute? entity name = some a) : c.Knows entity := by
  cases hentity : c.entity? entity with
  | some e => exact ⟨e, hentity⟩
  | none =>
      have hlineage : c.lineage entity = [] := by
        unfold lineage
        cases c.entities.length with
        | zero => rfl
        | succ steps => simp [ancestry, hentity]
      simp [attribute?, hlineage] at ha

/-! ## What has been checked -/

theorem checkAttribute_of_attribute? (haccepted : Catalog.of entities fallback = .ok c)
    (hnames : c.Unrepeated) {entity name : String} {a : Attribute}
    (ha : c.attribute? entity name = some a) : c.checkAttribute entity a = .ok () := by
  obtain ⟨e, he⟩ := knows_of_attribute? ha
  obtain ⟨hmem, rfl⟩ := mem_of_entity? he
  obtain ⟨type, -, hattributes⟩ :=
    Outcome.bind_eq_ok_iff.mp (checkEntity_of_accepted haccepted hmem)
  exact Outcome.forM_eq_ok_iff.mp hattributes a ((attribute?_eq_some_iff hnames).mp ha).1

theorem knows_target (haccepted : Catalog.of entities fallback = .ok c) (hnames : c.Unrepeated)
    {entity name : String} {a : Attribute} (ha : c.attribute? entity name = some a)
    {target : String} {cardinality : Cardinality}
    (htype : a.type = .association target cardinality) : c.Knows target := by
  have hcheck := checkAttribute_of_attribute? haccepted hnames ha
  unfold checkAttribute at hcheck
  rw [htype] at hcheck
  dsimp only at hcheck
  split at hcheck
  · simp at hcheck
  · next hsome => exact Option.ne_none_iff_exists'.mp fun hnone => hsome (by simp [hnone])

/-- The attribute that an association with many targets is mapped by leads back to the owner. -/
theorem leadsBack_of_toMany (haccepted : Catalog.of entities fallback = .ok c)
    (hnames : c.Unrepeated) {entity name : String} {a : Attribute}
    (ha : c.attribute? entity name = some a) {target mappedBy : String}
    (htype : a.type = .association target (.toMany mappedBy)) :
    ∃ back joinColumn, c.attribute? target mappedBy = some back ∧
      back.type = .association entity (.toOne joinColumn) := by
  have hcheck := checkAttribute_of_attribute? haccepted hnames ha
  unfold checkAttribute at hcheck
  rw [htype] at hcheck
  dsimp only at hcheck
  split at hcheck
  · simp at hcheck
  · split at hcheck
    · next hback =>
      unfold leadsBack at hback
      split at hback
      · next back joinColumn hattribute =>
        obtain ⟨found, hfound, htype⟩ := Option.map_eq_some_iff.mp hattribute
        obtain rfl : back = entity := by simpa using hback
        exact ⟨found, joinColumn, hfound, htype⟩
      · simp at hback
    · simp at hcheck

theorem exists_idType (haccepted : Catalog.of entities fallback = .ok c) {entity : String}
    (hentity : c.Knows entity) : ∃ type, c.idType entity = .ok type := by
  obtain ⟨e, he⟩ := hentity
  obtain ⟨hmem, rfl⟩ := mem_of_entity? he
  obtain ⟨type, htype, -⟩ := Outcome.bind_eq_ok_iff.mp (checkEntity_of_accepted haccepted hmem)
  exact ⟨type, htype⟩

theorem attribute?_of_idAttribute {entity : String} {id : Attribute}
    (hid : c.idAttribute entity = .ok id) : c.attribute? entity id.name = some id := by
  obtain ⟨e, -, hid⟩ := Outcome.bind_eq_ok_iff.mp hid
  split at hid
  · next a ha =>
    obtain rfl := Except.ok.inj hid
    rwa [(name_of_attribute? ha).1]
  · simp at hid

theorem exists_idAttribute {entity : String} {type : ScalarType}
    (htype : c.idType entity = .ok type) :
    ∃ id, c.idAttribute entity = .ok id ∧
      ∀ overridden, c.kindOf entity id overridden = .ok (.scalar type) := by
  obtain ⟨⟨name, idType⟩, hid, htype⟩ := Outcome.bind_eq_ok_iff.mp htype
  refine ⟨⟨name, idType⟩, hid, fun overridden => ?_⟩
  cases idType with
  | scalar found => simp [kindOf, Except.ok.inj htype]
  | parameter parameter => simp_all [kindOf]
  | association target cardinality => simp at htype

end Catalog

end EntityQuery
