import EntityQuery.Proofs.Catalog.Lineage
import EntityQuery.Proofs.Search.Fields

/-!
# Listing and look-up of attributes

All attributes of an entity are listed from the root of its lineage downward, where a declaration
takes the place of one of the same name; a single attribute is looked up from the entity upward,
where the first declaration counts.  Both give the most derived declaration of each name, unless an
entity repeats a name: then the list has the last one of the entity and look-up finds the first.

What an entity declares is put into the list of the entity that it is derived from.  So that list is
the beginning of the longer one, as far as names go: what is inherited keeps its place, and what is
first declared further down comes behind it.

The scalar fields of an entity go by the list and are looked up one by one.

## Main definitions

* `Catalog.listed` : the attributes that a chain of entities declares, from its end
* `Catalog.Listed` : the list of attributes agrees with look-up, with inherited lists and with the
  scalar fields

## Main statements

* `exists_map_listed_append` : the names of a chain begin with those of its upper part
* `lineage_of_mem` : the lineage of an entity ends with that of each entity in it
* `listed_of_accepted` : in an accepted catalog all of this holds of every entity
-/

namespace EntityQuery

theorem Upward.suffix {entity? : String → Option Entity} {start : Option Entity}
    {below above : List Entity} {e : Entity} (hchain : Upward entity? start (below ++ e :: above)) :
    Upward entity? (some e) (e :: above) := by
  induction below generalizing start with
  | nil =>
      cases hchain with
      | step hchain => exact .step hchain
  | cons first below ih =>
      cases hchain with
      | step hchain => exact ih hchain

namespace Catalog

/-- The attributes that a chain of entities declares, from its end: one that is declared again is at
its first place. -/
def listed (chain : List Entity) : List Attribute :=
  Keyed.ofList Attribute.name (chain.reverse.flatMap Entity.attributes)

variable {c : Catalog} {entities : List Entity} {fallback : Option ScalarType}

theorem visible_eq_listed (c : Catalog) (entity : String) :
    c.visible entity = listed (c.lineage entity) := rfl

/-! ## Places -/

/-- The names of a chain begin with those of its upper part. -/
theorem exists_map_listed_append (below above : List Entity) :
    ∃ rest, (listed (below ++ above)).map Attribute.name =
      (listed above).map Attribute.name ++ rest := by
  rw [listed, List.reverse_append, List.flatMap_append, Keyed.ofList, List.foldl_append]
  exact Keyed.exists_map_foldl_put _ _ _

theorem mem_map_listed_iff {chain : List Entity} {name : String} :
    name ∈ (listed chain).map Attribute.name ↔
      ∃ e ∈ chain, name ∈ e.attributes.map Attribute.name := by
  rw [listed, Keyed.mem_map_ofList, List.map_flatMap, List.mem_flatMap]
  simp only [List.mem_reverse]

/-- What is declared in the upper part of a chain comes before what is declared in the lower part
only. -/
theorem idxOf_lt_of_listed {below above : List Entity} {x y : String}
    (hx : x ∈ (listed above).map Attribute.name) (hy : y ∉ (listed above).map Attribute.name) :
    ((listed (below ++ above)).map Attribute.name).idxOf x <
      ((listed (below ++ above)).map Attribute.name).idxOf y := by
  obtain ⟨rest, hnames⟩ := exists_map_listed_append below above
  rw [hnames, List.idxOf_append_of_mem hx, List.idxOf_append_of_notMem hy]
  exact Nat.lt_add_right _ (List.idxOf_lt_length_of_mem hx)

/-- The lineage of an entity ends with that of each entity in it. -/
theorem lineage_of_mem (haccepted : Catalog.of entities fallback = .ok c) {entity : String}
    {ancestor : Entity} {below above : List Entity}
    (hlineage : c.lineage entity = below ++ ancestor :: above) :
    c.lineage ancestor.name = ancestor :: above := by
  obtain ⟨-, hnames, -⟩ := check_of_accepted haccepted
  have hancestor : ancestor ∈ c.lineage entity := by
    rw [hlineage]
    exact List.mem_append_right _ List.mem_cons_self
  have hchain := upward_lineage haccepted ancestor.name
  rw [entity?_of_mem hnames (mem_of_mem_lineage hancestor)] at hchain
  have hlonger := upward_lineage haccepted entity
  rw [hlineage] at hlonger
  exact hchain.unique hlonger.suffix

/-! ## Listing against look-up -/

theorem exists_split_of_attribute? {entity name : String} {a : Attribute}
    (ha : c.attribute? entity name = some a) :
    ∃ below e above, c.lineage entity = below ++ e :: above ∧ e.declared? name = some a ∧
      ∀ lower ∈ below, lower.declared? name = none :=
  List.findSome?_eq_some_iff.mp ha

/-- The list of the attributes of an entity agrees with look-up by name, with the lists of the
entities that it is derived from, and with its scalar fields. -/
structure Listed (c : Catalog) (entity : String) : Prop where
  /-- No name is listed twice. -/
  distinct : ((c.visible entity).map Attribute.name).Nodup
  /-- A name is listed exactly if look-up finds it. -/
  known : ∀ name, name ∈ (c.visible entity).map Attribute.name ↔
    (c.attribute? entity name).isSome = true
  /-- What is listed is what look-up finds. -/
  found : ∀ a ∈ c.visible entity, c.attribute? entity a.name = some a
  /-- What is listed is the most derived declaration of its name. -/
  derived : ∀ a ∈ c.visible entity, ∃ below e above, c.lineage entity = below ++ e :: above ∧
    e.declared? a.name = some a ∧ ∀ lower ∈ below, lower.declared? a.name = none
  /-- The list begins with that of every entity that this one is derived from. -/
  inherited : ∀ ancestor ∈ c.lineage entity,
    (c.visible ancestor.name).map Attribute.name <+: (c.visible entity).map Attribute.name
  /-- What is declared further up comes before what is declared further down only. -/
  before : ∀ below above, c.lineage entity = below ++ above → ∀ x y,
    (∃ e ∈ above, x ∈ e.attributes.map Attribute.name) →
    (∃ e ∈ below, y ∈ e.attributes.map Attribute.name) →
      (∀ e ∈ above, y ∉ e.attributes.map Attribute.name) →
        ((c.visible entity).map Attribute.name).idxOf x <
          ((c.visible entity).map Attribute.name).idxOf y
  /-- The scalar fields are those of the attributes that are no associations or are overridden, in
  their order. -/
  scalars : ∃ fields, c.scalarFields entity none = .ok fields ∧
    List.Forall₂ (fun a f => c.field entity (.single a.name) = .ok f ∧ f.name = a.name)
      ((c.visible entity).filter (c.isOwn entity)) fields

theorem scalarFields_of_accepted (haccepted : Catalog.of entities fallback = .ok c)
    (hnames : c.Unrepeated) (entity : String) :
    ∃ fields, c.scalarFields entity none = .ok fields ∧
      List.Forall₂ (fun a f => c.field entity (.single a.name) = .ok f ∧ f.name = a.name)
        ((c.visible entity).filter (c.isOwn entity)) fields := by
  have htarget : c.targetOf entity none = .ok entity := rfl
  obtain ⟨fields, hfields⟩ := Planner.exists_scalarFields htarget
    fun a ha => exists_field_of_visible haccepted hnames ha
  have hown := Outcome.mapM_eq_ok_iff.mp (Planner.mapM_of_scalarFields hnames hfields)
  refine ⟨fields, hfields, hown.imp fun a f hf => ⟨hf, ?_⟩⟩
  rw [Field.name, path_of_field hf]
  rfl

/-- In an accepted catalog in which no entity repeats the name of an attribute, listing and look-up
of the attributes of every entity agree. -/
theorem listed_of_accepted (haccepted : Catalog.of entities fallback = .ok c)
    (hnames : c.Unrepeated) (entity : String) : c.Listed entity where
  distinct := Keyed.nodup_map_ofList _ _
  known name := mem_map_visible_iff
  found a ha := visible_of_mem hnames ha
  derived a ha := exists_split_of_attribute? (visible_of_mem hnames ha)
  inherited ancestor hancestor := by
    obtain ⟨below, above, hlineage⟩ := List.append_of_mem hancestor
    obtain ⟨rest, hrest⟩ := exists_map_listed_append below (ancestor :: above)
    rw [visible_eq_listed, visible_eq_listed, lineage_of_mem haccepted hlineage, hlineage]
    exact ⟨rest, hrest.symm⟩
  before below above hlineage x y hx _ hy := by
    rw [visible_eq_listed, hlineage]
    refine idxOf_lt_of_listed (mem_map_listed_iff.mpr hx) fun hmem => ?_
    obtain ⟨e, he, hname⟩ := mem_map_listed_iff.mp hmem
    exact hy e he hname
  scalars := scalarFields_of_accepted haccepted hnames entity

/-- Novels are works, and works are records.  All three have a note, each of another type; the
author of a work is a record, and that of a novel is stored in another column. -/
def records : List Entity := [
  ⟨"Record", none, [], none, "id", [⟨"id", .scalar .int64⟩, ⟨"note", .scalar .text⟩], [], []⟩,
  ⟨"Work", none, [], some "Record", "id",
    [⟨"author", .association "Record" (.toOne "author_id")⟩, ⟨"note", .scalar .int32⟩], [], []⟩,
  ⟨"Novel", none, [], some "Work", "id", [⟨"pages", .scalar .int32⟩, ⟨"note", .scalar .date⟩],
    [("author", "writer")], []⟩]

/-- The note of a novel is a date and stands where that of a record does; the author of a novel is a
scalar field. -/
theorem listed_of_accepted_records :
    ∃ c, Catalog.of records none = .ok c ∧ c.Unrepeated ∧ c.Listed "Novel" ∧
      (c.visible "Novel").map Attribute.name = ["id", "note", "author", "pages"] ∧
      c.attribute? "Novel" "note" = some ⟨"note", .scalar .date⟩ ∧
      (c.visible "Work").filter (c.isOwn "Work") =
        [⟨"id", .scalar .int64⟩, ⟨"note", .scalar .int32⟩] ∧
      (c.visible "Novel").filter (c.isOwn "Novel") = c.visible "Novel" := by
  have haccepted : Catalog.of records none = .ok ⟨records, none⟩ := by rfl
  have hnames : Unrepeated ⟨records, none⟩ := by decide
  exact ⟨_, haccepted, hnames, listed_of_accepted haccepted hnames "Novel", by decide, by decide,
    by decide, by decide⟩

end Catalog

end EntityQuery
