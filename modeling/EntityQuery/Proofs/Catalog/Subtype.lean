import EntityQuery.Proofs.Catalog.Lineage

/-!
# Plain subtypes

An entity that is added to an accepted catalog under a new name, derived from an entity of the
catalog and without anything of its own, changes nothing for the others: their lineages, attributes
and identifiers stay, because no parent and no target had the new name.  The new entity sees what
its parent sees, and its identifier has the same type.

Its attributes are checked again as its own.  Scalars, parameters and associations with one target
pass, but an association with many targets does not: the attribute that it is mapped by leads back
to the parent, not to the new entity.

## Main definitions

* `Catalog.PlainSubtype` : a catalog with one entity more, derived from one that was there
* `Attribute.inverse?` : the target of an association with many targets, and the attribute it is
  mapped by

## Main statements

* `PlainSubtype.lineage_of_ne`, `PlainSubtype.lineage_new` : the lineages with the new entity
* `PlainSubtype.checkAttribute_new` : the check of an inherited attribute
* `PlainSubtype.accepted_iff` : which plain subtypes are accepted
-/

namespace EntityQuery

/-- The target of an association with many targets, and the attribute that it is mapped by. -/
def Attribute.inverse? (a : Attribute) : Option (String × String) :=
  match a.type with
  | .association target (.toMany mappedBy) => some (target, mappedBy)
  | _ => none

namespace Catalog

/-- One entity is added to a catalog at any place: its name is new, it is derived from an entity of
the catalog and identified by the same attribute, and it declares, overrides and binds nothing. -/
structure PlainSubtype (c extended : Catalog) (parent new : Entity) : Prop where
  inserted : ∃ before after, c.entities = before ++ after ∧
    extended.entities = before ++ new :: after
  fallback : extended.fallback = c.fallback
  fresh : new.name ∉ c.entities.map Entity.name
  known : parent ∈ c.entities
  derived : new.parent = some parent.name
  identified : new.idAttribute = parent.idAttribute
  attributes : new.attributes = []
  overrides : new.overrides = []
  typeArguments : new.typeArguments = []

namespace PlainSubtype

variable {c extended : Catalog} {parent new : Entity}

/-! ## Entities -/

theorem mem_iff (hsubtype : PlainSubtype c extended parent new) {e : Entity} :
    e ∈ extended.entities ↔ e = new ∨ e ∈ c.entities := by
  obtain ⟨before, after, hc, hextended⟩ := hsubtype.inserted
  rw [hc, hextended, List.mem_append, List.mem_cons, List.mem_append]
  tauto

theorem nodup (hsubtype : PlainSubtype c extended parent new)
    (hnames : (c.entities.map Entity.name).Nodup) : (extended.entities.map Entity.name).Nodup := by
  obtain ⟨before, after, hc, hextended⟩ := hsubtype.inserted
  have hfresh := hsubtype.fresh
  rw [hc, List.map_append] at hfresh hnames
  rw [hextended, List.map_append, List.map_cons]
  exact List.nodup_middle.mpr (List.nodup_cons.mpr ⟨hfresh, hnames⟩)

theorem name_ne (hsubtype : PlainSubtype c extended parent new) {e : Entity} (he : e ∈ c.entities) :
    e.name ≠ new.name :=
  fun hname => hsubtype.fresh (hname ▸ List.mem_map_of_mem he)

theorem name_ne_of_knows (hsubtype : PlainSubtype c extended parent new) {name : String}
    (hknows : c.Knows name) : name ≠ new.name := by
  obtain ⟨e, he⟩ := hknows
  obtain ⟨hmem, rfl⟩ := mem_of_entity? he
  exact hsubtype.name_ne hmem

theorem entity?_new (hsubtype : PlainSubtype c extended parent new) :
    extended.entity? new.name = some new := by
  obtain ⟨before, after, hc, hextended⟩ := hsubtype.inserted
  have hbefore : before.find? (·.name = new.name) = none := by
    simp only [List.find?_eq_none, decide_eq_true_eq]
    exact fun e he => hsubtype.name_ne (hc ▸ List.mem_append_left _ he)
  rw [entity?, hextended, List.find?_append, hbefore]
  simp

theorem entity?_of_ne (hsubtype : PlainSubtype c extended parent new) {name : String}
    (hname : name ≠ new.name) : extended.entity? name = c.entity? name := by
  obtain ⟨before, after, hc, hextended⟩ := hsubtype.inserted
  rw [entity?, entity?, hc, hextended, List.find?_append, List.find?_append,
    List.find?_cons_of_neg (by simpa using hname.symm)]

/-! ## Lineages -/

variable {entities : List Entity} {fallback : Option ScalarType}

/-- A chain of parents is not changed by the new entity, because none of its parents has the new
name. -/
theorem upward (hsubtype : PlainSubtype c extended parent new)
    (haccepted : Catalog.of entities fallback = .ok c) {e : Entity} (he : e ∈ c.entities) :
    Upward extended.entity? (some e) (c.lineage e.name) := by
  have hparent : ∀ x ∈ c.entities, x.parent.bind extended.entity? = x.parent.bind c.entity? := by
    intro x hx
    cases hname : x.parent with
    | none => rfl
    | some name =>
        have hclimbs : c.Climbs [x.name] x (.ok ()) :=
          (climbs_iff hx).mpr (checkLineage_of_accepted haccepted hx).symm
        cases hclimbs with
        | top hnone => simp [hname] at hnone
        | up hsome _ hnext _ =>
            obtain rfl := Option.some.inj (hname.symm.trans hsome)
            exact hsubtype.entity?_of_ne (hsubtype.name_ne_of_knows ⟨_, hnext⟩)
  have htransfer : ∀ {start chain}, Upward c.entity? start chain → (∀ x ∈ start, x ∈ c.entities) →
      Upward extended.entity? start chain := by
    intro start chain hchain
    induction hchain with
    | done => exact fun _ => .done
    | @step x chain _ ih =>
        intro hstart
        have hx : x ∈ c.entities := hstart x rfl
        refine .step ?_
        rw [hparent x hx]
        refine ih fun next hnext => ?_
        obtain ⟨name, -, hnext⟩ := Option.bind_eq_some_iff.mp hnext
        exact (mem_of_entity? hnext).1
  exact htransfer (lineage_of_accepted haccepted he).1 (by simpa using he)

theorem length_eq (hsubtype : PlainSubtype c extended parent new) :
    extended.entities.length = c.entities.length + 1 := by
  obtain ⟨before, after, hc, hextended⟩ := hsubtype.inserted
  simp [hc, hextended, Nat.add_assoc]

/-- The lineages of the others stay as they are. -/
theorem lineage_of_ne (hsubtype : PlainSubtype c extended parent new)
    (haccepted : Catalog.of entities fallback = .ok c) {name : String} (hname : name ≠ new.name) :
    extended.lineage name = c.lineage name := by
  refine ancestry_eq_of_upward ?_
    (Nat.le_trans (length_lineage_le c name) (hsubtype.length_eq ▸ Nat.le_succ _))
  rw [hsubtype.entity?_of_ne hname]
  cases hentity : c.entity? name with
  | some e =>
      obtain ⟨he, rfl⟩ := mem_of_entity? hentity
      exact hsubtype.upward haccepted he
  | none =>
      have hchain := upward_lineage haccepted name
      rw [hentity] at hchain
      rw [hchain.unique .done]
      exact .done

/-- The lineage of the new entity goes on with that of its parent. -/
theorem lineage_new (hsubtype : PlainSubtype c extended parent new)
    (haccepted : Catalog.of entities fallback = .ok c) :
    extended.lineage new.name = new :: c.lineage parent.name := by
  obtain ⟨-, hnames, -⟩ := check_of_accepted haccepted
  refine ancestry_eq_of_upward ?_ ?_
  · rw [hsubtype.entity?_new]
    refine .step ?_
    rw [hsubtype.derived, Option.bind_some,
      hsubtype.entity?_of_ne (hsubtype.name_ne hsubtype.known),
      entity?_of_mem hnames hsubtype.known]
    exact hsubtype.upward haccepted hsubtype.known
  · rw [hsubtype.length_eq, List.length_cons]
    exact Nat.succ_le_succ (length_lineage_le c _)

/-! ## Attributes -/

section

variable (hsubtype : PlainSubtype c extended parent new)
  (haccepted : Catalog.of entities fallback = .ok c)

include hsubtype haccepted

theorem attribute?_of_ne {entity : String} (hentity : entity ≠ new.name) (name : String) :
    extended.attribute? entity name = c.attribute? entity name := by
  rw [attribute?, attribute?, hsubtype.lineage_of_ne haccepted hentity]

theorem attribute?_new (name : String) :
    extended.attribute? new.name name = c.attribute? parent.name name := by
  rw [attribute?, attribute?, hsubtype.lineage_new haccepted, List.findSome?_cons]
  simp [Entity.declared?, hsubtype.attributes]

theorem parameterType_of_ne {entity : String} (hentity : entity ≠ new.name) (parameter : String) :
    extended.parameterType entity parameter = c.parameterType entity parameter := by
  rw [parameterType, parameterType, hsubtype.lineage_of_ne haccepted hentity, hsubtype.fallback]

/-- What is bound for the parent is bound for the new entity. -/
theorem parameterType_new {parameter : String} {type : ScalarType}
    (htype : c.parameterType parent.name parameter = .ok type) :
    extended.parameterType new.name parameter = .ok type := by
  rw [parameterType] at htype
  rw [parameterType, hsubtype.lineage_new haccepted, hsubtype.fallback, List.findSome?_cons,
    hsubtype.typeArguments, List.lookup_nil]
  dsimp only
  split at htype
  · next bound hbound =>
    rw [hbound]
    exact htype
  · simp at htype

theorem visible_of_ne {entity : String} (hentity : entity ≠ new.name) :
    extended.visible entity = c.visible entity := by
  rw [visible, visible, hsubtype.lineage_of_ne haccepted hentity]

theorem visible_new : extended.visible new.name = c.visible parent.name := by
  rw [visible, visible, hsubtype.lineage_new haccepted]
  simp [hsubtype.attributes]

theorem idType_of_ne {entity : String} (hentity : entity ≠ new.name) :
    extended.idType entity = c.idType entity := by
  simp only [idType, idAttribute, Catalog.entity, hsubtype.entity?_of_ne hentity,
    hsubtype.attribute?_of_ne haccepted hentity, hsubtype.parameterType_of_ne haccepted hentity]

/-- The identifier of the new entity has the type of that of its parent. -/
theorem idType_new {type : ScalarType} (htype : c.idType parent.name = .ok type) :
    extended.idType new.name = .ok type := by
  obtain ⟨-, hnames, -⟩ := check_of_accepted haccepted
  obtain ⟨id, hid, htype⟩ := Outcome.bind_eq_ok_iff.mp htype
  have hidNew : extended.idAttribute new.name = .ok id := by
    rw [idAttribute, Catalog.entity, entity?_of_mem hnames hsubtype.known] at hid
    rw [idAttribute, Catalog.entity, hsubtype.entity?_new]
    simp only [Outcome.pure_eq_ok, Outcome.ok_bind, hsubtype.identified,
      hsubtype.attribute?_new haccepted] at hid ⊢
    split at hid
    · exact hid
    · simp at hid
  rw [idType, hidNew, Outcome.ok_bind]
  cases hkind : id.type with
  | scalar found => simpa [hkind] using htype
  | parameter parameter =>
      rw [hkind] at htype
      exact hsubtype.parameterType_new haccepted htype
  | association target cardinality => simp [hkind] at htype

/-! ## Checks -/

theorem leadsBack_of_ne {target : String} (htarget : target ≠ new.name) (owner mappedBy : String) :
    extended.leadsBack owner target mappedBy = c.leadsBack owner target mappedBy := by
  rw [leadsBack, leadsBack, hsubtype.attribute?_of_ne haccepted htarget]

/-- An attribute that was sound for another entity is still sound for it. -/
theorem checkAttribute_of_ne {owner : String} (howner : owner ≠ new.name) {a : Attribute}
    (ha : c.checkAttribute owner a = .ok ()) : extended.checkAttribute owner a = .ok () := by
  unfold checkAttribute at ha ⊢
  cases htype : a.type with
  | scalar type => rfl
  | parameter parameter =>
      rw [htype] at ha
      simpa only [hsubtype.parameterType_of_ne haccepted howner] using ha
  | association target cardinality =>
      simp only [htype] at ha ⊢
      cases htarget : c.entity? target with
      | none => simp [htarget] at ha
      | some e =>
          have hne := hsubtype.name_ne_of_knows ⟨e, htarget⟩
          simpa only [hsubtype.entity?_of_ne hne, hsubtype.leadsBack_of_ne haccepted hne] using ha

/-- A sound attribute of the parent is sound for the new entity, unless it is an association with
many targets: what that is mapped by leads back to the parent. -/
theorem checkAttribute_new {a : Attribute} (ha : c.checkAttribute parent.name a = .ok ()) :
    extended.checkAttribute new.name a =
      match a.inverse? with
      | none => .ok ()
      | some (target, mappedBy) =>
          .error (.catalog (.notMappedBack new.name a.name target mappedBy)) := by
  unfold checkAttribute at ha ⊢
  unfold Attribute.inverse?
  cases htype : a.type with
  | scalar type => rfl
  | parameter parameter =>
      rw [htype] at ha
      obtain ⟨type, hbound, -⟩ := Outcome.bind_eq_ok_iff.mp ha
      simp only [hsubtype.parameterType_new haccepted hbound]
      rfl
  | association target cardinality =>
      simp only [htype] at ha ⊢
      cases htarget : c.entity? target with
      | none => simp [htarget] at ha
      | some e =>
          have hne := hsubtype.name_ne_of_knows ⟨e, htarget⟩
          have hknown : ¬ (c.entity? target).isNone := by simp [htarget]
          rw [hsubtype.entity?_of_ne hne, if_neg hknown]
          rw [if_neg hknown] at ha
          cases cardinality with
          | toOne joinColumn => rfl
          | toMany mappedBy =>
              -- it leads back to the parent, and the subtype has another name
              have hback : c.leadsBack parent.name target mappedBy = true := by
                by_contra hback
                simp [hback] at ha
              have hother : extended.leadsBack new.name target mappedBy = false := by
                rw [hsubtype.leadsBack_of_ne haccepted hne]
                unfold leadsBack at hback ⊢
                split at hback
                · next back joinColumn hattribute =>
                  obtain rfl : back = parent.name := by simpa using hback
                  simpa [hattribute] using hsubtype.name_ne hsubtype.known
                · simp at hback
              simp [hother]

theorem checkEntity_of_mem {e : Entity} (he : e ∈ c.entities) :
    extended.checkEntity e = .ok () := by
  have hne := hsubtype.name_ne he
  obtain ⟨type, htype, hattributes⟩ :=
    Outcome.bind_eq_ok_iff.mp (checkEntity_of_accepted haccepted he)
  rw [checkEntity, hsubtype.idType_of_ne haccepted hne, htype, Outcome.ok_bind,
    hsubtype.visible_of_ne haccepted hne, Outcome.forM_eq_ok_iff]
  exact fun a ha =>
    hsubtype.checkAttribute_of_ne haccepted hne (Outcome.forM_eq_ok_iff.mp hattributes a ha)

theorem checkLineage_of_mem {e : Entity} (he : e ∈ extended.entities) :
    extended.checkLineage e = .ok () := by
  obtain ⟨-, hnames, -⟩ := check_of_accepted haccepted
  rw [eq_comm, ← climbs_iff he, climbs_ok_iff (hsubtype.nodup hnames) he]
  -- what is reached from an entity that was there is still reached
  have hold : ∀ x ∈ c.entities, ∃ top, Relation.ReflTransGen extended.Parent x top ∧
      top.parent = none := by
    intro x hx
    obtain ⟨top, hreach, htop⟩ :=
      ((climbs_iff hx).mpr (checkLineage_of_accepted haccepted hx).symm).exists_top
    refine ⟨top, Relation.ReflTransGen.mono ?_ _ _ hreach, htop⟩
    rintro a b ⟨name, hname, hnext⟩
    exact ⟨name, hname, (hsubtype.entity?_of_ne (hsubtype.name_ne_of_knows ⟨b, hnext⟩)).trans hnext⟩
  rcases hsubtype.mem_iff.mp he with rfl | he
  · obtain ⟨top, hreach, htop⟩ := hold parent hsubtype.known
    refine ⟨top, hreach.head ⟨parent.name, hsubtype.derived, ?_⟩, htop⟩
    rw [hsubtype.entity?_of_ne (hsubtype.name_ne hsubtype.known),
      entity?_of_mem hnames hsubtype.known]
  · exact hold e he

/-- Whether the catalog is accepted is settled by the inherited attributes of the new entity. -/
theorem of_eq {result : Except SearchFault Unit}
    (hresult : (c.visible parent.name).forM (extended.checkAttribute new.name) = result) :
    Catalog.of extended.entities extended.fallback = result.map fun _ => extended := by
  obtain ⟨-, hnames, -⟩ := check_of_accepted haccepted
  obtain ⟨type, htype, -⟩ :=
    Outcome.bind_eq_ok_iff.mp (checkEntity_of_accepted haccepted hsubtype.known)
  have hnew : extended.checkEntity new = result := by
    rw [checkEntity, hsubtype.idType_new haccepted htype, Outcome.ok_bind,
      hsubtype.visible_new haccepted, hresult]
  have hlineages : extended.entities.forM extended.checkLineage = .ok () :=
    Outcome.forM_eq_ok_iff.mpr fun e he => hsubtype.checkLineage_of_mem haccepted he
  have hentities : extended.entities.forM extended.checkEntity = result := by
    cases result with
    | ok =>
        refine Outcome.forM_eq_ok_iff.mpr fun e he => ?_
        rcases hsubtype.mem_iff.mp he with rfl | he
        · exact hnew
        · exact hsubtype.checkEntity_of_mem haccepted he
    | error error =>
        obtain ⟨before, after, hc, hextended⟩ := hsubtype.inserted
        rw [hextended]
        refine Outcome.forM_eq_error (fun e he => ?_) hnew
        exact hsubtype.checkEntity_of_mem haccepted (hc ▸ List.mem_append_left _ he)
  have hcheck : extended.check = result := by rw [check, hlineages, Outcome.ok_bind, hentities]
  rw [Catalog.of, (Keyed.repeated?_eq_none_iff _).mpr (hsubtype.nodup hnames)]
  change (extended.check >>= fun _ => pure extended) = _
  rw [hcheck]
  cases result <;> rfl

end

/-- A plain subtype of an entity of an accepted catalog is accepted exactly if no visible attribute
of that entity is an association with many targets; otherwise the first of these is refused, because
it is not mapped back to the subtype. -/
theorem accepted_iff (haccepted : Catalog.of entities fallback = .ok c)
    (hsubtype : PlainSubtype c extended parent new) :
    (Catalog.of extended.entities extended.fallback = .ok extended ↔
      ∀ a ∈ c.visible parent.name, a.inverse? = none) ∧
    ∀ front a back target mappedBy, c.visible parent.name = front ++ a :: back →
      (∀ b ∈ front, b.inverse? = none) → a.inverse? = some (target, mappedBy) →
        Catalog.of extended.entities extended.fallback =
          .error (.catalog (.notMappedBack new.name a.name target mappedBy)) := by
  -- the parent has passed the check of its attributes, which are those of the subtype
  obtain ⟨type, -, hattributes⟩ :=
    Outcome.bind_eq_ok_iff.mp (checkEntity_of_accepted haccepted hsubtype.known)
  rw [Outcome.forM_eq_ok_iff] at hattributes
  have hone : ∀ a ∈ c.visible parent.name, extended.checkAttribute new.name a = .ok () ↔
      a.inverse? = none := by
    intro a ha
    rw [hsubtype.checkAttribute_new haccepted (hattributes a ha)]
    cases a.inverse? <;> simp
  constructor
  · rw [hsubtype.of_eq haccepted rfl]
    have hall : (c.visible parent.name).forM (extended.checkAttribute new.name) = .ok () ↔
        ∀ a ∈ c.visible parent.name, a.inverse? = none := by
      rw [Outcome.forM_eq_ok_iff]
      exact forall₂_congr hone
    rw [← hall]
    cases (c.visible parent.name).forM (extended.checkAttribute new.name) <;> simp [Except.map]
  · intro front a back target mappedBy hvisible hfront hinverse
    have hfirst : (c.visible parent.name).forM (extended.checkAttribute new.name) =
        .error (.catalog (.notMappedBack new.name a.name target mappedBy)) := by
      rw [hvisible]
      refine Outcome.forM_eq_error (fun b hb => ?_) ?_
      · exact (hone b (hvisible ▸ List.mem_append_left _ hb)).mpr (hfront b hb)
      · rw [hsubtype.checkAttribute_new haccepted (hattributes a (by simp [hvisible])), hinverse]
    exact hsubtype.of_eq haccepted hfirst

/-- A shelf has many books, and a book one shelf. -/
def shelves : Catalog where
  entities := [
    ⟨"Shelf", none, ["shelf"], none, "id",
      [⟨"id", .scalar .int64⟩, ⟨"books", .association "Book" (.toMany "shelf")⟩], [], []⟩,
    ⟨"Book", none, ["book"], none, "id",
      [⟨"id", .scalar .int64⟩, ⟨"title", .scalar .text⟩,
        ⟨"shelf", .association "Shelf" (.toOne "shelf_id")⟩], [], []⟩]
  fallback := none

/-- An entity of its own table that is derived from another one and has nothing else of its own. -/
def plain (name table parent : String) : Entity :=
  ⟨name, some table, [], some parent, "id", [], [], []⟩

/-- A plain subtype of books is accepted. -/
theorem accepted_iff_novel :
    Catalog.of shelves.entities none = .ok shelves ∧
      PlainSubtype shelves ⟨shelves.entities ++ [plain "Novel" "novels" "Book"], none⟩
        shelves.entities[1] (plain "Novel" "novels" "Book") ∧
      Catalog.of (shelves.entities ++ [plain "Novel" "novels" "Book"]) none =
        .ok ⟨shelves.entities ++ [plain "Novel" "novels" "Book"], none⟩ := by
  have haccepted : Catalog.of shelves.entities none = .ok shelves := by rfl
  have hsubtype : PlainSubtype shelves ⟨shelves.entities ++ [plain "Novel" "novels" "Book"], none⟩
      shelves.entities[1] (plain "Novel" "novels" "Book") :=
    ⟨⟨_, [], (List.append_nil _).symm, rfl⟩, rfl, by decide, by decide, rfl, rfl, rfl, rfl, rfl⟩
  exact ⟨haccepted, hsubtype, (accepted_iff haccepted hsubtype).1.mpr (by decide)⟩

/-- A plain subtype of shelves is refused, although the catalog is accepted without it. -/
theorem refused_cabinet :
    Catalog.of shelves.entities none = .ok shelves ∧
      PlainSubtype shelves ⟨shelves.entities ++ [plain "Cabinet" "cabinets" "Shelf"], none⟩
        shelves.entities[0] (plain "Cabinet" "cabinets" "Shelf") ∧
      ¬ ∃ accepted, Catalog.of (shelves.entities ++ [plain "Cabinet" "cabinets" "Shelf"]) none =
        .ok accepted := by
  refine ⟨rfl, ⟨⟨_, [], (List.append_nil _).symm, rfl⟩, rfl, by decide, by decide, rfl, rfl, rfl,
    rfl, rfl⟩, ?_⟩
  have hrefused : Catalog.of (shelves.entities ++ [plain "Cabinet" "cabinets" "Shelf"]) none =
      .error (.catalog (.notMappedBack "Cabinet" "books" "Book" "shelf")) := by rfl
  rintro ⟨accepted, haccepted⟩
  simp [hrefused] at haccepted

end PlainSubtype

end Catalog

end EntityQuery
