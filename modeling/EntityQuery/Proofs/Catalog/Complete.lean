import EntityQuery.Proofs.Store.Columns
import EntityQuery.Store.Basic

/-!
# What an accepted catalog answers

A catalog is checked once, when it is accepted.  If no entity repeats the name of an attribute the
checks have seen every declaration that a look-up can find, so a look-up in an accepted catalog
never fails because the catalog is at fault: paths either lead to a field or cannot be followed, and
every entity gets its table.

## Main definitions

* `Clears` : a computation does not fail because of the catalog
* `JoinStep.Known` : a step goes along an association of the catalog

## Main statements

* `clears_field`, `clears_scalarFields` : paths and fields of an accepted catalog
* `known_of_field` : the joins of a field go along associations of the catalog
* `Store.exists_ofCatalog` : an accepted catalog has a store
-/

namespace EntityQuery

/-- The computation does not fail because of the catalog. -/
def Clears {α : Type} (x : Except SearchFault α) : Prop := ∀ fault, x ≠ .error (.catalog fault)

namespace Clears

variable {α β : Type} {x : Except SearchFault α}

theorem of_ok {a : α} (hx : x = .ok a) : Clears x := Outcome.Avoids.of_ok hx

theorem bind {f : α → Except SearchFault β} (hx : Clears x) (hf : ∀ a, x = .ok a → Clears (f a)) :
    Clears (x >>= f) :=
  Outcome.Avoids.bind hx hf

theorem mapM {f : α → Except SearchFault β} {xs : List α} (hf : ∀ a ∈ xs, Clears (f a)) :
    Clears (xs.mapM f) :=
  Outcome.Avoids.mapM hf

theorem of_error {fault : SearchFault} (hfault : ∀ other, fault ≠ .catalog other) :
    Clears (throw fault : Except SearchFault α) :=
  Outcome.Avoids.of_error hfault

end Clears

/-- The step goes along an association of the catalog. -/
def JoinStep.Known (c : Catalog) (step : JoinStep) : Prop :=
  ∃ a, c.attribute? step.source step.association = some a ∧
    a.type = .association step.target step.cardinality

namespace Catalog

variable {c : Catalog} {entities : List Entity} {fallback : Option ScalarType}

/-! ## Fields -/

/-- An attribute that is found has a kind. -/
theorem exists_kindOf (haccepted : Catalog.of entities fallback = .ok c) (hnames : c.Unrepeated)
    {entity name : String} {a : Attribute} (ha : c.attribute? entity name = some a)
    (overridden : Bool) : ∃ kind, c.kindOf entity a overridden = .ok kind := by
  have hcheck := checkAttribute_of_attribute? haccepted hnames ha
  unfold kindOf
  unfold checkAttribute at hcheck
  cases htype : a.type with
  | scalar type => exact ⟨_, rfl⟩
  | parameter parameter =>
      rw [htype] at hcheck
      obtain ⟨type, hparameter, -⟩ := Outcome.bind_eq_ok_iff.mp hcheck
      exact ⟨.scalar type, by simp [hparameter]⟩
  | association target cardinality =>
      obtain ⟨type, hid⟩ := exists_idType haccepted (knows_target haccepted hnames ha htype)
      cases overridden with
      | true => exact ⟨.scalar type, by simp [hid]⟩
      | false => exact ⟨_, rfl⟩

theorem clears_field (haccepted : Catalog.of entities fallback = .ok c) (hnames : c.Unrepeated)
    (root : String) (path : Path) : Clears (c.field root path) := by
  unfold field
  split
  · exact .of_error (by simp)
  · next joins owner hfollow =>
    split
    · exact .of_error (by simp)
    · next a ha =>
      obtain ⟨kind, hkind⟩ :=
        exists_kindOf haccepted hnames ha (c.override? owner path.field).isSome
      dsimp only
      rw [hkind]
      exact .of_ok rfl

theorem clears_fieldOf (haccepted : Catalog.of entities fallback = .ok c) (hnames : c.Unrepeated)
    (root text : String) : Clears (c.fieldOf root text) := by
  unfold fieldOf
  split
  · exact clears_field haccepted hnames root _
  · exact .of_error (by simp)

/-- The scalar fields of an entity are found by paths. -/
theorem avoids_scalarFields {ι : Type} {faults : ι → SearchFault} {root : String}
    (hother : ∀ entity path i, SearchFault.unresolvable entity path ≠ faults i)
    (hfield : ∀ path, Outcome.Avoids faults (c.field root path)) (path : Option Path) :
    Outcome.Avoids faults (c.scalarFields root path) := by
  have htarget : Outcome.Avoids faults (c.targetOf root path) := by
    unfold targetOf
    split
    · exact .of_ok rfl
    · refine (hfield _).bind fun f _ => ?_
      split
      · exact .of_ok rfl
      · exact .of_error (hother _ _)
  refine htarget.bind fun target _ => ?_
  refine (Outcome.Avoids.mapM fun a _ => hfield _).bind fun fields _ => ?_
  exact .of_ok rfl

theorem clears_scalarFields (haccepted : Catalog.of entities fallback = .ok c)
    (hnames : c.Unrepeated) (root : String) (path : Option Path) :
    Clears (c.scalarFields root path) :=
  avoids_scalarFields (by simp) (clears_field haccepted hnames root) path

theorem exists_field_of_visible (haccepted : Catalog.of entities fallback = .ok c)
    (hnames : c.Unrepeated) {entity : String} {a : Attribute} (ha : a ∈ c.visible entity) :
    ∃ f, c.field entity (.single a.name) = .ok f := by
  have hattribute := visible_of_mem hnames ha
  obtain ⟨kind, hkind⟩ :=
    exists_kindOf haccepted hnames hattribute (c.override? entity a.name).isSome
  exact ⟨_, (field_single_eq_ok_iff hattribute).mpr ⟨kind, hkind, rfl⟩⟩

/-! ## Joins -/

theorem known_of_follow {names : List String} {entity : String} {before : List String}
    {joins : List JoinStep} {owner : String}
    (hfollow : c.follow entity before names = some (joins, owner)) :
    ∀ step ∈ joins, step.Known c := by
  induction names generalizing entity before joins with
  | nil =>
      obtain ⟨rfl, rfl⟩ := Prod.mk.inj (Option.some.inj hfollow)
      simp
  | cons name names ih =>
      rw [follow] at hfollow
      split at hfollow
      · next target cardinality hattribute hoverride =>
        obtain ⟨a, ha, htype⟩ := Option.map_eq_some_iff.mp hattribute
        obtain ⟨⟨rest, last⟩, hrest, heq⟩ := Option.map_eq_some_iff.mp hfollow
        obtain ⟨rfl, rfl⟩ := Prod.mk.inj heq
        rw [List.forall_mem_cons]
        exact ⟨⟨a, ha, htype⟩, ih hrest⟩
      · simp at hfollow

/-- The joins of a field go along associations of the catalog. -/
theorem known_of_field {root : String} {path : Path} {f : Field}
    (hfield : c.field root path = .ok f) : ∀ step ∈ f.joins, step.Known c := by
  obtain ⟨joins, owner, a, kind, hfollow, -, -, rfl⟩ := field_eq_ok_iff.mp hfield
  exact known_of_follow hfollow

/-! ## Tables -/

theorem exists_idAttribute_of_knows (haccepted : Catalog.of entities fallback = .ok c)
    {entity : String} (hentity : c.Knows entity) : ∃ id, c.idAttribute entity = .ok id := by
  obtain ⟨type, htype⟩ := exists_idType haccepted hentity
  obtain ⟨id, hid, -⟩ := exists_idAttribute htype
  exact ⟨id, hid⟩

theorem exists_storedColumn? (haccepted : Catalog.of entities fallback = .ok c)
    (hnames : c.Unrepeated) {entity : String} {a : Attribute} (ha : a ∈ c.visible entity) :
    ∃ stored, c.storedColumn? entity a = .ok stored := by
  obtain ⟨f, hf⟩ := exists_field_of_visible haccepted hnames ha
  unfold storedColumn?
  rw [hf, Outcome.ok_bind]
  cases htype : a.type with
  | scalar type => cases f.type? <;> exact ⟨_, rfl⟩
  | parameter parameter => cases f.type? <;> exact ⟨_, rfl⟩
  | association target cardinality =>
      have htarget := knows_target haccepted hnames (visible_of_mem hnames ha) htype
      obtain ⟨id, hid⟩ := exists_idAttribute_of_knows haccepted htarget
      obtain ⟨type, hidType⟩ := exists_idType haccepted htarget
      cases f.type? with
      | some found => exact ⟨_, by simp [hid]; rfl⟩
      | none =>
          cases cardinality with
          | toOne joinColumn => exact ⟨_, by simp [hid, hidType]; rfl⟩
          | toMany mappedBy => exact ⟨none, rfl⟩

theorem exists_tableColumns (haccepted : Catalog.of entities fallback = .ok c)
    (hnames : c.Unrepeated) (entity : String) : ∃ columns, c.tableColumns entity = .ok columns := by
  have hstored : ∀ a ∈ c.visible entity, ∃ stored, c.storedColumn? entity a = .ok stored :=
    fun _ ha => exists_storedColumn? haccepted hnames ha
  obtain ⟨columns, hcolumns⟩ := Outcome.exists_mapM_eq_ok hstored
  exact ⟨distinctColumns (columns.filterMap id), by simp [tableColumns, hcolumns]⟩

end Catalog

/-- An accepted catalog has a store. -/
theorem Store.exists_ofCatalog {c : Catalog} {entities : List Entity} {fallback : Option ScalarType}
    (haccepted : Catalog.of entities fallback = .ok c) (hnames : c.Unrepeated) :
    ∃ s, Store.ofCatalog c = .ok s := by
  have hadd (s : Store) (es : List Entity) : ∃ next, es.foldlM (addEntity c) s = .ok next := by
    induction es generalizing s with
    | nil => exact ⟨s, rfl⟩
    | cons e es ih =>
        obtain ⟨columns, hcolumns⟩ := Catalog.exists_tableColumns haccepted hnames e.name
        rw [List.foldlM_cons, addEntity, hcolumns]
        exact ih _
  exact hadd ⟨[], []⟩ c.entities

end EntityQuery
