import EntityQuery.Proofs.Filter.Complete
import EntityQuery.Proofs.Search.Faults
import EntityQuery.Proofs.Search.Predicate
import EntityQuery.Proofs.Search.Shown

/-!
# Requests to an accepted catalog

Reading a request and planning it look up entities, identifiers, fields and associations one by one.
In an accepted catalog in which no entity repeats the name of an attribute all of these are there,
so neither fails because of the catalog: what can be wrong is in the request.

Without the condition on names a declaration that is never checked can be found.  The checks see the
last declaration of a name within an entity, look-up finds the first.

## Main definitions

* `Request.OfCatalog` : the request tests fields of the catalog
* `Catalog.Complete` : nothing that is asked of the catalog fails because of it

## Main statements

* `clears_read` : reading a request
* `clears_plan` : planning a request
* `Catalog.complete_of_accepted` : an accepted catalog is never at fault
-/

namespace EntityQuery

/-- The filters and parameters test fields that paths of the catalog lead to, from any entity. -/
def Request.OfCatalog (c : Catalog) (r : Request) : Prop :=
  ∀ f ∈ r.fields, ∃ source path, c.field source path = .ok f.field

variable {c : Catalog} {entities : List Entity} {fallback : Option ScalarType}
  {root marker : String}

theorem Request.Sound.ofCatalog {r : Request} (hsound : r.Sound c root) : r.OfCatalog c :=
  fun f hf => ⟨root, f.field.path, (hsound.resolved f hf).field⟩

/-! ## Reading -/

theorem Aggregates.clears_normalize (a : Aggregates) (selected : List String) :
    Clears (a.normalize marker selected) := by
  unfold normalize
  dsimp only
  split
  · split
    · exact .of_error (by simp)
    · exact .of_ok rfl
  · exact .of_ok rfl

/-- Reading a request does not fail because of the catalog if no path does. -/
theorem WireRequest.clears_read (hfield : ∀ path, Clears (c.field root path)) (wire : WireRequest) :
    Clears (wire.read c root marker) := by
  have hgroups : Clears (readGroups c root wire.filters) := by
    refine (Clears.mapM fun json _ => FilterReader.clears_read hfield json).bind fun groups _ => ?_
    exact .of_ok rfl
  have hparameters : Clears (readParameters c root marker wire.parameters) := by
    refine (Clears.mapM fun p _ => ?_).bind fun parameters _ =>
      Parameter.clears_readAll hfield parameters
    dsimp only
    unfold readParameter
    split
    · exact .of_ok rfl
    · exact .of_error (by simp)
  refine hgroups.bind fun groups _ => hparameters.bind fun parameters _ => ?_
  dsimp only
  split
  · refine (Aggregates.clears_normalize _ _).bind fun aggregates _ => ?_
    exact .of_ok rfl
  · exact .of_ok rfl

/-! ## Shown columns -/

namespace Planner

theorem foreign_catalog : Foreign SearchFault.catalog := ⟨by simp, by simp, by simp⟩

theorem clears_entity (hroot : c.Knows root) : Clears (c.entity root) := by
  obtain ⟨e, he⟩ := hroot
  exact .of_ok (a := e) (by simp [Catalog.entity, he])

theorem clears_labelled {α β : Type} {make : α → Except SearchFault β} (label : β → String)
    (hmake : ∀ a, Clears (make a)) (items : List α) (seen : List String) :
    Clears (labelled make label items seen) := by
  induction items generalizing seen with
  | nil => exact .of_ok rfl
  | cons a items ih =>
      rw [labelled]
      refine (hmake a).bind fun b _ => ?_
      split
      · exact .of_error (by simp)
      · refine (ih _).bind fun rest _ => ?_
        exact .of_ok rfl

theorem clears_shown (haccepted : Catalog.of entities fallback = .ok c) (hnames : c.Unrepeated)
    (hroot : c.Knows root) (r : Request) : Clears (shown c root marker r) := by
  have hentity := clears_entity hroot
  have hfield := Catalog.clears_field haccepted hnames root
  obtain ⟨id, hid⟩ := Catalog.exists_idAttribute_of_knows haccepted hroot
  unfold shown
  split
  · refine Clears.bind (foreign_catalog.showEntity hentity hfield (.of_ok hid)) fun shown _ => ?_
    exact .of_ok rfl
  · refine Clears.bind (foreign_catalog.select hentity hfield r.selections) fun columns _ => ?_
    split
    · refine Clears.bind ?_ fun shown _ => .of_ok rfl
      have hgroups (path : String) : Clears (groupColumn c root marker columns path) :=
        foreign_catalog.groupColumn hentity hfield columns path
      have hitems (call : AggregateFn × String) :
          Clears (aggregateItem c root marker call.1 call.2) :=
        foreign_catalog.aggregateItem hentity hfield call.1 call.2
      refine (clears_labelled _ hgroups _ _).bind fun groups _ => ?_
      refine (clears_labelled _ hitems _ _).bind fun items _ => ?_
      exact .of_ok rfl
    · refine Clears.bind ?_ fun shown _ => .of_ok rfl
      unfold showRows checkLabels
      split
      · exact .of_error (by simp)
      · exact .of_ok rfl

/-! ## Joins -/

/-- A step along an association of the catalog becomes a join. -/
theorem exists_join (haccepted : Catalog.of entities fallback = .ok c) (hnames : c.Unrepeated)
    {step : JoinStep} (hstep : step.Known c) : ∃ j, join c step = .ok j := by
  obtain ⟨a, ha, htype⟩ := hstep
  have hsource := Catalog.knows_of_attribute? ha
  have htarget := Catalog.knows_target haccepted hnames ha htype
  obtain ⟨e, he⟩ := htarget
  have hentity : c.entity step.target = .ok e := by simp [Catalog.entity, he]
  unfold join
  dsimp only
  cases hcardinality : step.cardinality with
  | toOne joinColumn =>
      obtain ⟨id, hid⟩ := Catalog.exists_idAttribute_of_knows haccepted ⟨e, he⟩
      exact ⟨_, by simp [hid, hentity]; rfl⟩
  | toMany mappedBy =>
      -- the attribute that leads back is a field of the target
      rw [hcardinality] at htype
      obtain ⟨back, joinColumn, hback, -⟩ := Catalog.leadsBack_of_toMany haccepted hnames ha htype
      obtain ⟨hmem, rfl⟩ := (Catalog.attribute?_eq_some_iff hnames).mp hback
      obtain ⟨f, hf⟩ := Catalog.exists_field_of_visible haccepted hnames hmem
      obtain ⟨id, hid⟩ := Catalog.exists_idAttribute_of_knows haccepted hsource
      exact ⟨_, by simp [hid, hf, hentity]; rfl⟩

/-! ## Plans -/

/-- Planning a request does not fail because of the catalog. -/
theorem clears_plan (haccepted : Catalog.of entities fallback = .ok c) (hnames : c.Unrepeated)
    (hroot : c.Knows root) (hooks : FieldHooks) {r : Request} (hr : r.OfCatalog c)
    (window : Option Window) : Clears (plan c root marker hooks r window) := by
  obtain ⟨id, hid⟩ := Catalog.exists_idAttribute_of_knows haccepted hroot
  obtain ⟨type, htype⟩ := Catalog.exists_idType haccepted hroot
  refine (clears_entity hroot).bind fun e _ => ?_
  rw [hid, Outcome.ok_bind]
  refine Clears.bind (foreign_catalog.predicate hooks r) fun compiled hcompiled => ?_
  refine (clears_shown haccepted hnames hroot r).bind fun shown hshown => ?_
  -- every join of the plan stems from a field of the catalog
  obtain ⟨fields, hrests⟩ := exists_rests hnames htype hshown
  have hsteps : ∀ step ∈ JoinStep.merge compiled.joins shown.1.joins, step.Known c := by
    intro step hstep
    obtain ⟨more, hmerge, hmore⟩ := Keyed.exists_addAll JoinStep.path compiled.joins shown.1.joins
    rw [JoinStep.merge, hmerge, Request.joins_of_predicate hcompiled] at hstep
    rcases List.mem_append.mp hstep with hstep | hstep
    · obtain ⟨first, hfirst, hstems⟩ := Keyed.exists_addAll JoinStep.path []
        (r.fields.flatMap fun f => f.field.joins)
      rw [Request.joinSteps, JoinStep.merge, hfirst, List.nil_append] at hstep
      obtain ⟨f, hf, hjoin⟩ := List.mem_flatMap.mp (hstems step hstep)
      obtain ⟨source, path, hfield⟩ := hr f hf
      exact Catalog.known_of_field hfield step hjoin
    · have hjoin := hmore step hstep
      rw [hrests.joins] at hjoin
      obtain ⟨f, hf, hjoin⟩ := List.mem_flatMap.mp hjoin
      exact Catalog.known_of_field (hrests.resolved f hf) step hjoin
  obtain ⟨joins, hjoins⟩ := Outcome.exists_mapM_eq_ok fun step hstep =>
    exists_join haccepted hnames (hsteps step hstep)
  dsimp only
  rw [hjoins]
  exact .of_ok rfl

end Planner

/-! ## Accepted catalogs -/

namespace Catalog

/-- The catalog is never at fault: it has a store, and for every entity of it as the root neither
paths nor filters nor requests fail because of the catalog. -/
structure Complete (c : Catalog) : Prop where
  store : ∃ s, Store.ofCatalog c = .ok s
  field : ∀ root, c.Knows root → ∀ path, Clears (c.field root path)
  fieldOf : ∀ root, c.Knows root → ∀ text, Clears (c.fieldOf root text)
  scalarFields : ∀ root, c.Knows root → ∀ path, Clears (c.scalarFields root path)
  filter : ∀ root, c.Knows root → ∀ json, Clears (FilterReader.read c root json)
  read : ∀ root, c.Knows root → ∀ marker (wire : WireRequest), Clears (wire.read c root marker)
  plan : ∀ root, c.Knows root → ∀ marker hooks (r : Request) window, r.OfCatalog c →
    Clears (Planner.plan c root marker hooks r window)
  request : ∀ root, c.Knows root → ∀ marker hooks (wire : WireRequest) window,
    wire.isProper = true →
    Clears (wire.read c root marker >>= fun r => Planner.plan c root marker hooks r window)

/-- A catalog that is accepted is never at fault, if no entity repeats the name of an attribute. -/
theorem complete_of_accepted (haccepted : Catalog.of entities fallback = .ok c)
    (hnames : c.Unrepeated) :
    c.Complete where
  store := Store.exists_ofCatalog haccepted hnames
  field root _ path := clears_field haccepted hnames root path
  fieldOf root _ text := clears_fieldOf haccepted hnames root text
  scalarFields root _ path := clears_scalarFields haccepted hnames root path
  filter root _ json := FilterReader.clears_read (clears_field haccepted hnames root) json
  read root _ _ wire := WireRequest.clears_read (clears_field haccepted hnames root) wire
  plan _ hroot _ hooks _ window hr := Planner.clears_plan haccepted hnames hroot hooks hr window
  request root hroot _ hooks wire window hwire :=
    (WireRequest.clears_read (clears_field haccepted hnames root) wire).bind fun _ hread =>
      Planner.clears_plan haccepted hnames hroot hooks
        (WireRequest.sound_of_read hwire hread).ofCatalog window

/-- Tags with an identifier and some more attributes. -/
def tags (attributes : List Attribute) : Catalog :=
  ⟨[⟨"Tag", none, [], none, "id", ⟨"id", .scalar .int64⟩ :: attributes, [], []⟩], none⟩

theorem complete_tags :
    let c := tags [⟨"code", .scalar .text⟩]
    Catalog.of c.entities none = .ok c ∧ c.Unrepeated ∧ c.Complete := by
  intro c
  have haccepted : Catalog.of c.entities none = .ok c := rfl
  have hnames : c.Unrepeated := by decide
  exact ⟨haccepted, hnames, complete_of_accepted haccepted hnames⟩

/-- The first of two declarations of a name is never checked, and it is the one that look-up
finds. -/
theorem incomplete_tags :
    let c := tags [⟨"code", .parameter "K"⟩, ⟨"code", .scalar .text⟩]
    Catalog.of c.entities none = .ok c ∧ c.Knows "Tag" ∧
      c.field "Tag" (.single "code") = .error (.catalog (.unboundParameter "K" "Tag")) ∧
      ∀ s, Store.ofCatalog c ≠ .ok s := by
  intro c
  refine ⟨rfl, ⟨_, rfl⟩, rfl, fun s hs => ?_⟩
  cases hs

end Catalog

end EntityQuery
