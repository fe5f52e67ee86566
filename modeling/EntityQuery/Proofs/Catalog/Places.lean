import EntityQuery.Filter.Predicate
import EntityQuery.Proofs.Catalog.Attributes
import Mathlib.Data.List.Induction
import Mathlib.Tactic.Set

/-!
# Places that joins lead to

Every table of a joined row stands at a place: the names that lead to it from the root, and the
entity there.  Joins are closed if each of them continues from a place that is there already; then
the places are those that paths of the catalog lead to, each once.

The joins of one path are closed, and merging keeps that: a join whose path is there already leads
to the place that is there, because names without points can be read off the text of a path, and
names lead to one entity only.

## Main definitions

* `Place` : names and the entity that they lead to
* `Closed` : joins in an order in which each has something to continue from, with their places

## Main statements

* `Closed.exists_follow` : the names of a place lead to its entity
* `closed_of_follow` : the joins of a path are closed
* `Closed.exists_merge` : merging keeps joins closed and loses no place
* `Closed.exists_mergeFields` : merging the joins of some fields leads to the places of the fields
-/

namespace EntityQuery

/-! ## Following names -/

namespace Catalog

variable {c : Catalog} {root : String}

/-- What the field of a path is. -/
theorem field_eq_ok_iff {path : Path} {f : Field} :
    c.field root path = .ok f ↔
      ∃ joins owner a kind, c.follow root [] path.steps = some (joins, owner) ∧
        c.attribute? owner path.field = some a ∧
        c.kindOf owner a (c.override? owner path.field).isSome = .ok kind ∧
        f = ⟨path, owner, c.columnName owner path.field, kind,
          (c.override? owner path.field).isSome, joins⟩ := by
  unfold field
  constructor
  · intro hfield
    split at hfield
    · simp at hfield
    · next joins owner hfollow =>
      split at hfield
      · simp at hfield
      · next a ha =>
        obtain ⟨kind, hkind, hf⟩ := Outcome.bind_eq_ok_iff.mp hfield
        exact ⟨joins, owner, a, kind, hfollow, ha, hkind, (Except.ok.inj hf).symm⟩
  · rintro ⟨joins, owner, a, kind, hfollow, ha, hkind, rfl⟩
    simp [hfollow, ha, hkind, columnName]

theorem path_of_field {path : Path} {f : Field} (hfield : c.field root path = .ok f) :
    f.path = path := by
  obtain ⟨_, _, _, _, -, -, -, rfl⟩ := field_eq_ok_iff.mp hfield
  rfl

theorem follow_append (entity : String) (before names : List String) (name : String) :
    c.follow entity before (names ++ [name]) =
      (c.follow entity before names).bind fun (steps, owner) =>
        (c.follow owner (before ++ names) [name]).map fun (last, target) =>
          (steps ++ last, target) := by
  induction names generalizing entity before with
  | nil =>
      rw [List.nil_append, List.append_nil]
      simp [follow]
  | cons first names ih =>
      rw [List.cons_append, follow, follow]
      split
      · next target cardinality hattribute hoverride =>
        dsimp only
        rw [ih]
        cases hrest : c.follow target (before ++ [first]) names with
        | none => simp
        | some result =>
            simp only [Option.bind_some, Option.map_some, List.append_assoc, List.cons_append,
              List.nil_append]
            rw [Option.map_map]
            congr 1
      · simp

theorem follow_singleton_eq_some_iff {entity name : String} {before : List String}
    {steps : List JoinStep} {target : String} :
    c.follow entity before [name] = some (steps, target) ↔
      ∃ a cardinality, c.attribute? entity name = some a ∧
        a.type = .association target cardinality ∧
        c.override? entity name = none ∧
        steps = [⟨Path.dotted (before ++ [name]), entity, name, target, cardinality⟩] := by
  rw [follow]
  constructor
  · intro hfollow
    split at hfollow
    · next found cardinality hattribute hoverride =>
      obtain ⟨a, ha, htype⟩ := Option.map_eq_some_iff.mp hattribute
      simp only [follow, Option.map_some, Option.some.injEq, Prod.mk.injEq] at hfollow
      obtain ⟨rfl, rfl⟩ := hfollow
      exact ⟨a, cardinality, ha, htype, hoverride, rfl⟩
    · simp at hfollow
  · rintro ⟨a, cardinality, ha, htype, hoverride, rfl⟩
    simp [ha, htype, hoverride, follow]

theorem fieldOf_eq_ok_iff {text : String} {f : Field} :
    c.fieldOf root text = .ok f ↔ ∃ p, Path.read? text = some p ∧ c.field root p = .ok f := by
  unfold fieldOf
  split
  · next p hp => simp [hp]
  · next hnone => simp [hnone]

/-- The first name of a path that leads to a field is an attribute of the entity. -/
theorem exists_attribute?_of_field {p : Path} {f : Field} (hfield : c.field root p = .ok f) :
    ∃ first rest a, p.names = first :: rest ∧ c.attribute? root first = some a := by
  obtain ⟨joins, owner, a, kind, hfollow, ha, -, -⟩ := field_eq_ok_iff.mp hfield
  obtain ⟨steps, name⟩ := p
  cases steps with
  | nil =>
      obtain ⟨rfl, rfl⟩ := Prod.mk.inj (Option.some.inj hfollow)
      exact ⟨name, [], a, rfl, ha⟩
  | cons first steps =>
      dsimp only at hfollow
      rw [follow] at hfollow
      split at hfollow
      · next hattribute _ =>
        obtain ⟨b, hb, -⟩ := Option.map_eq_some_iff.mp hattribute
        exact ⟨first, steps ++ [name], b, rfl, hb⟩
      · simp at hfollow

theorem exists_follow_of_append {entity : String} {before names more : List String}
    {joins : List JoinStep} {owner : String}
    (hfollow : c.follow entity before (names ++ more) = some (joins, owner)) :
    ∃ first source, c.follow entity before names = some (first, source) := by
  induction more using List.reverseRecOn generalizing joins owner with
  | nil => exact ⟨joins, owner, by simpa using hfollow⟩
  | append_singleton more name ih =>
      rw [← List.append_assoc, follow_append, Option.bind_eq_some_iff] at hfollow
      obtain ⟨⟨first, source⟩, hfirst, -⟩ := hfollow
      exact ih hfirst

/-- In front of the last name of a path that leads to a field there are associations only. -/
theorem exists_association_of_prefix {p q : Path} {more : List String} (hmore : more ≠ [])
    (hnames : p.names = q.names ++ more) {f : Field} (hfield : c.field root p = .ok f) :
    ∃ g, c.field root q = .ok g ∧ g.type? = none := by
  obtain ⟨joins, owner, a, kind, hfollow, -, -, -⟩ := field_eq_ok_iff.mp hfield
  obtain ⟨rest, last, rfl⟩ := (List.eq_nil_or_concat' more).resolve_left hmore
  rw [← List.append_assoc] at hnames
  have hsteps : p.steps = q.names ++ rest := (List.append_inj' hnames rfl).1
  rw [hsteps] at hfollow
  obtain ⟨first, target, hfirst⟩ := exists_follow_of_append hfollow
  rw [Path.names, follow_append, Option.bind_eq_some_iff] at hfirst
  obtain ⟨⟨before, source⟩, hbefore, hlast⟩ := hfirst
  obtain ⟨⟨steps, target⟩, hlast, -⟩ := Option.map_eq_some_iff.mp hlast
  obtain ⟨b, cardinality, hb, htype, hoverride, -⟩ := follow_singleton_eq_some_iff.mp hlast
  refine ⟨_, field_eq_ok_iff.mpr ⟨before, source, b, .association target cardinality, hbefore, hb,
    ?_, rfl⟩, rfl⟩
  simp [kindOf, htype, hoverride]

end Catalog

/-- The path of the last join is the text of the names. -/
theorem Catalog.getLast?_of_follow {c : Catalog} {root : String} {names : List String}
    {joins : List JoinStep} {owner : String}
    (hfollow : c.follow root [] names = some (joins, owner)) :
    joins.getLast?.map JoinStep.path = if names = [] then none else some (Path.dotted names) := by
  cases names using List.reverseRecOn with
  | nil =>
      obtain ⟨rfl, rfl⟩ := Prod.mk.inj (Option.some.inj hfollow)
      rfl
  | append_singleton names name =>
      rw [Catalog.follow_append, Option.bind_eq_some_iff] at hfollow
      obtain ⟨⟨before, source⟩, -, hlast⟩ := hfollow
      obtain ⟨⟨last, target⟩, hlast, heq⟩ := Option.map_eq_some_iff.mp hlast
      obtain ⟨a, cardinality, -, -, -, rfl⟩ := Catalog.follow_singleton_eq_some_iff.mp hlast
      obtain ⟨rfl, rfl⟩ := Prod.mk.inj heq
      simp

theorem Field.columnPath_of_field {c : Catalog} {root : String} {path : Path} {f : Field}
    (hfield : c.field root path = .ok f) :
    f.columnPath = Path.dotted (path.steps ++ [f.column]) := by
  obtain ⟨joins, owner, a, kind, hfollow, -, -, rfl⟩ := Catalog.field_eq_ok_iff.mp hfield
  unfold Field.columnPath Field.sourcePath?
  rw [Catalog.getLast?_of_follow hfollow]
  split
  · next hnil => simp [hnil, qualified]
  · next hne => rw [Path.dotted_append hne, qualified]

/-! ## Merging joins -/

namespace JoinStep

theorem merge_append (steps more rest : List JoinStep) :
    merge steps (more ++ rest) = merge (merge steps more) rest :=
  List.foldl_append ..

theorem merge_merge (steps more rest : List JoinStep) :
    merge steps (merge more rest) = merge (merge steps more) rest :=
  Keyed.addAll_addAll ..

end JoinStep

/-! ## Closed joins -/

/-- A place: the names that lead to it, and the entity there. -/
structure Place where
  names : List String
  entity : String

/-- Joins in an order in which each continues from a place that is there already, and the places. -/
inductive Closed (c : Catalog) (root : String) : List JoinStep → List Place → Prop
  | root : Closed c root [] [⟨[], root⟩]
  | snoc {steps : List JoinStep} {places : List Place} {p : Place} {name target : String}
      {a : Attribute} {cardinality : Cardinality} (hclosed : Closed c root steps places)
      (hp : p ∈ places) (ha : c.attribute? p.entity name = some a)
      (htype : a.type = .association target cardinality)
      (hoverride : c.override? p.entity name = none)
      (hnew : ∀ q ∈ places, q.names ≠ p.names ++ [name]) :
      Closed c root
        (steps ++ [⟨Path.dotted (p.names ++ [name]), p.entity, name, target, cardinality⟩])
        (places ++ [⟨p.names ++ [name], target⟩])

namespace Closed

variable {c : Catalog} {root : String} {steps more : List JoinStep} {places others : List Place}

theorem root_mem (hclosed : Closed c root steps places) : ⟨[], root⟩ ∈ places := by
  induction hclosed with
  | root => exact List.mem_singleton.mpr rfl
  | snoc _ _ _ _ _ _ ih => exact List.mem_append_left _ ih

theorem exists_follow (hclosed : Closed c root steps places) {p : Place} (hp : p ∈ places) :
    ∃ joins, c.follow root [] p.names = some (joins, p.entity) := by
  induction hclosed generalizing p with
  | root =>
      obtain rfl := List.mem_singleton.mp hp
      exact ⟨[], rfl⟩
  | @snoc steps places q name target a cardinality _ hq ha htype hoverride _ ih =>
      rcases List.mem_append.mp hp with hp | hp
      · exact ih hp
      · obtain rfl := List.mem_singleton.mp hp
        obtain ⟨joins, hjoins⟩ := ih hq
        have hlast : c.follow q.entity q.names [name] = some (_, target) :=
          Catalog.follow_singleton_eq_some_iff.mpr ⟨a, cardinality, ha, htype, hoverride, rfl⟩
        rw [Catalog.follow_append, hjoins, Option.bind_some]
        dsimp only
        rw [List.nil_append, hlast]
        exact ⟨_, rfl⟩

theorem dotless (hnames : c.DotlessNames) (hclosed : Closed c root steps places) {p : Place}
    (hp : p ∈ places) : ∀ name ∈ p.names, Path.Dotless name := by
  induction hclosed generalizing p with
  | root =>
      obtain rfl := List.mem_singleton.mp hp
      simp
  | @snoc _ _ q _ _ _ _ _ hq ha _ _ _ ih =>
      rcases List.mem_append.mp hp with hp | hp
      · exact ih hp
      · obtain rfl := List.mem_singleton.mp hp
        rw [List.forall_mem_append]
        refine ⟨ih hq, fun name hname => ?_⟩
        rw [List.mem_singleton.mp hname]
        exact Catalog.dotless_of_attribute? hnames ha

theorem knows (haccepted : Catalog.of entities fallback = .ok c) (hrepeat : c.Unrepeated)
    (hroot : c.Knows root) (hclosed : Closed c root steps places) {p : Place} (hp : p ∈ places) :
    c.Knows p.entity := by
  induction hclosed generalizing p with
  | root => rwa [List.mem_singleton.mp hp]
  | snoc _ _ ha htype _ _ ih =>
      rcases List.mem_append.mp hp with hp | hp
      · exact ih hp
      · obtain rfl := List.mem_singleton.mp hp
        exact Catalog.knows_target haccepted hrepeat ha htype

/-- The paths of the joins are the texts of the places besides the root. -/
theorem mem_paths_iff (hclosed : Closed c root steps places) {path : String} :
    path ∈ steps.map JoinStep.path ↔ ∃ p ∈ places, p.names ≠ [] ∧ Path.dotted p.names = path := by
  induction hclosed with
  | root => simp
  | snoc _ _ _ _ _ _ ih =>
      rw [List.map_append, List.mem_append, ih]
      constructor
      · rintro (⟨p, hp, hnames, hpath⟩ | hlast)
        · exact ⟨p, List.mem_append_left _ hp, hnames, hpath⟩
        · exact ⟨_, List.mem_append_right _ (List.mem_singleton.mpr rfl), by simp,
            (List.mem_singleton.mp hlast).symm⟩
      · rintro ⟨p, hp, hnames, hpath⟩
        rcases List.mem_append.mp hp with hp | hp
        · exact .inl ⟨p, hp, hnames, hpath⟩
        · obtain rfl := List.mem_singleton.mp hp
          exact .inr (List.mem_singleton.mpr hpath.symm)

/-- Names lead to one entity only. -/
theorem entity_eq (hfirst : Closed c root steps places) (hsecond : Closed c root more others)
    {p q : Place} (hp : p ∈ places) (hq : q ∈ others) (hnames : p.names = q.names) : p = q := by
  obtain ⟨_, hfollowp⟩ := hfirst.exists_follow hp
  obtain ⟨_, hfollowq⟩ := hsecond.exists_follow hq
  rw [hnames, hfollowq] at hfollowp
  have hentity : q.entity = p.entity := (Prod.mk.inj (Option.some.inj hfollowp)).2
  cases p
  cases q
  simp_all

/-! ## Merging -/

/-- Merging keeps joins closed and loses no place; the joins and places that were there stay in
front. -/
theorem exists_merge (hnames : c.DotlessNames) (hfirst : Closed c root steps places)
    (hsecond : Closed c root more others) :
    ∃ newSteps newPlaces, JoinStep.merge steps more = steps ++ newSteps ∧
      Closed c root (steps ++ newSteps) (places ++ newPlaces) ∧
      ∀ p ∈ others, p ∈ places ++ newPlaces := by
  induction hsecond with
  | root =>
      refine ⟨[], [], by simp [JoinStep.merge, Keyed.addAll], by simpa using hfirst, fun p hp => ?_⟩
      rw [List.mem_singleton.mp hp]
      exact List.mem_append_left _ hfirst.root_mem
  | @snoc more others p name target a cardinality hsecond hp ha htype hoverride hnew ih =>
      obtain ⟨newSteps, newPlaces, hmerge, hclosed, hothers⟩ := ih
      have hlast := Closed.snoc hsecond hp ha htype hoverride hnew
      set step : JoinStep :=
        ⟨Path.dotted (p.names ++ [name]), p.entity, name, target, cardinality⟩ with hstep
      have hadd : JoinStep.merge steps (more ++ [step]) =
          Keyed.add JoinStep.path (steps ++ newSteps) step := by
        rw [← hmerge, JoinStep.merge, JoinStep.merge, Keyed.addAll, Keyed.addAll, List.foldl_append]
        rfl
      by_cases hthere : ∃ q ∈ places ++ newPlaces, q.names = p.names ++ [name]
      · -- the place is there already, under the path of one of the joins
        obtain ⟨q, hq, hnames⟩ := hthere
        have hpath : step.path ∈ (steps ++ newSteps).map JoinStep.path :=
          hclosed.mem_paths_iff.mpr ⟨q, hq, by simp [hnames], by rw [hnames]⟩
        refine ⟨newSteps, newPlaces, ?_, hclosed, ?_⟩
        · rw [hadd, Keyed.add, if_pos (by simpa [List.any_eq_true] using hpath)]
        · rw [List.forall_mem_append]
          refine ⟨hothers, fun r hr => ?_⟩
          have hrq : q = r := hclosed.entity_eq hlast hq (List.mem_append_right _ hr)
            (by rw [hnames, List.mem_singleton.mp hr])
          exact hrq ▸ hq
      -- the place is new, and so is its path, since names hold no points
      · have hfresh : ∀ q ∈ places ++ newPlaces, q.names ≠ p.names ++ [name] :=
          fun q hq hnames => hthere ⟨q, hq, hnames⟩
        have hpath : step.path ∉ (steps ++ newSteps).map JoinStep.path := by
          intro hpath
          obtain ⟨q, hq, hne, hdotted⟩ := hclosed.mem_paths_iff.mp hpath
          refine hfresh q hq
            (Path.dotted_injective hne (by simp) (hclosed.dotless hnames hq) ?_ hdotted)
          exact hlast.dotless hnames (List.mem_append_right _ (List.mem_singleton.mpr rfl))
        refine ⟨newSteps ++ [step], newPlaces ++ [⟨p.names ++ [name], target⟩], ?_, ?_, ?_⟩
        · rw [hadd, Keyed.add, if_neg (by simpa [List.any_eq_true] using hpath), List.append_assoc]
        · rw [← List.append_assoc, ← List.append_assoc]
          exact .snoc hclosed (hothers p hp) ha htype hoverride hfresh
        · rw [← List.append_assoc, List.forall_mem_append]
          exact ⟨fun q hq => List.mem_append_left _ (hothers q hq),
            fun q hq => List.mem_append_right _ hq⟩

end Closed

/-! ## The joins of a path -/

/-- The joins of a path are closed and lead to its place. -/
theorem closed_of_follow {c : Catalog} {root : String} {names : List String} {joins : List JoinStep}
    {owner : String} (hfollow : c.follow root [] names = some (joins, owner)) :
    ∃ places, Closed c root joins places ∧ ⟨names, owner⟩ ∈ places ∧
      ∀ p ∈ places, p.names.length ≤ names.length := by
  induction names using List.reverseRecOn generalizing joins owner with
  | nil =>
      obtain ⟨rfl, rfl⟩ := Prod.mk.inj (Option.some.inj hfollow)
      exact ⟨_, .root, by simp, by simp⟩
  | append_singleton names name ih =>
      rw [Catalog.follow_append, Option.bind_eq_some_iff] at hfollow
      obtain ⟨⟨before, source⟩, hbefore, hlast⟩ := hfollow
      obtain ⟨⟨last, target⟩, hlast, heq⟩ := Option.map_eq_some_iff.mp hlast
      obtain ⟨a, cardinality, ha, htype, hoverride, rfl⟩ :=
        Catalog.follow_singleton_eq_some_iff.mp hlast
      obtain ⟨rfl, rfl⟩ := Prod.mk.inj heq
      obtain ⟨places, hclosed, hplace, hlength⟩ := ih hbefore
      have hnew : ∀ q ∈ places, q.names ≠ names ++ [name] := by
        intro q hq hnames
        have := hlength q hq
        rw [hnames, List.length_append, List.length_singleton] at this
        omega
      refine ⟨_, .snoc hclosed hplace ha htype hoverride hnew, by simp, ?_⟩
      rw [List.forall_mem_append]
      refine ⟨fun p hp => ?_, fun p hp => ?_⟩
      · have := hlength p hp
        simp only [List.length_append, List.length_singleton]
        omega
      · simp [List.mem_singleton.mp hp]

theorem closed_of_field {c : Catalog} {root : String} {path : Path} {f : Field}
    (hfield : c.field root path = .ok f) :
    ∃ places, Closed c root f.joins places ∧ ⟨path.steps, f.owner⟩ ∈ places := by
  obtain ⟨joins, owner, a, kind, hfollow, -, -, rfl⟩ := Catalog.field_eq_ok_iff.mp hfield
  obtain ⟨places, hclosed, hplace, -⟩ := closed_of_follow hfollow
  exact ⟨places, hclosed, hplace⟩

/-- Merging the joins of some fields into closed joins keeps them closed and leads to the places of
the fields. -/
theorem Closed.exists_mergeFields {c : Catalog} {root : String} (hnames : c.DotlessNames)
    {steps : List JoinStep} {places : List Place} (hclosed : Closed c root steps places)
    {fields : List Field} (hfields : ∀ f ∈ fields, c.field root f.path = .ok f) :
    ∃ newSteps newPlaces, JoinStep.merge steps (fields.flatMap Field.joins) = steps ++ newSteps ∧
      Closed c root (steps ++ newSteps) (places ++ newPlaces) ∧
      ∀ f ∈ fields, ⟨f.path.steps, f.owner⟩ ∈ places ++ newPlaces := by
  induction fields generalizing steps places with
  | nil => exact ⟨[], [], by simp [JoinStep.merge, Keyed.addAll], by simpa using hclosed, by simp⟩
  | cons f fields ih =>
      rw [List.forall_mem_cons] at hfields
      obtain ⟨others, hothers, hplace⟩ := closed_of_field hfields.1
      obtain ⟨firstSteps, firstPlaces, hfirst, hclosed, hthere⟩ :=
        hclosed.exists_merge hnames hothers
      obtain ⟨moreSteps, morePlaces, hmore, hclosed, hrest⟩ := ih hclosed hfields.2
      refine ⟨firstSteps ++ moreSteps, firstPlaces ++ morePlaces, ?_, ?_, ?_⟩
      · rw [List.flatMap_cons, JoinStep.merge_append, hfirst, hmore, List.append_assoc]
      · rwa [← List.append_assoc, ← List.append_assoc]
      · rw [← List.append_assoc, List.forall_mem_cons]
        exact ⟨List.mem_append_left _ (hthere _ hplace), hrest⟩

end EntityQuery
