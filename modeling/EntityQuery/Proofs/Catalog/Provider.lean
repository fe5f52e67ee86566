import EntityQuery.Proofs.Catalog.Lineage
import EntityQuery.Proofs.Catalog.Places
import Mathlib.Order.WellFoundedSet

/-!
# Paths one behind the other

Fields are resolved against anything that knows entities by their names, an accepted catalog or not:
all that is needed is that parents end, and parents of finitely many entities end as soon as there
is no cycle.  For an accepted catalog the fields are those that the catalog itself gives.

A path that goes on behind an association is followed like the first part, from the target of the
association.  The joins of the second part are those from the target, each with the names of the
first part in front of its path; nothing else about the field sees where the path has started.
Behind a scalar, which an overridden association is as well, no path goes on.

## Main definitions

* `Provider` : entities by their names, with parents that end
* `Provider.field` : the field that a path leads to
* `Path.append` : a path behind another one
* `JoinStep.behind` : a join with the names of a path in front

## Main statements

* `Provider.exists_iff_acyclic` : the parents of finitely many entities end exactly if there is no
  cycle
* `Provider.field_eq_of_accepted` : the fields of accepted catalogs
* `Provider.follow_append` : names are followed one part behind the other
* `Provider.follow_shift` : what is in front of the names is seen by the paths of the joins only
* `Provider.field_append` : the field of a path behind another one
-/

namespace EntityQuery

/-! ## Paths -/

namespace Path

/-- A path behind another one. -/
def append (p q : Path) : Path := ⟨p.names ++ q.steps, q.field⟩

@[simp] theorem names_append (p q : Path) : (p.append q).names = p.names ++ q.names := by
  simp [append, names]

@[simp] theorem names_ne_nil (p : Path) : p.names ≠ [] := by simp [names]

theorem dotted_append_append {front back : List String} (hfront : front ≠ []) (hback : back ≠ []) :
    dotted (front ++ back) = dotted front ++ "." ++ dotted back := by
  induction back using List.reverseRecOn with
  | nil => exact absurd rfl hback
  | append_singleton back name ih =>
      rw [← List.append_assoc, dotted_append (List.append_ne_nil_of_left_ne_nil hfront back)]
      by_cases hnil : back = []
      · simp [hnil]
      · rw [ih hnil, dotted_append hnil]
        simp only [String.append_assoc]

end Path

/-- A join with the names of a path in front of its own. -/
def JoinStep.behind (front : List String) (s : JoinStep) : JoinStep :=
  { s with path := Path.dotted front ++ "." ++ s.path }

/-! ## Parents that end -/

theorem Upward.not_cycle {entity? : String → Option Entity} {e : Entity} {chain : List Entity}
    (hchain : Upward entity? (some e) chain) :
    ¬ Relation.TransGen (fun x next : Entity => x.parent.bind entity? = some next) e e := by
  generalize hstart : some e = start at hchain
  induction hchain generalizing e with
  | done => simp at hstart
  | step _ ih =>
      obtain rfl := Option.some.inj hstart
      intro hcycle
      -- the parent is on the cycle as well, and its own chain is shorter
      obtain ⟨next, hnext, hback⟩ := Relation.TransGen.head'_iff.mp hcycle
      exact ih hnext.symm (Relation.TransGen.tail' hback hnext)

/-- If finitely many entities can be looked up and none of them is derived from itself, all parents
end. -/
theorem exists_upward_of_acyclic {entity? : String → Option Entity}
    (hfinite : {e | ∃ name, entity? name = some e}.Finite)
    (hacyclic : ∀ e,
      ¬ Relation.TransGen (fun x next : Entity => x.parent.bind entity? = some next) e e)
    (name : String) :
    ∃ chain, Upward entity? (entity? name) chain := by
  -- going up is a strict order, which has no infinite chain in a finite set
  have : IsStrictOrder Entity fun above e =>
      Relation.TransGen (fun x next : Entity => x.parent.bind entity? = some next) e above := {
    irrefl := hacyclic
    trans := fun _ _ _ hfirst hsecond => hsecond.trans hfirst }
  have hchain : ∀ e ∈ {e | ∃ name, entity? name = some e}, ∃ chain,
      Upward entity? (some e) chain := by
    intro e he
    refine Set.WellFoundedOn.induction (r := fun above e =>
      Relation.TransGen (fun x next : Entity => x.parent.bind entity? = some next) e above)
      (P := fun e => ∃ chain, Upward entity? (some e) chain) hfinite.wellFoundedOn he ?_
    intro e _ ih
    cases hparent : e.parent.bind entity? with
    | none => exact ⟨[e], .step (by rw [hparent]; exact .done)⟩
    | some next =>
        obtain ⟨parent, -, hnext⟩ := Option.bind_eq_some_iff.mp hparent
        obtain ⟨chain, hchain⟩ := ih next ⟨parent, hnext⟩ (.single hparent)
        exact ⟨e :: chain, .step (by rwa [hparent])⟩
  cases hentity : entity? name with
  | none => exact ⟨[], .done⟩
  | some e => exact hchain e ⟨name, hentity⟩

/-- Entities by their names, and the type of parameters that no entity binds.  The parents of every
entity end. -/
structure Provider where
  entity? : String → Option Entity
  fallback : Option ScalarType
  /-- An entity and those that it is derived from, the most derived one first. -/
  lineage : String → List Entity
  upward : ∀ name, Upward entity? (entity? name) (lineage name)

namespace Provider

/-- Finitely many entities without a cycle of parents. -/
noncomputable def ofAcyclic (entity? : String → Option Entity) (fallback : Option ScalarType)
    (hfinite : {e | ∃ name, entity? name = some e}.Finite)
    (hacyclic : ∀ e,
      ¬ Relation.TransGen (fun x next : Entity => x.parent.bind entity? = some next) e e) :
    Provider where
  entity? := entity?
  fallback := fallback
  lineage name := (exists_upward_of_acyclic hfinite hacyclic name).choose
  upward name := (exists_upward_of_acyclic hfinite hacyclic name).choose_spec

/-- Finitely many entities make a provider exactly if none of them is derived from itself. -/
theorem exists_iff_acyclic {entity? : String → Option Entity} {fallback : Option ScalarType}
    (hfinite : {e | ∃ name, entity? name = some e}.Finite) :
    (∃ P : Provider, P.entity? = entity? ∧ P.fallback = fallback) ↔
      ∀ e, ¬ Relation.TransGen (fun x next : Entity => x.parent.bind entity? = some next) e e := by
  constructor
  · rintro ⟨P, rfl, -⟩ e hcycle
    -- what is on a cycle is the parent of something, so it is found under a name
    obtain ⟨_, -, hparent⟩ := Relation.TransGen.tail'_iff.mp hcycle
    obtain ⟨name, -, hname⟩ := Option.bind_eq_some_iff.mp hparent
    exact (hname ▸ P.upward name).not_cycle hcycle
  · intro hacyclic
    exact ⟨ofAcyclic entity? fallback hfinite hacyclic, rfl, rfl⟩

/-- The entities of an accepted catalog. -/
def ofAccepted {c : Catalog} {entities : List Entity} {fallback : Option ScalarType}
    (haccepted : Catalog.of entities fallback = .ok c) : Provider where
  entity? := c.entity?
  fallback := c.fallback
  lineage := c.lineage
  upward := Catalog.upward_lineage haccepted

variable (P : Provider)

/-! ## Look-up -/

/-- The attribute of a name, most derived declaration first. -/
def attribute? (entity name : String) : Option Attribute :=
  (P.lineage entity).findSome? (·.declared? name)

/-- The column that overrides the one of an attribute. -/
def override? (entity name : String) : Option String :=
  (P.lineage entity).findSome? (·.overrides.lookup name)

/-- The type of a parameter: bound along the lineage, or the fallback. -/
def parameterType (entity parameter : String) : Except SearchFault ScalarType :=
  match (P.lineage entity).findSome? (·.typeArguments.lookup parameter) <|> P.fallback with
  | some type => pure type
  | none => throw (.catalog (.unboundParameter parameter entity))

/-- The attribute that identifies an entity. -/
def idAttribute (name : String) : Except SearchFault Attribute :=
  match P.entity? name with
  | none => throw (.catalog (.unknownEntity name))
  | some e =>
    match P.attribute? name e.idAttribute with
    | some a => pure a
    | none => throw (.catalog (.idNotDeclared e.idAttribute name))

/-- The type of the identifier of an entity. -/
def idType (name : String) : Except SearchFault ScalarType := do
  match (← P.idAttribute name).type with
  | .scalar type => pure type
  | .parameter parameter => P.parameterType name parameter
  | .association _ _ => throw (.catalog (.associationAsId name))

/-! ## Fields -/

/-- The joins along some names, and the entity at their end; `before` holds the names that led to
the entity. -/
def follow (P : Provider) (entity : String) (before : List String) :
    List String → Option (List JoinStep × String)
  | [] => some ([], entity)
  | name :: rest =>
    match (P.attribute? entity name).map Attribute.type, P.override? entity name with
    | some (.association target cardinality), none =>
      let here := before ++ [name]
      (follow P target here rest).map fun (steps, last) =>
        (⟨Path.dotted here, entity, name, target, cardinality⟩ :: steps, last)
    | _, _ => none

/-- What an attribute of an entity holds; an overridden association holds the identifier of its
target. -/
def kindOf (entity : String) (a : Attribute) (overridden : Bool) : Except SearchFault FieldKind :=
  match a.type with
  | .scalar type => pure (.scalar type)
  | .parameter parameter => do return .scalar (← P.parameterType entity parameter)
  | .association target cardinality =>
    if overridden then do return .scalar (← P.idType target)
    else pure (.association target cardinality)

/-- The field that a path leads to from an entity. -/
def field (root : String) (path : Path) : Except SearchFault Field :=
  match P.follow root [] path.steps with
  | none => throw (.unresolvable root path.text)
  | some (joins, owner) =>
    match P.attribute? owner path.field with
    | none => throw (.unresolvable root path.text)
    | some a => do
      let column := P.override? owner path.field
      let kind ← P.kindOf owner a column.isSome
      return ⟨path, owner, column.getD path.field, kind, column.isSome, joins⟩

/-! ## Accepted catalogs -/

section

variable {P} {c : Catalog} {entities : List Entity} {fallback : Option ScalarType}
  (haccepted : Catalog.of entities fallback = .ok c) (hentity : P.entity? = c.entity?)
  (hfallback : P.fallback = c.fallback)

include haccepted hentity

theorem lineage_eq_of_accepted : P.lineage = c.lineage := by
  funext name
  have hchain := P.upward name
  rw [hentity] at hchain
  exact hchain.unique (Catalog.upward_lineage haccepted name)

theorem attribute?_eq_of_accepted : P.attribute? = c.attribute? := by
  funext entity name
  rw [attribute?, Catalog.attribute?, lineage_eq_of_accepted haccepted hentity]

theorem override?_eq_of_accepted : P.override? = c.override? := by
  funext entity name
  rw [override?, Catalog.override?, lineage_eq_of_accepted haccepted hentity]

theorem follow_eq_of_accepted (entity : String) (before names : List String) :
    P.follow entity before names = c.follow entity before names := by
  induction names generalizing entity before with
  | nil => rfl
  | cons name names ih =>
      rewrite [follow, Catalog.follow, attribute?_eq_of_accepted haccepted hentity,
        override?_eq_of_accepted haccepted hentity]
      rcases (c.attribute? entity name).map Attribute.type with _ | _ | _ | ⟨target, cardinality⟩
      · rfl
      · rfl
      · rfl
      · cases c.override? entity name with
        | none => exact congrArg (Option.map _) (ih target (before ++ [name]))
        | some column => rfl

include hfallback

theorem parameterType_eq_of_accepted : P.parameterType = c.parameterType := by
  funext entity parameter
  rewrite [parameterType, Catalog.parameterType, lineage_eq_of_accepted haccepted hentity,
    hfallback]
  rfl

theorem idType_eq_of_accepted : P.idType = c.idType := by
  funext entity
  rewrite [idType, Catalog.idType, idAttribute, Catalog.idAttribute, Catalog.entity, hentity,
    attribute?_eq_of_accepted haccepted hentity,
    parameterType_eq_of_accepted haccepted hentity hfallback]
  cases c.entity? entity <;> rfl

/-- A provider of the entities of an accepted catalog gives the fields of the catalog. -/
theorem field_eq_of_accepted : P.field = c.field := by
  funext root path
  have hkind : P.kindOf = c.kindOf := by
    funext entity a overridden
    rewrite [kindOf, Catalog.kindOf, parameterType_eq_of_accepted haccepted hentity hfallback,
      idType_eq_of_accepted haccepted hentity hfallback]
    rfl
  rewrite [field, Catalog.field, follow_eq_of_accepted haccepted hentity,
    attribute?_eq_of_accepted haccepted hentity, override?_eq_of_accepted haccepted hentity, hkind]
  rfl

end

/-! ## Paths behind other paths -/

/-- What the field of a path is. -/
theorem field_eq_ok_iff {root : String} {path : Path} {f : Field} :
    P.field root path = .ok f ↔
      ∃ joins owner a kind, P.follow root [] path.steps = some (joins, owner) ∧
        P.attribute? owner path.field = some a ∧
        P.kindOf owner a (P.override? owner path.field).isSome = .ok kind ∧
        f = ⟨path, owner, (P.override? owner path.field).getD path.field, kind,
          (P.override? owner path.field).isSome, joins⟩ := by
  unfold field
  constructor
  · intro hfield
    split at hfield
    · simp at hfield
    · next joins owner hfollow =>
      split at hfield
      · simp at hfield
      · next a ha =>
        obtain ⟨kind, hkind, hf⟩ := Outcome.bind_eq_ok_iff.mp hfield
        exact ⟨joins, owner, a, kind, hfollow, ha, hkind, (Except.ok.inj hf).symm⟩
  · rintro ⟨joins, owner, a, kind, hfollow, ha, hkind, rfl⟩
    simp [hfollow, ha, hkind]

/-- Names are followed one part behind the other. -/
theorem follow_append (entity : String) (before names more : List String) :
    P.follow entity before (names ++ more) =
      (P.follow entity before names).bind fun (steps, owner) =>
        (P.follow owner (before ++ names) more).map fun (rest, target) =>
          (steps ++ rest, target) := by
  induction names generalizing entity before with
  | nil => simp [follow]
  | cons first names ih =>
      rw [List.cons_append, follow, follow]
      split
      · next target cardinality hattribute hoverride =>
        dsimp only
        rw [ih]
        cases hrest : P.follow target (before ++ [first]) names with
        | none => simp
        | some result =>
            simp only [Option.bind_some, Option.map_some, List.append_assoc, List.cons_append,
              List.nil_append]
            rw [Option.map_map]
            congr 1
      · simp

/-- What is in front of the names is seen by the paths of the joins only. -/
theorem follow_shift {front : List String} (hfront : front ≠ []) (entity : String)
    (before names : List String) :
    P.follow entity (front ++ before) names =
      (P.follow entity before names).map fun (steps, owner) =>
        (steps.map (JoinStep.behind front), owner) := by
  induction names generalizing entity before with
  | nil => rfl
  | cons first names ih =>
      rw [follow, follow]
      split
      · dsimp only
        rw [List.append_assoc, ih, Option.map_map, Option.map_map,
          Path.dotted_append_append hfront
            (List.append_ne_nil_of_right_ne_nil before (List.cons_ne_nil first []))]
        rfl
      · rfl

theorem kindOf_eq_association_iff {entity : String} {a : Attribute} {overridden : Bool}
    {target : String} {cardinality : Cardinality} :
    P.kindOf entity a overridden = .ok (.association target cardinality) ↔
      a.type = .association target cardinality ∧ overridden = false := by
  unfold kindOf
  cases a.type with
  | scalar type => simp
  | parameter parameter => simp [Outcome.bind_eq_ok_iff]
  | association other otherCardinality =>
      cases overridden with
      | false => simp
      | true => simp [Outcome.bind_eq_ok_iff]

/-- No path goes on behind a field that is not an association. -/
theorem follow_eq_none_of_scalar {entity name : String} {a : Attribute} {type : ScalarType}
    (ha : P.attribute? entity name = some a)
    (hkind : P.kindOf entity a (P.override? entity name).isSome = .ok (.scalar type))
    (before more : List String) : P.follow entity before (name :: more) = none := by
  rw [follow]
  split
  · next target cardinality hattribute hoverride =>
    obtain ⟨b, hb, htype⟩ := Option.map_eq_some_iff.mp hattribute
    obtain rfl := Option.some.inj (ha.symm.trans hb)
    have hassociation : P.kindOf entity a false = .ok (.association target cardinality) :=
      P.kindOf_eq_association_iff.mpr ⟨htype, rfl⟩
    rw [hoverride, Option.isSome_none, hassociation] at hkind
    simp at hkind
  · rfl

section

variable {root owner : String} {p : Path} {joins : List JoinStep} {a : Attribute}

theorem follow_steps_append (hfollow : P.follow root [] p.steps = some (joins, owner)) (q : Path) :
    P.follow root [] (p.append q).steps =
      (P.follow owner p.steps (p.field :: q.steps)).map fun (rest, last) =>
        (joins ++ rest, last) := by
  have hsteps : (p.append q).steps = p.steps ++ p.field :: q.steps := by
    simp [Path.append, Path.names]
  rw [hsteps, follow_append, hfollow]
  rfl

/-- Behind an association, a path leads to the field that it leads to from the target. -/
theorem field_append_of_association {f : Field} (hf : P.field root p = .ok f) (q : Path)
    {target : String} {cardinality : Cardinality} (hkind : f.kind = .association target cardinality)
    {h : Field} :
    P.field root (p.append q) = .ok h ↔
      ∃ g, P.field target q = .ok g ∧
        h = { g with
          path := p.append q
          joins := f.joins ++ ⟨p.text, f.owner, p.field, target, cardinality⟩ ::
            g.joins.map (JoinStep.behind p.names) } := by
  obtain ⟨joins, owner, a, kind, hfollow, ha, hkindOf, rfl⟩ := P.field_eq_ok_iff.mp hf
  obtain rfl : kind = .association target cardinality := hkind
  obtain ⟨htype, hoverride⟩ := P.kindOf_eq_association_iff.mp hkindOf
  have hoverride : P.override? owner p.field = none := by simpa using hoverride
  -- the names behind the association are followed from its target
  have hbehind : P.follow root [] (p.append q).steps =
      (P.follow target [] q.steps).map fun (rest, last) =>
        (joins ++ ⟨p.text, owner, p.field, target, cardinality⟩ ::
          rest.map (JoinStep.behind p.names), last) := by
    have hshift := P.follow_shift p.names_ne_nil target [] q.steps
    rw [List.append_nil] at hshift
    rw [P.follow_steps_append hfollow q, follow, ha, Option.map_some, htype, hoverride]
    dsimp only
    rw [← Path.names, hshift, Option.map_map, Option.map_map]
    rfl
  rw [P.field_eq_ok_iff, hbehind]
  constructor
  · rintro ⟨_, _, b, kind, hlast, hb, hkind, rfl⟩
    obtain ⟨⟨rest, last⟩, hrest, heq⟩ := Option.map_eq_some_iff.mp hlast
    obtain ⟨rfl, rfl⟩ := Prod.mk.inj heq
    exact ⟨_, P.field_eq_ok_iff.mpr ⟨rest, last, b, kind, hrest, hb, hkind, rfl⟩, rfl⟩
  · rintro ⟨g, hg, rfl⟩
    obtain ⟨rest, last, b, kind, hrest, hb, hkind, rfl⟩ := P.field_eq_ok_iff.mp hg
    exact ⟨_, last, b, kind, by rw [hrest, Option.map_some], hb, hkind, rfl⟩

theorem field_append_of_scalar {f : Field} (hf : P.field root p = .ok f) (q : Path)
    {type : ScalarType} (hkind : f.kind = .scalar type) :
    P.field root (p.append q) = .error (.unresolvable root (p.append q).text) := by
  obtain ⟨joins, owner, a, kind, hfollow, ha, hkindOf, rfl⟩ := P.field_eq_ok_iff.mp hf
  obtain rfl : kind = .scalar type := hkind
  rw [field, P.follow_steps_append hfollow q, P.follow_eq_none_of_scalar ha hkindOf]
  rfl

end

/-- A path behind one to an association leads to a field exactly if it leads to one from the target
of the association; it is the same field but for the joins, which are those of the first path, the
one to the target, and those from there with the first path in front.  Behind a scalar no path leads
to a field.  All this is about the fields of a catalog, if the entities are those of an accepted
one. -/
theorem field_append {root : String} {p : Path} {f : Field} (hf : P.field root p = .ok f)
    (q : Path) :
    (∀ target cardinality, f.kind = .association target cardinality → ∀ h,
      P.field root (p.append q) = .ok h ↔
        ∃ g, P.field target q = .ok g ∧
          h = { g with
            path := p.append q
            joins := f.joins ++ ⟨p.text, f.owner, p.field, target, cardinality⟩ ::
              g.joins.map (JoinStep.behind p.names) }) ∧
    (∀ type, f.kind = .scalar type →
      P.field root (p.append q) = .error (.unresolvable root (p.append q).text)) ∧
    ∀ c entities fallback, Catalog.of entities fallback = .ok c → P.entity? = c.entity? →
      P.fallback = c.fallback →
      P.field = c.field :=
  ⟨fun _ _ hkind _ => P.field_append_of_association hf q hkind,
    fun _ hkind => P.field_append_of_scalar hf q hkind,
    fun _ _ _ haccepted hentity hfallback => field_eq_of_accepted haccepted hentity hfallback⟩

/-- Books on shelves in rooms; who owns a book is known by a number only. -/
def rooms : Catalog where
  entities := [
    ⟨"Room", none, [], none, "id", [⟨"id", .parameter "K"⟩, ⟨"name", .scalar .text⟩], [], []⟩,
    ⟨"Shelf", none, [], none, "id",
      [⟨"id", .parameter "K"⟩, ⟨"room", .association "Room" (.toOne "room_id")⟩], [], []⟩,
    ⟨"Book", none, [], some "Shelf", "id",
      [⟨"shelf", .association "Shelf" (.toOne "shelf_id")⟩,
        ⟨"owner", .association "Room" (.toOne "owner_id")⟩],
      [("owner", "owner_number")], [("K", .text)]⟩]
  fallback := some .int64

/-- The name of the room of the shelf of a book, and an overridden association that a path does not
go on behind. -/
theorem field_append_rooms :
    ∃ P : Provider, P.entity? = rooms.entity? ∧
      (∃ f, P.field "Book" ⟨["shelf", "room"], "name"⟩ = .ok f ∧
        f.joins.map JoinStep.path = ["shelf", "shelf.room"]) ∧
      P.field "Book" ⟨["owner"], "name"⟩ = .error (.unresolvable "Book" "owner.name") := by
  have haccepted : Catalog.of rooms.entities rooms.fallback = .ok rooms := by rfl
  have hfield : (ofAccepted haccepted).field = rooms.field := field_eq_of_accepted haccepted rfl rfl
  obtain ⟨shelf, hshelf, hassociation, hjoins⟩ : ∃ f,
      rooms.field "Book" (Path.single "shelf") = .ok f ∧
      f.kind = .association "Shelf" (.toOne "shelf_id") ∧ f.joins = [] := ⟨_, rfl, rfl, rfl⟩
  obtain ⟨name, hname, hbehind⟩ : ∃ f, rooms.field "Shelf" ⟨["room"], "name"⟩ = .ok f ∧
      f.joins = [⟨"room", "Shelf", "room", "Room", .toOne "room_id"⟩] := ⟨_, rfl, rfl⟩
  obtain ⟨number, hnumber, hscalar⟩ : ∃ f, rooms.field "Book" (Path.single "owner") = .ok f ∧
      f.kind = .scalar .int64 := ⟨_, rfl, rfl⟩
  rw [← hfield] at hshelf hname hnumber
  refine ⟨ofAccepted haccepted, rfl,
    ⟨_, ((field_append _ hshelf _).1 _ _ hassociation _).mpr ⟨name, hname, rfl⟩, ?_⟩,
    (field_append _ hnumber (Path.single "name")).2.1 _ hscalar⟩
  rw [hjoins, hbehind]
  rfl

end Provider

end EntityQuery
