import EntityQuery.Proofs.Catalog.Attributes
import Mathlib.Data.List.Nodup
import Mathlib.Data.List.Perm.Subperm
import Mathlib.Logic.Relation

/-!
# Lineages end

Parents are followed without a bound that is written anywhere: the check of a lineage goes on until
it meets an entity without parent, one that is not declared, or a name that it has met before, and
look-up goes on until it finds something or runs out of parents.  Here both are stated as they run,
without a bound, and compared with the bounded definitions.

The check always ends, whatever the parents are.  The names met so far are different and all
declared, so there are at most as many as entities; the chain may run into a cycle that it did not
start in.  The check accepts exactly if the chain reaches an entity without parent, because an
entity on a cycle never does.

## Main definitions

* `Upward` : a chain of parents that is followed to its end
* `Finds` : what is found first on the way up
* `Catalog.Parent` : the entity that another one is derived from
* `Catalog.Climbs` : the check of parents, for as many steps as it takes
* `Catalog.Ended` : everything that goes up a lineage ends

## Main statements

* `Catalog.climbs_checkParents` : the bound on the check is never reached
* `Catalog.climbs_ok_iff` : the check accepts exactly if an entity without parent is reached
* `Catalog.upward_lineage` : the bound on lineages of accepted catalogs is never reached
* `Catalog.lineages_end` : the check of a lineage, and what follows from it
-/

namespace EntityQuery

/-! ## Going up -/

/-- A chain from an entity through its parents, up to one whose parent cannot be looked up. -/
inductive Upward (entity? : String → Option Entity) : Option Entity → List Entity → Prop where
  | done : Upward entity? none []
  | step {e : Entity} {chain : List Entity}
      (hchain : Upward entity? (e.parent.bind entity?) chain) :
      Upward entity? (some e) (e :: chain)

/-- What is found at the first entity of the chain that has it. -/
inductive Finds {β : Type} (entity? : String → Option Entity) (f : Entity → Option β) :
    Option Entity → Option β → Prop where
  | nowhere : Finds entity? f none none
  | here {e : Entity} {b : β} (hb : f e = some b) : Finds entity? f (some e) (some b)
  | above {e : Entity} {found : Option β} (hnone : f e = none)
      (hfound : Finds entity? f (e.parent.bind entity?) found) : Finds entity? f (some e) found

section

variable {entity? : String → Option Entity} {start : Option Entity} {chain : List Entity}

theorem Upward.unique {other : List Entity} (hchain : Upward entity? start chain)
    (hother : Upward entity? start other) : chain = other := by
  induction hchain generalizing other with
  | done =>
      cases hother
      rfl
  | step _ ih =>
      cases hother with
      | step hother => rw [ih hother]

/-- Going up finds what is first in the chain, and nothing else. -/
theorem Upward.finds_iff {β : Type} {f : Entity → Option β} {found : Option β}
    (hchain : Upward entity? start chain) :
    Finds entity? f start found ↔ found = chain.findSome? f := by
  induction hchain generalizing found with
  | done =>
      constructor
      · rintro ⟨⟩
        rfl
      · rintro rfl
        exact .nowhere
  | @step e chain _ ih =>
      cases hf : f e with
      | some b =>
          rw [List.findSome?_cons, hf]
          constructor
          · rintro (_ | hb | ⟨hnone, -⟩)
            · rw [← hb, hf]
            · simp [hf] at hnone
          · rintro rfl
            exact .here hf
      | none =>
          rw [List.findSome?_cons, hf]
          constructor
          · rintro (_ | hb | ⟨-, hfound⟩)
            · simp [hf] at hb
            · exact ih.mp hfound
          · intro hfound
            exact .above hf (ih.mpr hfound)

end

namespace Catalog

/-- One entity is derived from another. -/
def Parent (c : Catalog) (e next : Entity) : Prop :=
  ∃ name, e.parent = some name ∧ c.entity? name = some next

/-- The check of parents from an entity with its result; `seen` holds the names met so far. -/
inductive Climbs (c : Catalog) : List String → Entity → Except SearchFault Unit → Prop where
  | top {seen : List String} {e : Entity} (hparent : e.parent = none) : Climbs c seen e (.ok ())
  | again {seen : List String} {e : Entity} {parent : String} (hparent : e.parent = some parent)
      (hseen : parent ∈ seen) : Climbs c seen e (.error (.catalog (.inheritanceCycle parent)))
  | missing {seen : List String} {e : Entity} {parent : String} (hparent : e.parent = some parent)
      (hseen : parent ∉ seen) (hnext : c.entity? parent = none) :
      Climbs c seen e (.error (.catalog (.unknownParent e.name parent)))
  | up {seen : List String} {e next : Entity} {parent : String} {result : Except SearchFault Unit}
      (hparent : e.parent = some parent) (hseen : parent ∉ seen)
      (hnext : c.entity? parent = some next)
      (hrest : Climbs c (parent :: seen) next result) : Climbs c seen e result

variable {c : Catalog} {e : Entity} {seen : List String} {result : Except SearchFault Unit}

/-! ## The check ends -/

theorem Climbs.unique {other : Except SearchFault Unit} (hresult : c.Climbs seen e result)
    (hother : c.Climbs seen e other) : result = other := by
  induction hresult with
  | top hparent => cases hother <;> simp_all
  | again hparent hseen => cases hother <;> simp_all
  | missing hparent hseen hnext => cases hother <;> simp_all
  | up hparent hseen hnext _ ih =>
      cases hother with
      | up hparent' _ hnext' hrest =>
          obtain rfl := Option.some.inj (hparent.symm.trans hparent')
          obtain rfl := Option.some.inj (hnext.symm.trans hnext')
          exact ih hrest
      | _ => simp_all

theorem Climbs.fault {error : SearchFault} (hclimbs : c.Climbs seen e (.error error)) :
    ∃ fault, error = .catalog fault := by
  generalize hresult : (Except.error error : Except SearchFault Unit) = result at hclimbs
  induction hclimbs with
  | top => simp at hresult
  | again => exact ⟨_, Except.error.inj hresult⟩
  | missing => exact ⟨_, Except.error.inj hresult⟩
  | up _ _ _ _ ih => exact ih hresult

/-- The bound on the check is never reached: once the steps are used up, every name has been met. -/
theorem climbs_checkParents {steps : Nat} (hseen : seen.Nodup)
    (hsub : seen ⊆ c.entities.map Entity.name)
    (hsteps : (c.entities.map Entity.name).length ≤ seen.length + steps) :
    c.Climbs seen e (c.checkParents steps seen e) := by
  fun_induction checkParents c steps seen e with
  | case1 steps seen e hparent => exact .top hparent
  | case2 steps seen e parent hparent hmem => exact .again hparent (by simpa using hmem)
  | case3 steps seen e parent hparent hmem hnone =>
      exact .missing hparent (by simpa using hmem) hnone
  | case4 seen e parent hparent hmem next hnext =>
      obtain ⟨hdeclared, rfl⟩ := mem_of_entity? hnext
      -- the names met are as many as the entities, so they are all names there are
      have hall := (List.subperm_of_subset hseen hsub).perm_of_length_le hsteps
      exact absurd (hall.mem_iff.mpr (List.mem_map_of_mem hdeclared)) (by simpa using hmem)
  | case5 seen e parent hparent hmem next hnext steps ih =>
      obtain ⟨hdeclared, rfl⟩ := mem_of_entity? hnext
      have hfresh : next.name ∉ seen := by simpa using hmem
      refine .up hparent hfresh hnext (ih (List.nodup_cons.mpr ⟨hfresh, hseen⟩) ?_ ?_)
      · exact List.cons_subset.mpr ⟨List.mem_map_of_mem hdeclared, hsub⟩
      · rw [List.length_cons]
        omega

theorem climbs_iff (he : e ∈ c.entities) :
    c.Climbs [e.name] e result ↔ result = c.checkLineage e := by
  have hclimbs : c.Climbs [e.name] e (c.checkLineage e) :=
    climbs_checkParents (List.nodup_singleton _) (by simpa using ⟨e, he, rfl⟩) (by simp)
  exact ⟨fun hresult => hresult.unique hclimbs, fun hresult => hresult ▸ hclimbs⟩

/-! ## What the check accepts -/

theorem Parent.unique {next other : Entity} (hnext : c.Parent e next) (hother : c.Parent e other) :
    next = other := by
  obtain ⟨name, hname, hnext⟩ := hnext
  obtain ⟨name', hname', hother⟩ := hother
  obtain rfl := Option.some.inj (hname.symm.trans hname')
  exact Option.some.inj (hnext.symm.trans hother)

theorem mem_of_reachable {top : Entity} (htop : Relation.ReflTransGen c.Parent e top)
    (he : e ∈ c.entities) : top ∈ c.entities := by
  induction htop with
  | refl => exact he
  | tail _ hparent _ =>
      obtain ⟨name, -, hnext⟩ := hparent
      exact (mem_of_entity? hnext).1

/-- Entities that are derived from one without parent are not on a cycle. -/
theorem not_cycle_of_top {top : Entity} (hreach : Relation.ReflTransGen c.Parent e top)
    (htop : top.parent = none) : ¬ Relation.TransGen c.Parent e e := by
  induction hreach using Relation.ReflTransGen.head_induction_on with
  | refl =>
      intro hcycle
      obtain ⟨next, ⟨name, hname, -⟩, -⟩ := Relation.TransGen.head'_iff.mp hcycle
      simp [htop] at hname
  | head hparent _ ih =>
      intro hcycle
      obtain ⟨next, hnext, hback⟩ := Relation.TransGen.head'_iff.mp hcycle
      obtain rfl := hparent.unique hnext
      exact ih (Relation.TransGen.tail' hback hparent)

theorem name_ne_of_above (hnames : (c.entities.map Entity.name).Nodup) (he : e ∈ c.entities)
    {top above : Entity} (hreach : Relation.ReflTransGen c.Parent e top) (htop : top.parent = none)
    (habove : Relation.TransGen c.Parent e above) : above.name ≠ e.name := by
  intro hname
  have heq : above = e :=
    List.inj_on_of_nodup_map hnames (mem_of_reachable habove.to_reflTransGen he) he hname
  exact not_cycle_of_top hreach htop (heq ▸ habove)

theorem climbs_of_reachable (hnames : (c.entities.map Entity.name).Nodup) {top : Entity}
    (htop : top.parent = none) (hreach : Relation.ReflTransGen c.Parent e top) (he : e ∈ c.entities)
    (hseen : ∀ above, Relation.TransGen c.Parent e above → above.name ∉ seen) :
    c.Climbs seen e (.ok ()) := by
  induction hreach using Relation.ReflTransGen.head_induction_on generalizing seen with
  | refl => exact .top htop
  | @head e next hparent hreach ih =>
      have hnext : next.name ∉ seen := hseen next (.single hparent)
      have hmem : next ∈ c.entities := mem_of_reachable (.single hparent) he
      obtain ⟨name, hname, hlookup⟩ := id hparent
      obtain ⟨-, rfl⟩ := mem_of_entity? hlookup
      refine .up hname hnext hlookup (ih hmem fun above habove => ?_)
      rw [List.mem_cons, not_or]
      exact ⟨name_ne_of_above hnames hmem hreach htop habove, hseen above (habove.head hparent)⟩

theorem Climbs.exists_top (hclimbs : c.Climbs seen e (.ok ())) :
    ∃ top, Relation.ReflTransGen c.Parent e top ∧ top.parent = none := by
  generalize hresult : (Except.ok () : Except SearchFault Unit) = result at hclimbs
  induction hclimbs with
  | top hparent => exact ⟨_, .refl, hparent⟩
  | again => simp at hresult
  | missing => simp at hresult
  | up hparent _ hnext _ ih =>
      obtain ⟨top, hreach, htop⟩ := ih hresult
      exact ⟨top, hreach.head ⟨_, hparent, hnext⟩, htop⟩

/-- The check accepts exactly if the parents of the entity lead to one without parent. -/
theorem climbs_ok_iff (hnames : (c.entities.map Entity.name).Nodup) (he : e ∈ c.entities) :
    c.Climbs [e.name] e (.ok ()) ↔
      ∃ top, Relation.ReflTransGen c.Parent e top ∧ top.parent = none := by
  refine ⟨Climbs.exists_top, fun ⟨top, hreach, htop⟩ =>
    climbs_of_reachable hnames htop hreach he ?_⟩
  intro above habove
  rw [List.mem_singleton]
  exact name_ne_of_above hnames he hreach htop habove

/-! ## Lineages of accepted catalogs -/

/-- The way up to an entity without parent is a chain in which no name comes twice. -/
theorem exists_upward_of_reachable (hnames : (c.entities.map Entity.name).Nodup) {top : Entity}
    (htop : top.parent = none) (hreach : Relation.ReflTransGen c.Parent e top)
    (he : e ∈ c.entities) :
    ∃ chain, Upward c.entity? (some e) chain ∧ chain.getLast? = some top ∧
      (chain.map Entity.name).Nodup ∧
      ∀ x ∈ chain, Relation.ReflTransGen c.Parent e x := by
  induction hreach using Relation.ReflTransGen.head_induction_on with
  | refl =>
      refine ⟨[top], .step ?_, rfl, List.nodup_singleton _, by simp [Relation.ReflTransGen.refl]⟩
      rw [htop]
      exact .done
  | @head e next hparent hreach ih =>
      obtain ⟨chain, hchain, hlast, hdistinct, hchainReach⟩ :=
        ih (mem_of_reachable (.single hparent) he)
      obtain ⟨name, hname, hlookup⟩ := id hparent
      refine ⟨e :: chain, .step ?_, ?_, ?_, ?_⟩
      · rwa [hname, Option.bind_some, hlookup]
      · rw [List.getLast?_cons, hlast, Option.getD_some]
      · rw [List.map_cons, List.nodup_cons, List.mem_map]
        refine ⟨?_, hdistinct⟩
        rintro ⟨x, hx, hname⟩
        exact name_ne_of_above hnames he (hreach.head hparent) htop
          (.head' hparent (hchainReach x hx)) hname
      · rw [List.forall_mem_cons]
        exact ⟨.refl, fun x hx => (hchainReach x hx).head hparent⟩

/-- Lineages are not longer than the catalog. -/
theorem length_lineage_le (c : Catalog) (name : String) :
    (c.lineage name).length ≤ c.entities.length := by
  have hlength : ∀ steps name, (c.ancestry steps name).length ≤ steps := by
    intro steps
    induction steps with
    | zero => simp [ancestry]
    | succ steps ih =>
        intro name
        rw [ancestry]
        split
        · exact Nat.zero_le _
        · split
          · simp
          · simpa using ih _
  exact hlength _ _

/-- A chain that is not longer than the bound is found as a whole. -/
theorem ancestry_eq_of_upward {steps : Nat} {name : String} {chain : List Entity}
    (hchain : Upward c.entity? (c.entity? name) chain) (hlength : chain.length ≤ steps) :
    c.ancestry steps name = chain := by
  induction steps generalizing name chain with
  | zero => rw [List.eq_nil_of_length_eq_zero (Nat.le_zero.mp hlength), ancestry]
  | succ steps ih =>
      rw [ancestry]
      generalize hfirst : c.entity? name = first at hchain
      cases hchain with
      | done => rfl
      | @step e chain hrest =>
          cases hparent : e.parent with
          | none =>
              rw [hparent, Option.bind_none] at hrest
              cases hrest
              simp [hparent]
          | some parent =>
              rw [hparent, Option.bind_some] at hrest
              simp only [hparent, ih hrest (Nat.le_of_succ_le_succ hlength)]

variable {entities : List Entity} {fallback : Option ScalarType}

theorem checkLineage_of_accepted (haccepted : Catalog.of entities fallback = .ok c)
    (he : e ∈ c.entities) : c.checkLineage e = .ok () := by
  obtain ⟨-, -, hcheck⟩ := check_of_accepted haccepted
  obtain ⟨⟨⟩, hlineages, -⟩ := Outcome.bind_eq_ok_iff.mp hcheck
  exact Outcome.forM_eq_ok_iff.mp hlineages e he

theorem entity?_of_mem (hnames : (c.entities.map Entity.name).Nodup) (he : e ∈ c.entities) :
    c.entity? e.name = some e :=
  (Keyed.find?_eq_some_iff Entity.name hnames).mpr ⟨he, rfl⟩

/-- The lineage of an entity of an accepted catalog is a chain without repetition that ends at one
without parent. -/
theorem lineage_of_accepted (haccepted : Catalog.of entities fallback = .ok c)
    (he : e ∈ c.entities) :
    Upward c.entity? (some e) (c.lineage e.name) ∧ ((c.lineage e.name).map Entity.name).Nodup ∧
      ∃ top, (c.lineage e.name).getLast? = some top ∧ top.parent = none := by
  obtain ⟨-, hnames, -⟩ := check_of_accepted haccepted
  have hclimbs : c.Climbs [e.name] e (.ok ()) :=
    (climbs_iff he).mpr (checkLineage_of_accepted haccepted he).symm
  obtain ⟨top, hreach, htop⟩ := hclimbs.exists_top
  obtain ⟨chain, hchain, hlast, hdistinct, hchainReach⟩ :=
    exists_upward_of_reachable hnames htop hreach he
  -- the names of the chain are different and declared, so the chain is not longer than the catalog
  have hsub : chain.map Entity.name ⊆ c.entities.map Entity.name := by
    intro name hname
    obtain ⟨x, hx, rfl⟩ := List.mem_map.mp hname
    exact List.mem_map_of_mem (mem_of_reachable (hchainReach x hx) he)
  have hlength : chain.length ≤ c.entities.length := by
    simpa using (List.subperm_of_subset hdistinct hsub).length_le
  have hlineage : c.lineage e.name = chain :=
    ancestry_eq_of_upward (by rwa [entity?_of_mem hnames he]) hlength
  rw [hlineage]
  exact ⟨hchain, hdistinct, top, hlast, htop⟩

/-- The bound on lineages is never reached. -/
theorem upward_lineage (haccepted : Catalog.of entities fallback = .ok c) (name : String) :
    Upward c.entity? (c.entity? name) (c.lineage name) := by
  cases hentity : c.entity? name with
  | some e =>
      obtain ⟨he, rfl⟩ := mem_of_entity? hentity
      exact (lineage_of_accepted haccepted he).1
  | none =>
      have hlineage : c.lineage name = [] :=
        ancestry_eq_of_upward (by rw [hentity]; exact .done) (Nat.zero_le _)
      rw [hlineage]
      exact .done

/-- Going up from an entity ends at one without parent and meets no name twice; all that look-up
does on the way ends, and what it finds is what the bounded definitions give. -/
structure Ended (c : Catalog) (e : Entity) : Prop where
  chain : ∀ chain, Upward c.entity? (c.entity? e.name) chain ↔ chain = c.lineage e.name
  distinct : ((c.lineage e.name).map Entity.name).Nodup
  top : ∃ top, (c.lineage e.name).getLast? = some top ∧ top.parent = none
  declared : ∀ name found,
    Finds c.entity? (·.declared? name) (c.entity? e.name) found ↔ found = c.attribute? e.name name
  overriding : ∀ name found,
    Finds c.entity? (·.overrides.lookup name) (c.entity? e.name) found ↔
      found = c.override? e.name name
  bound : ∀ parameter, ∃ bound,
    (∀ found, Finds c.entity? (·.typeArguments.lookup parameter) (c.entity? e.name) found ↔
      found = bound) ∧
      c.parameterType e.name parameter =
        match bound <|> c.fallback with
        | some type => .ok type
        | none => .error (.catalog (.unboundParameter parameter e.name))
  visible : ∀ chain, Upward c.entity? (c.entity? e.name) chain →
    c.visible e.name = Keyed.ofList Attribute.name (chain.reverse.flatMap Entity.attributes)

theorem ended_of_accepted (haccepted : Catalog.of entities fallback = .ok c) (he : e ∈ c.entities) :
    c.Ended e := by
  obtain ⟨-, hdistinct, htop⟩ := lineage_of_accepted haccepted he
  have hchain := upward_lineage haccepted e.name
  exact {
    chain := fun chain => ⟨fun hother => hother.unique hchain, fun hother => hother ▸ hchain⟩
    distinct := hdistinct
    top := htop
    declared := fun name found => hchain.finds_iff
    overriding := fun name found => hchain.finds_iff
    bound := fun parameter => ⟨_, fun found => hchain.finds_iff, rfl⟩
    visible := fun chain hother => by rw [hother.unique hchain, visible] }

/-- For any entities of distinct names, the check of a lineage ends, accepts exactly if the parents
of the entity lead to one without parent, and otherwise fails with a fault of the catalog; in an
accepted catalog, everything that goes up a lineage ends. -/
theorem lineages_end (entities : List Entity) (fallback : Option ScalarType)
    (hnames : (entities.map Entity.name).Nodup) :
    (∀ e ∈ entities, let c : Catalog := ⟨entities, fallback⟩
      (∀ result, c.Climbs [e.name] e result ↔ result = c.checkLineage e) ∧
      (c.checkLineage e = .ok () ↔
        ∃ top, Relation.ReflTransGen c.Parent e top ∧ top.parent = none) ∧
      ((¬ ∃ top, Relation.ReflTransGen c.Parent e top ∧ top.parent = none) →
        ∃ fault, c.checkLineage e = .error (.catalog fault))) ∧
    ∀ c, Catalog.of entities fallback = .ok c → ∀ e ∈ entities, c.Ended e := by
  constructor
  · intro e he c
    have hresult : ∀ {result}, c.Climbs [e.name] e result ↔ result = c.checkLineage e :=
      climbs_iff he
    have hok : c.checkLineage e = .ok () ↔
        ∃ top, Relation.ReflTransGen c.Parent e top ∧ top.parent = none := by
      rw [eq_comm, ← hresult]
      exact climbs_ok_iff hnames he
    refine ⟨fun result => hresult, hok, fun hnone => ?_⟩
    cases hcheck : c.checkLineage e with
    | ok => exact absurd (hok.mp hcheck) hnone
    | error error =>
        obtain ⟨fault, rfl⟩ := (hresult.mpr hcheck.symm).fault
        exact ⟨fault, rfl⟩
  · intro c haccepted e he
    obtain ⟨rfl, -, -⟩ := check_of_accepted haccepted
    exact ended_of_accepted haccepted he

/-- Authors are persons, and the type of their identifiers is a parameter. -/
def tiers : List Entity := [
  ⟨"Base", none, [], none, "id", [⟨"id", .parameter "K"⟩], [], []⟩,
  ⟨"Person", none, [], some "Base", "id", [⟨"name", .scalar .text⟩], [], [("K", .int64)]⟩,
  ⟨"Author", none, [], some "Person", "id", [⟨"born", .scalar .date⟩], [("name", "full_name")], []⟩]

/-- An entity that is derived from two others, which are derived from each other. -/
def leaf : Entity := ⟨"Leaf", none, [], some "Left", "id", [⟨"id", .scalar .int64⟩], [], []⟩

def looped : List Entity := [leaf,
  ⟨"Left", none, [], some "Right", "id", [⟨"id", .scalar .int64⟩], [], []⟩,
  ⟨"Right", none, [], some "Left", "id", [⟨"id", .scalar .int64⟩], [], []⟩]

/-- Going up from a person or an author ends; going up to a cycle does not, but its check does. -/
theorem lineages_end_tiers :
    (∃ c, Catalog.of tiers (some .int64) = .ok c ∧ ∀ e ∈ tiers, c.Ended e) ∧
      Climbs ⟨looped, none⟩ ["Leaf"] leaf (.error (.catalog (.inheritanceCycle "Left"))) ∧
        ¬ ∃ top, Relation.ReflTransGen (Parent ⟨looped, none⟩) leaf top ∧ top.parent = none := by
  have haccepted : Catalog.of tiers (some .int64) = .ok ⟨tiers, some .int64⟩ := by rfl
  have hcheck :
      checkLineage ⟨looped, none⟩ leaf = .error (.catalog (.inheritanceCycle "Left")) := by rfl
  obtain ⟨hclimbs, hok, -⟩ := (lineages_end looped none (by decide)).1 leaf (by simp [looped])
  refine ⟨⟨_, haccepted, (lineages_end tiers (some .int64) (by decide)).2 _ haccepted⟩, ?_, ?_⟩
  · exact (hclimbs _).mpr hcheck.symm
  · rw [← hok, hcheck]
    simp

end Catalog

end EntityQuery
