import EntityQuery.Proofs.Filter.Typing
import EntityQuery.Search.Planner

/-!
# The predicate of a request

The filters and parameters of a request are compiled one by one and put together.  What has been
shown of one tree carries over to the whole: the predicate reads the columns of the fields that are
tested, its joins are those of the fields, and on a conforming row it is true exactly if one of the
filters holds, if there are any, and the parameters hold.

`Compiled.Realizes` says all this of a predicate, a list of fields and a condition on the values of
a row.  It holds of the predicate of a sound tree, and putting predicates together puts fields and
conditions together.

## Main definitions

* `Request.Sound` : the filters and parameters of a request make sense
* `Request.truth` : what the filters and parameters of a request mean
* `Compiled.Realizes` : a predicate reads some fields and decides a condition

## Main statements

* `sound_of_read` : a request that is read is sound
* `joins_of_predicate` : the joins of a predicate are those of the tested fields
* `reads_of_predicate` : the columns of a predicate are those of the tested fields
* `realizes_predicate` : the predicate of a sound request decides what the request means
-/

namespace EntityQuery

open EntityQuery.Expr

/-! ## What a request means -/

namespace Request

/-- The fields that the filters and parameters test. -/
def fields (r : Request) : List FieldRef :=
  r.groups.flatMap FilterTree.fields ++ (r.parameters.map FilterTree.fields).getD []

/-- The joins that lead to the fields that the filters and parameters test. -/
def joinSteps (r : Request) : List JoinStep :=
  JoinStep.merge [] (r.fields.flatMap fun f => f.field.joins)

/-- One of the filters holds, if there are any, and the parameters hold. -/
def truth (cells : Cells) (r : Request) : Bool :=
  (r.groups.isEmpty || r.groups.any (FilterTree.truth cells)) &&
    r.parameters.all (FilterTree.truth cells)

/-- The filters and parameters make sense for a root entity: they test fields of the catalog against
literals of types that can be compared with theirs. -/
structure Sound (c : Catalog) (root : String) (r : Request) : Prop where
  groups : ∀ tree ∈ r.groups, tree.Sound c root
  parameters : ∀ tree, r.parameters = some tree → tree.Sound c root

end Request

/-- The values in a request as sent are JSON values as a text can hold them. -/
def WireRequest.isProper (wire : WireRequest) : Bool :=
  Json.areProper wire.filters && wire.parameters.all fun p => Json.areProper p.2.values

namespace WireRequest

variable {c : Catalog} {root marker : String}

theorem sound_of_readGroups {filters : List Json} (hfilters : Json.areProper filters = true)
    {groups : List FilterTree} (hread : readGroups c root filters = .ok groups) :
    ∀ tree ∈ groups, tree.Sound c root := by
  obtain ⟨all, hall, hgroups⟩ := Outcome.bind_eq_ok_iff.mp hread
  obtain rfl := Except.ok.inj hgroups
  intro tree htree
  split at htree
  · simp at htree
  · obtain ⟨found, hmem, rfl⟩ := List.mem_filterMap.mp htree
    obtain ⟨json, hjson, htree⟩ := Outcome.exists_of_mem_mapM hall hmem
    exact FilterReader.sound_of_read (Json.areProper_iff.mp hfilters json hjson) htree

theorem sound_of_readParameters {parameters : List (String × WireParameter)}
    (hparameters : ∀ p ∈ parameters, Json.areProper p.2.values = true) {tree : FilterTree}
    (hread : readParameters c root marker parameters = .ok (some tree)) : tree.Sound c root := by
  obtain ⟨read, hparsed, hread⟩ := Outcome.bind_eq_ok_iff.mp hread
  refine Parameter.sound_of_readAll (fun p hp => ?_) hread
  obtain ⟨⟨path, sent⟩, hsent, hp⟩ := Outcome.exists_of_mem_mapM hparsed hp
  rw [sortedParameters, List.mem_mergeSort] at hsent
  dsimp only at hp
  unfold readParameter at hp
  split at hp
  · obtain rfl := Except.ok.inj hp
    exact hparameters _ hsent
  · simp at hp

/-- A request that is read is sound. -/
theorem sound_of_read {wire : WireRequest} (hwire : wire.isProper = true) {r : Request}
    (hread : wire.read c root marker = .ok r) : r.Sound c root := by
  rw [isProper, Bool.and_eq_true, List.all_eq_true] at hwire
  obtain ⟨groups, hgroups, hread⟩ := Outcome.bind_eq_ok_iff.mp hread
  obtain ⟨parameters, hparameters, hread⟩ := Outcome.bind_eq_ok_iff.mp hread
  have hparts : r.groups = groups ∧ r.parameters = parameters := by
    dsimp only at hread
    split at hread
    · obtain ⟨aggregates, -, hread⟩ := Outcome.bind_eq_ok_iff.mp hread
      obtain rfl := Except.ok.inj hread
      exact ⟨rfl, rfl⟩
    · obtain rfl := Except.ok.inj hread
      exact ⟨rfl, rfl⟩
  obtain ⟨rfl, rfl⟩ := hparts
  constructor
  · exact sound_of_readGroups hwire.1 hgroups
  · intro tree htree
    rw [htree] at hparameters
    exact sound_of_readParameters hwire.2 hparameters

end WireRequest

/-! ## Predicates that decide a condition -/

/-- The predicate reads the columns of some fields, its joins are those of the fields, and it
decides a condition: on a row that conforms to the fields it is true exactly if the condition holds
of the values of the row. -/
structure Compiled.Realizes (compiled : Compiled) (fields : List FieldRef)
    (condition : Cells → Bool) : Prop where
  joins : compiled.joins = JoinStep.merge [] (fields.flatMap fun f => f.field.joins)
  reads : compiled.predicate.reads = fields.map fun f => f.field.columnPath
  checks : ∀ {schema : Schema} {bound : Expr}, schema.names.Nodup →
    (∀ f ∈ fields, ⟨f.field.columnPath, f.type⟩ ∈ schema) →
    compiled.predicate.bind schema.names = .ok bound →
      bound.ChecksAsTruth schema.types
  holds : ∀ {layout : List String} {bound : Expr} {row : Row},
    compiled.predicate.bind layout = .ok bound →
    row.length = layout.length →
      (∀ f ∈ fields, (row.cell layout f.field.columnPath).conforms f.type = true) →
        bound.holds row = .ok (condition (row.cell layout))

theorem Compiled.joins_combine {op : BinaryOp} {left right : Compiled}
    {fields others : List FieldRef}
    (hleft : left.joins = JoinStep.merge [] (fields.flatMap fun f => f.field.joins))
    (hright : right.joins = JoinStep.merge [] (others.flatMap fun f => f.field.joins)) :
    (combine op left right).joins =
      JoinStep.merge [] ((fields ++ others).flatMap fun f => f.field.joins) := by
  change JoinStep.merge left.joins right.joins = _
  rw [hleft, hright, JoinStep.merge_merge, List.flatMap_append, JoinStep.merge_append]
  rfl

namespace Compiled.Realizes

variable {left right compiled : Compiled} {fields others : List FieldRef} {p q : Cells → Bool}

/-- Conditions put together by an operation that the operator of their predicates stands for. -/
theorem combine {op : BinaryOp} {operation : Bool → Bool → Bool}
    (hchecks : ∀ {schema : List ScalarType} {l r : Expr},
      l.ChecksAsTruth schema → r.ChecksAsTruth schema →
      (binary op l r).ChecksAsTruth schema)
    (hholds : ∀ {row : Row} {l r : Expr} {a b : Bool}, l.holds row = .ok a → r.holds row = .ok b →
      (binary op l r).holds row = .ok (operation a b))
    (hleft : left.Realizes fields p) (hright : right.Realizes others q) :
    (Compiled.combine op left right).Realizes (fields ++ others) fun cells =>
      operation (p cells) (q cells) where
  joins := joins_combine hleft.joins hright.joins
  reads := by
    rw [List.map_append, ← hleft.reads, ← hright.reads]
    rfl
  checks := by
    intro schema bound hnodup hcolumns hbound
    rw [List.forall_mem_append] at hcolumns
    obtain ⟨l, r, hl, hr, rfl⟩ := bind_binary_eq_ok hbound
    exact hchecks (hleft.checks hnodup hcolumns.1 hl) (hright.checks hnodup hcolumns.2 hr)
  holds := by
    intro layout bound row hbound hwidth hrow
    rw [List.forall_mem_append] at hrow
    obtain ⟨l, r, hl, hr, rfl⟩ := bind_binary_eq_ok hbound
    exact hholds (hleft.holds hl hwidth hrow.1) (hright.holds hr hwidth hrow.2)

theorem and (hleft : left.Realizes fields p) (hright : right.Realizes others q) :
    (Compiled.combine .and left right).Realizes (fields ++ others) fun cells =>
      p cells && q cells :=
  combine ChecksAsTruth.and holds_and hleft hright

theorem or (hleft : left.Realizes fields p) (hright : right.Realizes others q) :
    (Compiled.combine .or left right).Realizes (fields ++ others) fun cells => p cells || q cells :=
  combine ChecksAsTruth.or holds_or hleft hright

end Compiled.Realizes

namespace FilterTree

variable {c : Catalog} {root : String}

/-- A sound tree tests fields that the catalog knows. -/
theorem Sound.resolved {tree : FilterTree} (hsound : tree.Sound c root) :
    ∀ f ∈ tree.fields, f.Resolved c root := by
  induction tree with
  | field f => exact hsound.elim
  | literal value => exact hsound.elim
  | test op f value =>
      intro g hg
      rw [List.mem_singleton.mp hg]
      exact hsound.1
  | unary op operand ih => exact ih hsound.2
  | compound op left right ihleft ihright =>
      rw [fields, List.forall_mem_append]
      exact ⟨ihleft hsound.2.1, ihright hsound.2.2⟩

theorem joins_of_compileTest {hooks : FieldHooks} {op : FilterOperator} {f : FieldRef}
    {value : Value} {compiled : Compiled} (hcompile : compileTest hooks op f value = .ok compiled) :
    compiled.joins = JoinStep.merge [] f.field.joins := by
  obtain ⟨-, e, -, rfl⟩ := compileTest_eq_ok_iff.mp hcompile
  rfl

/-- The joins of the predicate of a tree are those of its fields, whatever its columns are renamed
to. -/
theorem joins_of_compile {hooks : FieldHooks} {tree : FilterTree} {compiled : Compiled}
    (hcompile : tree.compile hooks = .ok compiled) :
    compiled.joins = JoinStep.merge [] (tree.fields.flatMap fun f => f.field.joins) := by
  induction tree generalizing compiled with
  | field f => simp [compile] at hcompile
  | literal value => simp [compile] at hcompile
  | test op f value =>
      rw [joins_of_compileTest hcompile]
      simp [fields]
  | unary op operand ih =>
      obtain ⟨rfl, inner, hinner, rfl⟩ := compile_unary_eq_ok hcompile
      change inner.joins = _
      exact ih hinner
  | compound op left right ihleft ihright =>
      obtain ⟨l, r, hl, hr, hcompiled⟩ := compile_compound_eq_ok hcompile
      have hjoins (op : BinaryOp) := @Compiled.joins_combine op _ _ _ _ (ihleft hl) (ihright hr)
      rcases hcompiled with ⟨-, rfl⟩ | ⟨-, rfl⟩ | ⟨-, rfl⟩
      · exact hjoins .and
      · exact hjoins .or
      · exact hjoins .and

theorem realizes_of_compile {tree : FilterTree} (hsound : tree.Sound c root) {compiled : Compiled}
    (hcompile : tree.compile .none = .ok compiled) :
    compiled.Realizes tree.fields fun cells => tree.truth cells where
  joins := joins_of_compile hcompile
  reads := reads_of_compile hcompile
  checks hnodup hcolumns hbound := checksAsTruth_of_compile hsound hcompile hnodup hcolumns hbound
  holds hbound hwidth hrow := holds_of_compile hsound hcompile hbound hwidth hrow

theorem foldl_of_combine {P : Compiled → List FieldRef → Prop}
    (hcombine : ∀ {l r : Compiled} {fields others : List FieldRef}, P l fields → P r others →
      P (.combine .or l r) (fields ++ others))
    {trees : List FilterTree} {rest : List Compiled}
    (hrest : List.Forall₂ (fun tree compiled => P compiled (FilterTree.fields tree)) trees rest)
    {first : Compiled} {fields : List FieldRef} (hfirst : P first fields) :
    P (rest.foldl (.combine .or) first) (fields ++ trees.flatMap FilterTree.fields) := by
  induction hrest generalizing first fields with
  | nil => simpa using hfirst
  | cons htree _ ih => simpa using ih (hcombine hfirst htree)

/-- What the predicates of all trees have in common with the fields of the trees, the predicate of
several filters has in common with the fields of the filters. -/
theorem of_compileGroups {hooks : FieldHooks} {P : Compiled → List FieldRef → Prop}
    (halways : P ⟨.always, false, []⟩ [])
    (hcombine : ∀ {l r : Compiled} {fields others : List FieldRef}, P l fields → P r others →
      P (.combine .or l r) (fields ++ others))
    (htree : ∀ {tree : FilterTree} {compiled : Compiled},
      tree.compile hooks = .ok compiled → P compiled tree.fields)
    {groups : List FilterTree} {compiled : Compiled}
    (hcompile : compileGroups hooks groups = .ok compiled) :
    P compiled (groups.flatMap FilterTree.fields) := by
  obtain ⟨all, hall, hcompile⟩ := Outcome.bind_eq_ok_iff.mp hcompile
  cases Outcome.mapM_eq_ok_iff.mp hall with
  | nil =>
      obtain rfl := Except.ok.inj hcompile
      exact halways
  | cons hfirst hrest =>
      obtain rfl := Except.ok.inj hcompile
      exact foldl_of_combine hcombine (hrest.imp fun _ _ => htree) (htree hfirst)

theorem realizes_always : Compiled.Realizes ⟨.always, false, []⟩ [] fun _ => true where
  joins := rfl
  reads := rfl
  checks := by
    rintro schema bound - - hbound
    obtain rfl := Except.ok.inj hbound
    exact .inr rfl
  holds := by
    rintro layout bound row hbound - -
    obtain rfl := Except.ok.inj hbound
    exact holds_always

theorem realizes_foldl {trees : List FilterTree} (hsound : ∀ tree ∈ trees, tree.Sound c root)
    {rest : List Compiled}
    (hcompile : List.Forall₂ (fun tree compiled => compile .none tree = .ok compiled) trees rest)
    {first : Compiled} {fields : List FieldRef} {p : Cells → Bool}
    (hfirst : first.Realizes fields p) :
    (rest.foldl (.combine .or) first).Realizes (fields ++ trees.flatMap FilterTree.fields)
      fun cells => p cells || trees.any (truth cells) := by
  induction hcompile generalizing first fields p with
  | nil => simpa using hfirst
  | cons htree _ ih =>
      rw [List.forall_mem_cons] at hsound
      have hnext := ih hsound.2 (hfirst.or (realizes_of_compile hsound.1 htree))
      simpa [Bool.or_assoc] using hnext

/-- The predicate of several filters decides whether one of them holds, if there are any. -/
theorem realizes_compileGroups {groups : List FilterTree}
    (hsound : ∀ tree ∈ groups, tree.Sound c root) {compiled : Compiled}
    (hcompile : compileGroups .none groups = .ok compiled) :
    compiled.Realizes (groups.flatMap FilterTree.fields) fun cells =>
      groups.isEmpty || groups.any (truth cells) := by
  obtain ⟨all, hall, hcompile⟩ := Outcome.bind_eq_ok_iff.mp hcompile
  cases Outcome.mapM_eq_ok_iff.mp hall with
  | nil =>
      obtain rfl := Except.ok.inj hcompile
      exact realizes_always
  | cons hfirst hrest =>
      obtain rfl := Except.ok.inj hcompile
      rw [List.forall_mem_cons] at hsound
      exact realizes_foldl hsound.2 hrest (realizes_of_compile hsound.1 hfirst)

end FilterTree

namespace Request

variable {c : Catalog} {root : String} {r : Request}

/-- What the predicates of all trees have in common with the fields of the trees, the predicate of a
request has in common with the fields that the request tests. -/
theorem of_predicate {hooks : FieldHooks} {P : Compiled → List FieldRef → Prop}
    (halways : P ⟨.always, false, []⟩ [])
    (hcombine : ∀ (op : BinaryOp) {l r : Compiled} {fields others : List FieldRef},
      P l fields → P r others →
      P (.combine op l r) (fields ++ others))
    (htree : ∀ {tree : FilterTree} {compiled : Compiled},
      tree.compile hooks = .ok compiled → P compiled tree.fields)
    {compiled : Compiled} (hcompile : Planner.predicate hooks r = .ok compiled) :
    P compiled r.fields := by
  obtain ⟨groups, hgroups, hcompile⟩ := Outcome.bind_eq_ok_iff.mp hcompile
  have hall := FilterTree.of_compileGroups halways (hcombine .or) htree hgroups
  unfold fields
  cases hparameters : r.parameters with
  | none =>
      rw [hparameters] at hcompile
      obtain rfl := Except.ok.inj hcompile
      simpa using hall
  | some tree =>
      rw [hparameters] at hcompile
      obtain ⟨parameters, hcompiled, hcompile⟩ := Outcome.bind_eq_ok_iff.mp hcompile
      obtain rfl := Except.ok.inj hcompile
      exact hcombine .and hall (htree hcompiled)

/-- The joins of the predicate of a request are those of the fields that it tests, whatever its
columns are renamed to. -/
theorem joins_of_predicate {hooks : FieldHooks} {compiled : Compiled}
    (hcompile : Planner.predicate hooks r = .ok compiled) : compiled.joins = r.joinSteps := by
  refine of_predicate (P := fun compiled fields => compiled.joins =
    JoinStep.merge [] (fields.flatMap fun f =>
      f.field.joins)) rfl ?_ FilterTree.joins_of_compile hcompile
  intro op l r fields others hl hr
  exact Compiled.joins_combine hl hr

/-- The predicate of a request reads the columns of the fields that it tests, sound or not. -/
theorem reads_of_predicate {compiled : Compiled}
    (hcompile : Planner.predicate .none r = .ok compiled) :
    compiled.predicate.reads = r.fields.map fun f => f.field.columnPath := by
  refine of_predicate (P := fun compiled fields => compiled.predicate.reads =
    fields.map fun f => f.field.columnPath) rfl ?_ FilterTree.reads_of_compile hcompile
  intro op l r fields others hl hr
  change l.predicate.reads ++ r.predicate.reads = _
  rw [hl, hr, List.map_append]

/-- The predicate of a sound request decides what the request means. -/
theorem realizes_predicate (hsound : r.Sound c root) {compiled : Compiled}
    (hcompile : Planner.predicate .none r = .ok compiled) :
    compiled.Realizes r.fields fun cells => r.truth cells := by
  obtain ⟨groups, hgroups, hcompile⟩ := Outcome.bind_eq_ok_iff.mp hcompile
  have hgroups := FilterTree.realizes_compileGroups hsound.groups hgroups
  unfold fields truth
  cases hparameters : r.parameters with
  | none =>
      rw [hparameters] at hcompile
      obtain rfl := Except.ok.inj hcompile
      simpa using hgroups
  | some tree =>
      rw [hparameters] at hcompile
      obtain ⟨parameters, hcompiled, hcompile⟩ := Outcome.bind_eq_ok_iff.mp hcompile
      obtain rfl := Except.ok.inj hcompile
      exact hgroups.and
        (FilterTree.realizes_of_compile (hsound.parameters tree hparameters) hcompiled)

theorem Sound.resolved (hsound : r.Sound c root) : ∀ f ∈ r.fields, f.Resolved c root := by
  intro f hf
  rcases List.mem_append.mp hf with hf | hf
  · obtain ⟨tree, htree, hf⟩ := List.mem_flatMap.mp hf
    exact (hsound.groups tree htree).resolved f hf
  · cases hparameters : r.parameters with
    | none => simp [hparameters] at hf
    | some tree =>
        rw [hparameters] at hf
        exact (hsound.parameters tree hparameters).resolved f hf

end Request

end EntityQuery
