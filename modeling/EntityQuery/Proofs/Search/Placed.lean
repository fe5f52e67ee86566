import EntityQuery.Proofs.Search.Nested
import Mathlib.Data.Nat.Find

/-!
# Values in their places

The labels of a record are names that lead to values.  Where no label leads through the value of
another one, nesting puts every value where its label leads, whatever the order of the labels is.
Pruning then makes null of every object below the top under which all is null.  So each value is
found at the end of its names, unless the way to it ends in a null before; and there is nothing else
in the entity.

## Strategy

The members that nesting makes are told from the leaves alone: there is one for each first name, and
it holds the leaves below that name (`nestAll_eq`).  This is shown by adding one leaf behind the
others.  All else goes down the names: the leaves below a name are again in no way of each other, so
they are a single value or have names of their own (`Apart.induct`).

## Main definitions

* `Json.at?` : what stands at the end of some names
* `Json.Reordered` : values that differ in the order of members at most
* `Rebuild.leaves` : the names and values of a record
* `Rebuild.Leaves.Shown` : where a leaf is found, and what is found there

## Main statements

* `nestAll_eq` : members for all first names
* `entity_eq_null_iff` : what pruning makes null
* `at?_entity_iff` : what is found below a name
* `reordered_entity` : the order of the leaves
* `nested_shows` : the entity of a record
-/

namespace EntityQuery

namespace Keyed

/-- An entry that is put among entries made of distinct keys is the one made of its key. -/
theorem put_map {β : Type} {f g : String → β} {name : String} {keys : List String}
    (hkeys : keys.Nodup) (h : ∀ key ∈ keys, key ≠ name → f key = g key) :
    put Prod.fst (name, g name) (keys.map fun key => (key, f key)) =
      (if name ∈ keys then keys else keys ++ [name]).map fun key => (key, g key) := by
  induction keys with
  | nil => rfl
  | cons key keys ih =>
      rw [List.nodup_cons] at hkeys
      rw [List.forall_mem_cons] at h
      by_cases hname : key = name
      · subst hname
        have hrest : (keys.map fun key => (key, f key)) = keys.map fun key => (key, g key) :=
          List.map_congr_left fun other hother => by
            rw [h.2 other hother fun e => hkeys.1 (e ▸ hother)]
        rw [List.map_cons, put, if_pos rfl, if_pos (List.mem_cons_self ..), List.map_cons, hrest]
      · rw [List.map_cons, put, if_neg hname, ih hkeys.2 h.2, h.1 hname]
        simp only [List.mem_cons, Ne.symm hname, false_or]
        split <;> simp

end Keyed

theorem Path.dotted_append_names {first more : List String} (hfirst : first ≠ [])
    (hmore : more ≠ []) : dotted (first ++ more) = dotted first ++ "." ++ dotted more := by
  induction more using List.reverseRecOn with
  | nil => exact absurd rfl hmore
  | append_singleton more name ih =>
      rw [← List.append_assoc, dotted_append (by simp [hfirst])]
      cases more with
      | nil => rw [List.append_nil, List.nil_append, dotted_singleton]
      | cons second more =>
          rw [ih (by simp), dotted_append (by simp)]
          simp only [String.append_assoc]

namespace Json

/-! ## Places in a value -/

/-- What stands at the end of some names. -/
def at? : List String → Json → Option Json
  | [], json => some json
  | name :: rest, .obj members => (member? name members).bind (at? rest)
  | _ :: _, _ => none

/-- The value is an object. -/
def isObject : Json → Bool
  | .obj _ => true
  | _ => false

/-- There is nothing below the value. -/
def isLeaf : Json → Bool
  | .obj members => members.isEmpty
  | _ => true

theorem at?_eq_some_iff {json value : Json} (hjson : json.isObject = false) {names : List String} :
    at? names json = some value ↔ names = [] ∧ value = json := by
  cases names with
  | nil => simp [at?, eq_comm]
  | cons name rest => cases json <;> simp_all [at?, isObject]

theorem isLeaf_of_not_object {json : Json} (hjson : json.isObject = false) :
    json.isLeaf = true := by
  cases json <;> simp_all [isObject, isLeaf]

theorem isNull_iff {json : Json} : json.isNull = true ↔ json = .null := by
  cases json <;> simp [isNull]

theorem member?_map (f : String → Json) (name : String) (names : List String) :
    member? name (names.map fun n => (n, f n)) = if name ∈ names then some (f name) else none := by
  induction names with
  | nil => rfl
  | cons first names ih =>
      rw [member?, List.map_cons, List.lookup_cons]
      by_cases hname : name = first
      · simp [hname]
      · have hne : (name == first) = false := by simpa using hname
        simp only [hne, List.mem_cons, hname, false_or]
        exact ih

/-! ## Order of members -/

mutual

/-- The values are equal but for the order of members. -/
inductive Reordered : Json → Json → Prop
  | same (json : Json) : Reordered json json
  | obj {members others : List (String × Json)} (h : Shuffled members others) :
      Reordered (.obj members) (.obj others)

/-- The members are the same in another order, and so are those of their values. -/
inductive Shuffled : List (String × Json) → List (String × Json) → Prop
  | nil : Shuffled [] []
  | cons {value other : Json} {rest others : List (String × Json)} (name : String)
      (h : Reordered value other) (hrest : Shuffled rest others) :
      Shuffled ((name, value) :: rest) ((name, other) :: others)
  | swap (first second : String × Json) (rest : List (String × Json)) :
      Shuffled (first :: second :: rest) (second :: first :: rest)
  | trans {members others more : List (String × Json)} (h : Shuffled members others)
      (hmore : Shuffled others more) :
      Shuffled members more

end

theorem shuffled_of_perm {members others : List (String × Json)} (h : members.Perm others) :
    Shuffled members others := by
  induction h with
  | nil => exact .nil
  | cons m _ ih => exact .cons m.1 (.same m.2) ih
  | swap first second rest => exact .swap second first rest
  | trans _ _ ih ih' => exact .trans ih ih'

theorem shuffled_map {f g : String → Json} {names : List String}
    (h : ∀ name ∈ names, Reordered (f name) (g name)) :
    Shuffled (names.map fun name => (name, f name)) (names.map fun name => (name, g name)) := by
  induction names with
  | nil => exact .nil
  | cons name names ih =>
      rw [List.forall_mem_cons] at h
      exact .cons name h.1 (ih h.2)

end Json

namespace Rebuild

@[simp] theorem isObject_toJson (v : Value) : v.toJson.isObject = false := by
  cases v with
  | float64 x =>
      rw [Value.toJson]
      split <;> rfl
  | _ => rfl

/-! ## Leaves -/

/-- Values, and the names that lead to them. -/
abbrev Leaves := List (List String × Value)

/-- The leaves of a record below a root path. -/
def leaves (rootPath : String) (r : Record) : Leaves :=
  r.entries.map fun e => (Text.pieces '.' (relative rootPath e.1), e.2)

namespace Leaves

/-- The leaves below a name. -/
def under (name : String) (ls : Leaves) : Leaves :=
  ls.filterMap fun l =>
    match l.1 with
    | [] => none
    | first :: rest => if first = name then some (rest, l.2) else none

/-- The first names, in the order in which they come first. -/
def heads (ls : Leaves) : List String := Keyed.addAll id [] (ls.filterMap (·.1.head?))

/-- Names never lead to a leaf through another one. -/
def Apart (ls : Leaves) : Prop := ls.Pairwise fun l m => ¬ l.1 <+: m.1 ∧ ¬ m.1 <+: l.1

/-- There are names on the way to every leaf. -/
def Named (ls : Leaves) : Prop := ∀ l ∈ ls, l.1 ≠ []

variable {ls others : Leaves} {name : String} {names rest : List String} {v : Value}
  {l : List String × Value}

theorem mem_under_iff : (rest, v) ∈ ls.under name ↔ (name :: rest, v) ∈ ls := by
  simp only [under, List.mem_filterMap]
  constructor
  · rintro ⟨⟨names, value⟩, hl, h⟩
    cases names with
    | nil => simp at h
    | cons first tail =>
        obtain ⟨rfl, heq⟩ := Option.ite_none_right_eq_some.mp h
        obtain ⟨rfl, rfl⟩ := Prod.mk.inj (Option.some.inj heq)
        exact hl
  · intro hl
    exact ⟨_, hl, by simp⟩

theorem mem_heads_iff : name ∈ ls.heads ↔ ls.under name ≠ [] := by
  have hkey := Keyed.mem_map_addAll id [] (ls.filterMap (·.1.head?)) name
  simp only [List.map_id, List.not_mem_nil, false_or, List.mem_filterMap, Prod.exists] at hkey
  rw [heads, hkey, Ne, List.eq_nil_iff_forall_not_mem, not_forall_not]
  simp only [Prod.exists, mem_under_iff]
  constructor
  · rintro ⟨names, value, hl, hhead⟩
    obtain ⟨rest, rfl⟩ := List.head?_eq_some_iff.mp hhead
    exact ⟨rest, value, hl⟩
  · rintro ⟨rest, value, hl⟩
    exact ⟨name :: rest, value, hl, rfl⟩

theorem nodup_heads (ls : Leaves) : ls.heads.Nodup := by
  have hkey := @Keyed.nodup_map_addAll _ id (ls.filterMap (·.1.head?)) [] List.nodup_nil
  rwa [List.map_id] at hkey

theorem heads_concat (ls : Leaves) (name : String) (rest : List String) (v : Value) :
    (ls ++ [(name :: rest, v)]).heads =
      if name ∈ ls.heads then ls.heads else ls.heads ++ [name] := by
  have hadd := Keyed.map_add id ls.heads name
  simp only [List.map_id, id] at hadd
  rw [← hadd, heads, List.filterMap_append, Keyed.addAll, List.foldl_append]
  rfl

theorem under_concat_self (ls : Leaves) (name : String) (rest : List String) (v : Value) :
    (ls ++ [(name :: rest, v)]).under name = ls.under name ++ [(rest, v)] := by
  simp [under]

theorem under_concat_of_ne {first : String} (hne : first ≠ name) (ls : Leaves) (rest : List String)
    (v : Value) : (ls ++ [(first :: rest, v)]).under name = ls.under name := by
  simp [under, hne]

theorem forall_under_iff (hnamed : ls.Named) {P : Value → Prop} :
    (∀ name ∈ ls.heads, ∀ l ∈ ls.under name, P l.2) ↔ ∀ l ∈ ls, P l.2 := by
  constructor
  · rintro h ⟨names, v⟩ hl
    obtain ⟨name, rest, rfl⟩ := List.exists_cons_of_ne_nil (hnamed _ hl)
    have hunder := mem_under_iff.mpr hl
    exact h name (mem_heads_iff.mpr (List.ne_nil_of_mem hunder)) (rest, v) hunder
  · rintro h name - ⟨rest, v⟩ hl
    exact h (name :: rest, v) (mem_under_iff.mp hl)

/-! ## Leaves in no way of each other -/

namespace Apart

theorem under (h : ls.Apart) (name : String) : (ls.under name).Apart := by
  refine List.Pairwise.filterMap _ (fun l m hlm => ?_) h
  obtain ⟨_ | ⟨first, rest⟩, v⟩ := l
  · simp
  · obtain ⟨_ | ⟨second, more⟩, w⟩ := m
    · simp
    · simp only [Option.ite_none_right_eq_some, Option.some.injEq, and_imp]
      rintro _ rfl rfl _ rfl rfl
      simpa using hlm

theorem eq_singleton (h : ls.Apart) (hl : ([], v) ∈ ls) : ls = [([], v)] := by
  obtain ⟨before, after, rfl⟩ := List.append_of_mem hl
  rw [Apart, List.pairwise_append, List.pairwise_cons] at h
  have hbefore : before = [] :=
    List.eq_nil_iff_forall_not_mem.mpr fun m hm =>
      (h.2.2 m hm _ (List.mem_cons_self ..)).2 List.nil_prefix
  have hafter : after = [] :=
    List.eq_nil_iff_forall_not_mem.mpr fun m hm => (h.2.1.1 m hm).1 List.nil_prefix
  rw [hbefore, hafter, List.nil_append]

theorem single_or_named (h : ls.Apart) : (∃ v, ls = [([], v)]) ∨ ls.Named := by
  by_cases hempty : ∃ v, ([], v) ∈ ls
  · exact .inl (hempty.imp fun v hv => h.eq_singleton hv)
  · refine .inr ?_
    rintro ⟨names, v⟩ hl rfl
    exact hempty ⟨v, hl⟩

/-- What holds of a single value, and of leaves with names if it holds of the leaves below each
name, holds of all leaves. -/
theorem induct {motive : Leaves → Prop} (single : ∀ v, motive [([], v)])
    (node : ∀ ls : Leaves, ls ≠ [] → ls.Apart → ls.Named →
      (∀ name ∈ ls.heads, motive (ls.under name)) → motive ls)
    (h : ls.Apart) (hne : ls ≠ []) : motive ls := by
  -- the names become fewer on the way down
  obtain ⟨n, hn⟩ : ∃ n, ∀ l ∈ ls, l.1.length ≤ n :=
    ⟨(ls.map (·.1.length)).max (by simpa using hne), fun _ hl =>
      List.le_max_of_mem (List.mem_map_of_mem (f := (·.1.length)) hl)⟩
  induction n generalizing ls with
  | zero =>
      obtain ⟨l, hl⟩ := List.exists_mem_of_ne_nil ls hne
      obtain ⟨v, rfl⟩ | hnamed := h.single_or_named
      · exact single v
      · exact absurd (List.length_eq_zero_iff.mp (Nat.le_zero.mp (hn l hl))) (hnamed l hl)
  | succ n ih =>
      obtain ⟨v, rfl⟩ | hnamed := h.single_or_named
      · exact single v
      · refine node ls hne h hnamed fun name hname => ih (h.under name) (mem_heads_iff.mp hname) ?_
        rintro ⟨rest, v⟩ hl
        exact Nat.le_of_succ_le_succ (hn _ (mem_under_iff.mp hl))

end Apart

/-! ## Nesting -/

/-- The members that lead to the leaves. -/
def nestAll (ls : Leaves) : List (String × Json) :=
  ls.foldl (fun members l => nest members l.1 l.2.toJson) []

/-- What stands where the leaves hang: a single value, or an object of members that lead to them. -/
def slot : Leaves → Json
  | [([], v)] => v.toJson
  | ls => .obj (nestAll ls)

theorem nestAll_concat (ls : Leaves) (l : List String × Value) :
    nestAll (ls ++ [l]) = nest (nestAll ls) l.1 l.2.toJson := by
  rw [nestAll, List.foldl_append]
  rfl

theorem slot_of_named (hnamed : ls.Named) : slot ls = .obj (nestAll ls) := by
  unfold slot
  split
  · next v => exact absurd rfl (hnamed ([], v) (List.mem_singleton_self _))
  · rfl

/-- There is a member for every first name, for the leaves below it. -/
theorem nestAll_eq (h : ls.Apart) (hnamed : ls.Named) :
    nestAll ls = ls.heads.map fun name => (name, slot (ls.under name)) := by
  -- on the leaves from the last one, as nesting puts one leaf after the other
  induction ls using List.reverseRecOn with
  | nil => rfl
  | append_singleton ls l ih =>
      obtain ⟨names, v⟩ := l
      rw [Apart, List.pairwise_append] at h
      obtain ⟨hls, -, hnew⟩ := h
      obtain ⟨name, rest, rfl⟩ := List.exists_cons_of_ne_nil (hnamed (names, v) (by simp))
      have hnamedLs : Named ls := fun l hl => hnamed l (List.mem_append_left _ hl)
      -- the leaves below the same name have names left, and the new leaf has no value on its way
      have hbelow : ∀ m ∈ under name ls, ¬ m.1 <+: rest ∧ ¬ rest <+: m.1 := by
        rintro ⟨more, w⟩ hm
        simpa using hnew _ (mem_under_iff.mp hm) _ (List.mem_singleton_self _)
      have hnamedBelow : Named (under name ls) :=
        fun m hm hnil => (hbelow m hm).1 (hnil ▸ List.nil_prefix)
      -- where the new leaf goes: alone under its name, or below what is there
      have hslot : nest (nestAll ls) (name :: rest) v.toJson =
          Keyed.put Prod.fst (name, slot (under name (ls ++ [(name :: rest, v)])))
            (nestAll ls) := by
        rw [under_concat_self]
        cases rest with
        | nil =>
            have hnil : under name ls = [] :=
              List.eq_nil_iff_forall_not_mem.mpr fun m hm => (hbelow m hm).2 List.nil_prefix
            rw [hnil]
            rfl
        | cons second rest =>
            have hinner : ((Json.member? name (nestAll ls)).map membersOf).getD [] =
                nestAll (under name ls) := by
              rw [ih hls hnamedLs, Json.member?_map (fun name => slot (under name ls))]
              split
              · rw [slot_of_named hnamedBelow]
                rfl
              · next hnone =>
                rw [mem_heads_iff, not_not] at hnone
                rw [hnone]
                rfl
            have hnamedAll : Named (under name ls ++ [(second :: rest, v)]) := by
              simpa [Named, or_imp, forall_and] using hnamedBelow
            rw [slot_of_named hnamedAll, nestAll_concat, ← hinner]
            rfl
      rw [nestAll_concat, hslot, ih hls hnamedLs, heads_concat]
      refine @Keyed.put_map _ (fun name => slot (under name ls))
        (fun key => slot (under key (ls ++ [(name :: rest, v)])))
        name _ (nodup_heads ls) fun key _ hkey => ?_
      rw [under_concat_of_ne (Ne.symm hkey)]

/-! ## Pruning -/

/-- What stands where the leaves hang after pruning. -/
def entity (ls : Leaves) : Json := prune (slot ls)

/-- The members for the first names after pruning. -/
def members (ls : Leaves) : List (String × Json) :=
  ls.heads.map fun name => (name, entity (ls.under name))

@[simp] theorem entity_single (v : Value) : entity [([], v)] = v.toJson := prune_toJson v

theorem pruneMembers_nestAll (h : ls.Apart) (hnamed : ls.Named) :
    pruneMembers (nestAll ls) = ls.members := by
  rw [pruneMembers_eq_map, nestAll_eq h hnamed, List.map_map]
  rfl

theorem entity_of_named (h : ls.Apart) (hnamed : ls.Named) :
    entity ls = if ls.members.all (·.2.isNull) then .null else .obj ls.members := by
  rw [entity, slot_of_named hnamed, prune, pruneMembers_nestAll h hnamed]

/-- Exactly where all values are null, pruning leaves null. -/
theorem entity_eq_null_iff (h : ls.Apart) (hne : ls ≠ []) :
    entity ls = .null ↔ ∀ l ∈ ls, l.2.toJson = .null := by
  refine Apart.induct (motive := fun ls => entity ls = .null ↔ ∀ l ∈ ls, l.2.toJson = .null)
    (fun v => by simp) (fun ls hne h hnamed ih => ?_) h hne
  have hall : ls.members.all (·.2.isNull) = true ↔ ∀ l ∈ ls, l.2.toJson = .null := by
    rw [members, List.all_map, List.all_eq_true, ← @forall_under_iff _ hnamed fun v =>
      v.toJson = .null]
    exact forall₂_congr fun name hname => Json.isNull_iff.trans (ih name hname)
  rw [entity_of_named h hnamed, ← hall]
  split
  · next hnull => exact iff_of_true rfl hnull
  · next hvalue => exact iff_of_false Json.noConfusion hvalue

theorem entity_of_ne_null (h : ls.Apart) (hnamed : ls.Named) (hnull : entity ls ≠ .null) :
    entity ls = .obj ls.members := by
  rw [entity_of_named h hnamed] at hnull ⊢
  exact if_neg fun hall => hnull (if_pos hall)

theorem members_ne_nil (hnamed : ls.Named) (hne : ls ≠ []) : ls.members ≠ [] := by
  obtain ⟨⟨names, v⟩, hl⟩ := List.exists_mem_of_ne_nil ls hne
  obtain ⟨name, rest, rfl⟩ := List.exists_cons_of_ne_nil (hnamed _ hl)
  have hname : name ∈ ls.heads := mem_heads_iff.mpr (List.ne_nil_of_mem (mem_under_iff.mpr hl))
  rw [members, Ne, List.map_eq_nil_iff]
  exact List.ne_nil_of_mem hname

/-! ## Where a leaf is found -/

/-- All values on the ways that begin with some names are written as null. -/
def Gone (ls : Leaves) (names : List String) : Prop := ∀ l ∈ ls, names <+: l.1 → l.2.toJson = .null

/-- Where a leaf is found, and what is found there.  The way to it is cut short behind the first
names, not fewer than `least`, under which all is null: there is null then.  If there are none, the
value is at the end of its way. -/
@[mk_iff]
inductive Shown (least : ℕ) (ls : Leaves) (l : List String × Value) : List String → Json → Prop
  | cut {k : ℕ} (hleast : least ≤ k) (hlt : k < l.1.length) (hgone : ls.Gone (l.1.take k))
      (hfirst : ∀ i, least ≤ i → i < k → ¬ ls.Gone (l.1.take i)) :
      Shown least ls l (l.1.take k) .null
  | whole (hkept : ∀ i, least ≤ i → i < l.1.length → ¬ ls.Gone (l.1.take i)) :
      Shown least ls l l.1 l.2.toJson

theorem gone_cons_iff : ls.Gone (name :: names) ↔ (ls.under name).Gone names := by
  constructor
  · rintro h ⟨rest, v⟩ hl hstem
    exact h (name :: rest, v) (mem_under_iff.mp hl) (List.cons_prefix_cons.mpr ⟨rfl, hstem⟩)
  · rintro h ⟨_ | ⟨first, rest⟩, v⟩ hl hstem
    · simp at hstem
    · obtain ⟨rfl, hrest⟩ := List.cons_prefix_cons.mp hstem
      exact h (rest, v) (mem_under_iff.mpr hl) hrest

theorem gone_nil_iff : ls.Gone [] ↔ ∀ l ∈ ls, l.2.toJson = .null := by
  simp [Gone]

/-- A leaf with a first name is found below that name, where the rest of its names leads. -/
theorem shown_cons_iff {q : List String} {json : Json} :
    Shown 1 ls (name :: rest, v) q json ↔
      ∃ q', q = name :: q' ∧ Shown 0 (ls.under name) (rest, v) q' json := by
  have hgone (i : ℕ) : ls.Gone ((name :: rest).take (i + 1)) ↔ (ls.under name).Gone (rest.take i) :=
    gone_cons_iff
  constructor
  · rintro (⟨hleast, hlt, hnull, hfirst⟩ | hkept)
    · next k =>
      obtain ⟨k, rfl⟩ := Nat.exists_eq_add_of_le' hleast
      refine ⟨_, rfl,
        .cut (Nat.zero_le k) (Nat.lt_of_succ_lt_succ hlt) ((hgone k).mp hnull) fun i _ hi => ?_⟩
      exact mt (hgone i).mpr (hfirst (i + 1) (Nat.le_add_left 1 i) (Nat.succ_lt_succ hi))
    · refine ⟨_, rfl, .whole fun i _ hi => ?_⟩
      exact mt (hgone i).mpr (hkept (i + 1) (Nat.le_add_left 1 i) (Nat.succ_lt_succ hi))
  · rintro ⟨q', rfl, ⟨-, hlt, hnull, hfirst⟩ | hkept⟩
    · next k =>
      refine @Shown.cut 1 ls (name :: rest, v) (k + 1) (Nat.le_add_left 1 k) (Nat.succ_lt_succ hlt)
        ((hgone k).mpr hnull) fun i hleast hi => ?_
      obtain ⟨i, rfl⟩ := Nat.exists_eq_add_of_le' hleast
      exact mt (hgone i).mp (hfirst i (Nat.zero_le i) (Nat.lt_of_succ_lt_succ hi))
    · refine @Shown.whole 1 ls (name :: rest, v) fun i hleast hi => ?_
      obtain ⟨i, rfl⟩ := Nat.exists_eq_add_of_le' hleast
      exact mt (hgone i).mp (hkept i (Nat.zero_le i) (Nat.lt_of_succ_lt_succ hi))

/-- Where not all is null, no way is cut short before its first name. -/
theorem shown_zero_iff (hvalue : ¬ ls.Gone []) {q : List String} {json : Json} :
    Shown 0 ls l q json ↔ Shown 1 ls l q json := by
  have hzero : ¬ ls.Gone (l.1.take 0) := hvalue
  constructor
  · rintro (⟨-, hlt, hgone, hfirst⟩ | hkept)
    · next k =>
      exact .cut (Nat.pos_of_ne_zero fun hk => hzero (hk ▸ hgone)) hlt hgone fun i _ =>
        hfirst i (Nat.zero_le i)
    · exact .whole fun i _ => hkept i (Nat.zero_le i)
  · rintro (⟨-, hlt, hgone, hfirst⟩ | hkept)
    · refine .cut (Nat.zero_le _) hlt hgone fun i _ hi => ?_
      cases i with
      | zero => exact hzero
      | succ i => exact hfirst _ (Nat.le_add_left 1 i) hi
    · refine .whole fun i _ hi => ?_
      cases i with
      | zero => exact hzero
      | succ i => exact hkept _ (Nat.le_add_left 1 i) hi

theorem Shown.ne_nil {q : List String} {json : Json} (hshown : Shown 1 ls l q json)
    (hl : l.1 ≠ []) : q ≠ [] := by
  obtain ⟨hleast, hlt, -, -⟩ | - := hshown
  · simp only [Ne, List.take_eq_nil_iff, hl, or_false]
    exact Nat.ne_of_gt hleast
  · exact hl

theorem Shown.isLeaf {least : ℕ} {q : List String} {json : Json}
    (hshown : Shown least ls l q json) : json.isLeaf = true := by
  cases hshown with
  | cut => rfl
  | whole => exact Json.isLeaf_of_not_object (isObject_toJson l.2)

theorem exists_shown (least : ℕ) (ls : Leaves) (l : List String × Value) :
    ∃ q json, Shown least ls l q json := by
  classical
  by_cases hcut : ∃ k, least ≤ k ∧ k < l.1.length ∧ ls.Gone (l.1.take k)
  · obtain ⟨hleast, hlt, hgone⟩ := Nat.find_spec hcut
    refine ⟨_, _, .cut hleast hlt hgone fun i hi hless hcut' => ?_⟩
    exact Nat.find_min hcut hless ⟨hi, Nat.lt_trans hless hlt, hcut'⟩
  · exact ⟨_, _, .whole fun i hi hless hgone => hcut ⟨i, hi, hless, hgone⟩⟩

/-! ## What is found -/

/-- What is found at the end of names that begin in an object of members is what is found below the
first of them. -/
theorem at?_members_iff (hnamed : ls.Named) {q : List String} {json : Json}
    (hbelow : ∀ name ∈ ls.heads, ∀ q, Json.at? q (entity (ls.under name)) = some json ↔
      ∃ l ∈ ls.under name, Shown 0 (ls.under name) l q json) (hq : q ≠ []) :
    Json.at? q (.obj ls.members) = some json ↔ ∃ l ∈ ls, Shown 1 ls l q json := by
  obtain ⟨name, q, rfl⟩ := List.exists_cons_of_ne_nil hq
  have hmember : Json.at? (name :: q) (.obj ls.members) = some json ↔
      name ∈ ls.heads ∧ Json.at? q (entity (ls.under name)) = some json := by
    rw [Json.at?, members, Json.member?_map fun name => entity (ls.under name)]
    split <;> simp_all
  rw [hmember]
  constructor
  · rintro ⟨hname, hat⟩
    obtain ⟨⟨rest, v⟩, hl, hshown⟩ := (hbelow name hname q).mp hat
    exact ⟨_, mem_under_iff.mp hl, shown_cons_iff.mpr ⟨q, rfl, hshown⟩⟩
  · rintro ⟨⟨names, v⟩, hl, hshown⟩
    obtain ⟨first, rest, rfl⟩ := List.exists_cons_of_ne_nil (hnamed _ hl)
    obtain ⟨_, heq, hbelow'⟩ := shown_cons_iff.mp hshown
    obtain ⟨rfl, rfl⟩ := List.cons.inj heq
    have hunder := mem_under_iff.mpr hl
    have hname : name ∈ ls.heads := mem_heads_iff.mpr (List.ne_nil_of_mem hunder)
    exact ⟨hname, (hbelow name hname q).mpr ⟨_, hunder, hbelow'⟩⟩

/-- What is found with nothing below it is a leaf. -/
theorem at?_entity_iff (h : ls.Apart) (hne : ls ≠ []) {json : Json} (hleaf : json.isLeaf = true)
    (q : List String) : Json.at? q (entity ls) = some json ↔ ∃ l ∈ ls, Shown 0 ls l q json := by
  -- on the names that are left on the ways to the leaves
  refine Apart.induct (motive := fun ls => ∀ q, Json.at? q (entity ls) = some json ↔
    ∃ l ∈ ls, Shown 0 ls l q json)
    (fun v q => ?_) (fun ls hne h hnamed ih q => ?_) h hne q
  · rw [entity_single, Json.at?_eq_some_iff (isObject_toJson v)]
    simp [shown_iff]
  · by_cases hgone : ls.Gone []
    · -- every way is cut short here
      rw [(entity_eq_null_iff h hne).mpr (gone_nil_iff.mp hgone), Json.at?_eq_some_iff rfl]
      constructor
      · rintro ⟨rfl, rfl⟩
        obtain ⟨l, hl⟩ := List.exists_mem_of_ne_nil ls hne
        have hcut :=
          @Shown.cut 0 ls l 0 (Nat.le_refl 0) (List.length_pos_iff.mpr (hnamed l hl)) hgone
            fun i _ hi => by omega
        exact ⟨l, hl, hcut⟩
      · rintro ⟨l, hl, ⟨-, -, -, hfirst⟩ | hkept⟩
        · next k =>
          obtain rfl : k = 0 := by
            by_contra hk
            exact hfirst 0 (Nat.le_refl 0) (Nat.pos_of_ne_zero hk) hgone
          exact ⟨rfl, rfl⟩
        · exact absurd hgone (hkept 0 (Nat.le_refl 0) (List.length_pos_iff.mpr (hnamed l hl)))
    -- nothing is cut short here, so the first names lead on
    · have hentity : entity ls = .obj ls.members :=
        entity_of_ne_null h hnamed fun hnull =>
          hgone (gone_nil_iff.mpr ((entity_eq_null_iff h hne).mp hnull))
      have hzero : (∃ l ∈ ls, Shown 0 ls l q json) ↔ ∃ l ∈ ls, Shown 1 ls l q json :=
        exists_congr fun l => and_congr_right fun _ => shown_zero_iff hgone
      rw [hentity, hzero]
      by_cases hq : q = []
      · subst hq
        -- an object with members is no leaf
        refine iff_of_false (fun hat => ?_) ?_
        · obtain rfl := Option.some.inj hat
          exact members_ne_nil hnamed hne (List.isEmpty_iff.mp hleaf)
        · rintro ⟨⟨names, v⟩, hl, hshown⟩
          obtain ⟨name, rest, rfl⟩ := List.exists_cons_of_ne_nil (hnamed _ hl)
          obtain ⟨_, heq, -⟩ := shown_cons_iff.mp hshown
          exact absurd heq (List.cons_ne_nil _ _).symm
      · exact at?_members_iff hnamed ih hq

/-! ## Order of the leaves -/

theorem heads_perm (h : ls.Perm others) : ls.heads.Perm others.heads := by
  refine (List.perm_ext_iff_of_nodup (nodup_heads ls) (nodup_heads others)).mpr fun name => ?_
  have hunder : (ls.under name).Perm (others.under name) := h.filterMap _
  rw [mem_heads_iff, mem_heads_iff, not_iff_not]
  exact ⟨fun hnil => (hnil ▸ hunder).symm.eq_nil, fun hnil => (hnil ▸ hunder).eq_nil⟩

theorem shuffled_members (h : ls.Perm others)
    (hbelow : ∀ name ∈ ls.heads,
      Json.Reordered (entity (ls.under name)) (entity (others.under name))) :
    Json.Shuffled ls.members others.members :=
  .trans (Json.shuffled_map hbelow) (Json.shuffled_of_perm ((heads_perm h).map _))

/-- Leaves in another order make a value with members in another order. -/
theorem reordered_entity (h : ls.Apart) (hne : ls ≠ []) (hperm : ls.Perm others) :
    Json.Reordered (entity ls) (entity others) := by
  refine Apart.induct (motive := fun ls => ∀ others : Leaves,
    ls.Perm others → Json.Reordered (entity ls) (entity others))
    (fun v others hperm => ?_) (fun ls hne h hnamed ih others hperm => ?_) h hne others hperm
  · rw [List.singleton_perm.mp hperm]
    exact .same _
  · have hapart : others.Apart := (hperm.pairwise_iff fun hlm => hlm.symm).mp h
    have hnamedOthers : others.Named := fun l hl => hnamed l (hperm.mem_iff.mpr hl)
    have hshuffled := shuffled_members hperm fun name hname => ih name hname _ (hperm.filterMap _)
    have hneOthers : others ≠ [] := fun hnil => hne (hnil ▸ hperm).eq_nil
    have hnull : entity ls = .null ↔ entity others = .null := by
      rw [entity_eq_null_iff h hne, entity_eq_null_iff hapart hneOthers]
      exact forall_congr' fun l => by rw [hperm.mem_iff]
    by_cases hgone : entity ls = .null
    · rw [hgone, hnull.mp hgone]
      exact .same _
    · rw [entity_of_ne_null h hnamed hgone,
        entity_of_ne_null hapart hnamedOthers (mt hnull.mpr hgone)]
      exact .obj hshuffled

/-- Where the names are distinct texts and none of the texts begins another one in front of a point,
the leaves of a record are in no way of each other. -/
theorem apart_leaves {rootPath : String} {r : Record}
    (hdistinct : (r.entries.map fun e => relative rootPath e.1).Nodup)
    (hfree : ∀ e ∈ r.entries, ∀ other ∈ r.entries,
      Text.startsWith (relative rootPath other.1) (relative rootPath e.1 ++ ".") = false) :
    (leaves rootPath r).Apart := by
  -- a text whose names begin the names of another one is equal to it or stands in front of a point
  -- in it
  have hstem (text other : String) (h : Text.pieces '.' text <+: Text.pieces '.' other) :
      other = text ∨ Text.startsWith other (text ++ ".") = true := by
    obtain ⟨more, heq⟩ := h
    cases more with
    | nil =>
        left
        rw [← Path.dotted_pieces other, ← heq, List.append_nil, Path.dotted_pieces]
    | cons name more =>
        right
        have hne : Text.pieces '.' text ≠ [] := by simp [Text.pieces, List.splitOn_ne_nil]
        rw [← Path.dotted_pieces other, ← heq, Path.dotted_append_names hne (by simp),
          Path.dotted_pieces, Text.startsWith, List.isPrefixOf_iff_prefix]
        exact ⟨_, String.toList_append.symm⟩
  rw [List.Nodup, List.pairwise_map] at hdistinct
  refine List.pairwise_map.mpr
    (List.Pairwise.imp_of_mem (fun {e other} he hother hne => ?_) hdistinct)
  constructor
  · intro h
    obtain heq | hstart := hstem _ _ h
    · exact hne heq.symm
    · exact Bool.false_ne_true ((hfree e he other hother).symm.trans hstart)
  · intro h
    obtain heq | hstart := hstem _ _ h
    · exact hne heq
    · exact Bool.false_ne_true ((hfree other hother e he).symm.trans hstart)

theorem named_leaves (rootPath : String) (r : Record) : (leaves rootPath r).Named := by
  intro l hl
  obtain ⟨e, -, rfl⟩ := List.mem_map.mp hl
  simp [Text.pieces, List.splitOn_ne_nil]

theorem nested_eq_members {rootPath : String} {r : Record} (h : (leaves rootPath r).Apart) :
    nested rootPath r = .obj (leaves rootPath r).members := by
  rw [nested_eq, ← pruneMembers_nestAll h (named_leaves rootPath r), nestAll, leaves,
    List.foldl_map]

end Leaves

/-- Where the labels below the root path are distinct and none of them begins another one in front
of a point, every value of a record is found in its entity, at the end of its names unless all is
null behind one of the names before, and nothing else is found there; the order of the record tells
at most the order of members. -/
theorem nested_shows (rootPath : String) (r : Record)
    (hdistinct : (r.entries.map fun e => relative rootPath e.1).Nodup)
    (hfree : ∀ e ∈ r.entries, ∀ other ∈ r.entries,
      Text.startsWith (relative rootPath other.1) (relative rootPath e.1 ++ ".") = false) :
    (∀ l ∈ leaves rootPath r, ∃ q json, (leaves rootPath r).Shown 1 l q json) ∧
      (∀ l ∈ leaves rootPath r, ∀ q json, (leaves rootPath r).Shown 1 l q json →
        Json.at? q (nested rootPath r) = some json) ∧
      (∀ q json, q ≠ [] → json.isLeaf = true → Json.at? q (nested rootPath r) = some json →
        ∃ l ∈ leaves rootPath r, (leaves rootPath r).Shown 1 l q json) ∧
      ∀ other : Record, other.entries.Perm r.entries →
        Json.Reordered (nested rootPath r) (nested rootPath other) := by
  have hapart := Leaves.apart_leaves hdistinct hfree
  have hnamed := Leaves.named_leaves rootPath r
  have hfound (q : List String) (json : Json) (hq : q ≠ []) (hleaf : json.isLeaf = true) :
      Json.at? q (nested rootPath r) = some json ↔
        ∃ l ∈ leaves rootPath r, (leaves rootPath r).Shown 1 l q json := by
    rw [Leaves.nested_eq_members hapart]
    exact Leaves.at?_members_iff hnamed (fun name hname =>
      Leaves.at?_entity_iff (hapart.under name) (Leaves.mem_heads_iff.mp hname) hleaf) hq
  refine ⟨fun l _ => Leaves.exists_shown 1 _ l, fun l hl q json hshown => ?_,
    fun q json hq hleaf hat => (hfound q json hq hleaf).mp hat, fun other hperm => ?_⟩
  · exact (hfound q json (hshown.ne_nil (hnamed l hl)) hshown.isLeaf).mpr ⟨l, hl, hshown⟩
  · have hleaves : (leaves rootPath r).Perm (leaves rootPath other) := hperm.symm.map _
    have hapartOther : (leaves rootPath other).Apart :=
      (hleaves.pairwise_iff fun hlm => hlm.symm).mp hapart
    rw [Leaves.nested_eq_members hapart, Leaves.nested_eq_members hapartOther]
    exact .obj (Leaves.shuffled_members hleaves fun name hname =>
      Leaves.reordered_entity (hapart.under name) (Leaves.mem_heads_iff.mp hname)
        (hleaves.filterMap _))

/-- A book without author, whose title stands between what is asked about the author. -/
def orphan : Record :=
  ⟨[("book.author.id", .null), ("book.title", .text "Beowulf"), ("book.author.name", .null)]⟩

/-- There is no author, but a title. -/
theorem nested_shows_orphan :
    (orphan.entries.map fun e => relative "book" e.1).Nodup ∧
      (∀ e ∈ orphan.entries, ∀ other ∈ orphan.entries,
        Text.startsWith (relative "book" other.1) (relative "book" e.1 ++ ".") = false) ∧
      (leaves "book" orphan).Shown 1 (["author", "name"], .null) ["author"] .null ∧
      (leaves "book" orphan).Shown 1 (["title"], .text "Beowulf") ["title"] (.str "Beowulf") ∧
      Json.at? ["author"] (nested "book" orphan) = some .null ∧
      Json.at? ["title"] (nested "book" orphan) = some (.str "Beowulf") := by
  have hleaves : leaves "book" orphan =
      [(["author", "id"], .null), (["title"], .text "Beowulf"), (["author", "name"], .null)] := rfl
  have hauthor : (leaves "book" orphan).Shown 1 (["author", "name"], .null) ["author"] .null := by
    refine @Leaves.Shown.cut 1 _ (["author", "name"], .null) 1 (Nat.le_refl 1) (by decide) ?_
      fun i _ hi => by omega
    simp [hleaves, Leaves.Gone, Value.toJson]
  have htitle : (leaves "book" orphan).Shown 1 (["title"], .text "Beowulf") ["title"]
      (.str "Beowulf") :=
    @Leaves.Shown.whole 1 _ (["title"], .text "Beowulf") fun i _ hi => by simp at hi; omega
  obtain ⟨-, hfound, -⟩ := nested_shows "book" orphan (by decide) (by decide)
  exact ⟨by decide, by decide, hauthor, htitle, hfound _ (by simp [hleaves]) _ _ hauthor,
    hfound _ (by simp [hleaves]) _ _ htitle⟩

end Rebuild

end EntityQuery
