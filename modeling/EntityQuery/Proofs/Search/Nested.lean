import EntityQuery.Proofs.Path
import EntityQuery.Search.Rebuild

/-!
# Entities from dotted labels

The labels of a record name the way to a value.  If labels with one name come first, and labels with
two names come after them, block by block for each first name, then nesting puts every value where
its label says, in the order of the record: first the values under one name, then an object for
every block.  Pruning leaves values as they are, and makes null of the objects in which all is null.

## Strategy

Every label adds a member at the end, as long as its first name is new, or extends the object that
stands last (`nest_new`, `nest_last`).  So the members are found by folding over one block at a
time.

## Main definitions

* `Rebuild.written` : named values as members of an object
* `Rebuild.block` : the object of named values, null if there is nothing in it

## Main statements

* `nested_eq_obj` : the entity of a record of values and blocks
-/

namespace EntityQuery

namespace Keyed

variable {α : Type} {key : α → String} {entry : α} {entries : List α}

theorem put_append (h : key entry ∉ entries.map key) (rest : List α) :
    put key entry (entries ++ rest) = entries ++ put key entry rest := by
  induction entries with
  | nil => rfl
  | cons other entries ih =>
      rw [List.map_cons, List.mem_cons, not_or] at h
      rw [List.cons_append, put, if_neg (Ne.symm h.1), ih h.2]
      rfl

theorem put_eq_append (h : key entry ∉ entries.map key) :
    put key entry entries = entries ++ [entry] := by
  simpa [put] using put_append h []

theorem lookup_of_mem {β : Type} {entries : List (String × β)} (h : (entries.map Prod.fst).Nodup)
    {k : String} {value : β} (hmem : (k, value) ∈ entries) : entries.lookup k = some value := by
  obtain ⟨before, after, rfl⟩ := List.append_of_mem hmem
  refine List.lookup_eq_some_iff.mpr ⟨before, after, rfl, fun p hp => ?_⟩
  rw [List.map_append, List.map_cons, List.nodup_append] at h
  have hne := h.2.2 p.1 (List.mem_map_of_mem hp) k (List.mem_cons_self ..)
  simpa using Ne.symm hne

end Keyed

namespace Rebuild

/-! ## Labels -/

theorem isPrefixOf?_append (start rest : List Char) :
    start.isPrefixOf? (start ++ rest) = some rest := by
  induction start with
  | nil => rfl
  | cons c start ih => simp [List.isPrefixOf?, ih]

theorem dropStart?_append (start rest : String) :
    Text.dropStart? start (start ++ rest) = some rest := by
  rw [Text.dropStart?, String.toList_append, isPrefixOf?_append, Option.map_some,
    String.ofList_toList]

theorem relative_append (rootPath text : String) :
    relative rootPath (rootPath ++ "." ++ text) = text := by
  rw [relative, String.append_assoc, dropStart?_append, Option.bind_some, dropStart?_append,
    Option.getD_some]

/-! ## Members one behind the other -/

variable {members done : List (String × Json)} {name : String}

theorem nest_pair (members : List (String × Json)) (name : String) (m : String × Json) :
    nest members [name, m.1] m.2 =
      Keyed.put Prod.fst (name,
        .obj (Keyed.put Prod.fst m (((Json.member? name members).map membersOf).getD [])))
        members := rfl

/-- A value under two names, the first of which is new, makes an object. -/
theorem nest_new (hname : name ∉ members.map Prod.fst) (m : String × Json) :
    nest members [name, m.1] m.2 = members ++ [(name, .obj [m])] := by
  have hnone : Json.member? name members = none := by
    rw [Json.member?, List.lookup_eq_none_iff]
    intro p hp
    simpa using fun h : name = p.1 => hname (h ▸ List.mem_map_of_mem hp)
  rw [nest_pair, hnone]
  exact Keyed.put_eq_append hname

/-- A value under two names, the first of which stands last, goes to the object that is there. -/
theorem nest_last (hname : name ∉ members.map Prod.fst) (m : String × Json) :
    nest (members ++ [(name, .obj done)]) [name, m.1] m.2 =
      members ++ [(name, .obj (Keyed.put Prod.fst m done))] := by
  have hput : Keyed.put Prod.fst (name, Json.obj done) members = members ++ [(name, .obj done)] :=
    Keyed.put_eq_append hname
  have hlast : Json.member? name (members ++ [(name, .obj done)]) = some (.obj done) := by
    rw [← hput, Json.member?, Keyed.lookup_put_self]
  rw [nest_pair, hlast, Keyed.put_append hname]
  simp [Keyed.put, membersOf]

theorem foldl_nest_values {values : List (String × Json)}
    (hnames : ((members ++ values).map Prod.fst).Nodup) :
    values.foldl (fun members m => nest members [m.1] m.2) members = members ++ values := by
  induction values generalizing members with
  | nil => simp
  | cons m values ih =>
      have hnew : m.1 ∉ members.map Prod.fst := by
        rw [List.map_append, List.map_cons, List.nodup_append] at hnames
        exact fun hmem => hnames.2.2 _ hmem _ (List.mem_cons_self ..) rfl
      rw [List.foldl_cons, nest, Keyed.put_eq_append hnew, ih (by simpa using hnames)]
      simp

/-- The values of a block become an object. -/
theorem foldl_nest_block (hname : name ∉ members.map Prod.fst) {values : List (String × Json)}
    (hne : values ≠ []) (hnames : (values.map Prod.fst).Nodup) :
    values.foldl (fun members m => nest members [name, m.1] m.2) members =
      members ++ [(name, .obj values)] := by
  -- behind the first value the object stands last
  have hrest {done rest : List (String × Json)} (hnames : ((done ++ rest).map Prod.fst).Nodup) :
      rest.foldl (fun members m => nest members [name, m.1] m.2) (members ++ [(name, .obj done)]) =
        members ++ [(name, .obj (done ++ rest))] := by
    induction rest generalizing done with
    | nil => simp
    | cons m rest ih =>
        have hnew : m.1 ∉ done.map Prod.fst := by
          rw [List.map_append, List.map_cons, List.nodup_append] at hnames
          exact fun hmem => hnames.2.2 _ hmem _ (List.mem_cons_self ..) rfl
        rw [List.foldl_cons, nest_last hname, Keyed.put_eq_append hnew, ih (by simpa using hnames)]
        simp
  obtain ⟨m, rest, rfl⟩ := List.exists_cons_of_ne_nil hne
  rw [List.foldl_cons, nest_new hname]
  exact hrest hnames

/-- Blocks of new names become objects one behind the other. -/
theorem foldl_nest_blocks {blocks : List (String × List (String × Json))}
    (hnames : (members.map Prod.fst ++ blocks.map Prod.fst).Nodup)
    (hblocks : ∀ b ∈ blocks, b.2 ≠ [] ∧ (b.2.map Prod.fst).Nodup) :
    blocks.foldl (fun members b =>
      b.2.foldl (fun members m => nest members [b.1, m.1] m.2) members) members =
      members ++ blocks.map fun b => (b.1, .obj b.2) := by
  induction blocks generalizing members with
  | nil => simp
  | cons b blocks ih =>
      rw [List.forall_mem_cons] at hblocks
      have hnew : b.1 ∉ members.map Prod.fst := by
        rw [List.map_cons, List.nodup_append] at hnames
        exact fun hmem => hnames.2.2 _ hmem _ (List.mem_cons_self ..) rfl
      rw [List.foldl_cons, foldl_nest_block hnew hblocks.1.1 hblocks.1.2,
        ih (by simpa using hnames) hblocks.2]
      simp

/-! ## Pruning -/

theorem pruneMembers_eq_map (members : List (String × Json)) :
    pruneMembers members = members.map fun m => (m.1, prune m.2) := by
  induction members with
  | nil => rfl
  | cons m members ih => rw [pruneMembers, ih, List.map_cons]

@[simp] theorem prune_toJson (v : Value) : prune v.toJson = v.toJson := by
  cases v with
  | float64 x =>
      rw [Value.toJson]
      split <;> rfl
  | _ => rfl

/-- Named values as members of an object. -/
def written (values : List (String × Value)) : List (String × Json) :=
  values.map fun m => (m.1, m.2.toJson)

@[simp] theorem map_fst_written (values : List (String × Value)) :
    (written values).map Prod.fst = values.map Prod.fst := by
  simp [written]

@[simp] theorem pruneMembers_written (values : List (String × Value)) :
    pruneMembers (written values) = written values := by
  rw [pruneMembers_eq_map, written, List.map_map]
  exact List.map_congr_left fun m _ => by simp

/-- The object of named values; null if all of them are written as null. -/
def block (values : List (String × Value)) : Json :=
  if (written values).all (·.2.isNull) then .null else .obj (written values)

theorem prune_written (values : List (String × Value)) :
    prune (.obj (written values)) = block values := by
  rw [prune, pruneMembers_written]
  rfl

theorem block_eq_null {values : List (String × Value)} (hnull : ∀ m ∈ values, m.2 = .null) :
    block values = .null := by
  refine if_pos ?_
  rw [written, List.all_map, List.all_eq_true]
  intro m hm
  simp [hnull m hm, Value.toJson, Json.isNull]

theorem block_eq_obj {values : List (String × Value)} {m : String × Value} (hm : m ∈ values)
    (hvalue : m.2.toJson.isNull = false) : block values = .obj (written values) := by
  refine if_neg fun hall => ?_
  have hnull := List.all_eq_true.mp hall _ (List.mem_map_of_mem hm)
  simp [hvalue] at hnull

/-! ## Entities -/

theorem nested_eq (rootPath : String) (r : Record) :
    nested rootPath r = .obj (pruneMembers (r.entries.foldl
      (fun members m => nest members (Text.pieces '.' (relative rootPath m.1)) m.2.toJson) [])) :=
  rfl

/-- The entity of a record that has values under one name, and behind them blocks of values under
two names. -/
theorem nested_eq_obj {rootPath : String} {r : Record} {values : List (String × Value)}
    {blocks : List (String × List (String × Value))}
    (hentries : r.entries = values.map (fun m => (rootPath ++ "." ++ Path.dotted [m.1], m.2)) ++
      blocks.flatMap fun b => b.2.map fun m => (rootPath ++ "." ++ Path.dotted [b.1, m.1], m.2))
    (hdotless : ∀ m ∈ values, Path.Dotless m.1)
    (hdotlessBlocks : ∀ b ∈ blocks, Path.Dotless b.1 ∧ ∀ m ∈ b.2, Path.Dotless m.1)
    (hnames : (values.map Prod.fst ++ blocks.map Prod.fst).Nodup)
    (hblocks : ∀ b ∈ blocks, b.2 ≠ [] ∧ (b.2.map Prod.fst).Nodup) :
    nested rootPath r = .obj (written values ++ blocks.map fun b => (b.1, block b.2)) := by
  -- what is put where, by the pieces of the labels
  have hvalue (members : List (String × Json)) (m : String × Value) (hm : m ∈ values) :
      nest members (Text.pieces '.' (relative rootPath (rootPath ++ "." ++ Path.dotted [m.1])))
          m.2.toJson =
        nest members [m.1] m.2.toJson := by
    rw [relative_append, Path.pieces_dotted (by simp) (by simpa using hdotless m hm)]
  have hinner (members : List (String × Json)) (b : String × List (String × Value))
      (hb : b ∈ blocks) (m : String × Value) (hm : m ∈ b.2) :
      nest members (Text.pieces '.' (relative rootPath (rootPath ++ "." ++ Path.dotted [b.1, m.1])))
          m.2.toJson =
        nest members [b.1, m.1] m.2.toJson := by
    have hpieces : ∀ name ∈ [b.1, m.1], Path.Dotless name := by
      simpa using ⟨(hdotlessBlocks b hb).1, (hdotlessBlocks b hb).2 m hm⟩
    rw [relative_append, Path.pieces_dotted (by simp) hpieces]
  have hfold :
      r.entries.foldl (fun members m =>
        nest members (Text.pieces '.' (relative rootPath m.1)) m.2.toJson) [] =
      written values ++ (blocks.map fun b => (b.1, written b.2)).map fun b => (b.1, .obj b.2) := by
    rw [hentries, List.foldl_append, List.foldl_map, List.foldl_flatMap,
      List.foldl_ext _ _ _ hvalue]
    calc
      _ = blocks.foldl (fun members b =>
            (written b.2).foldl (fun members m => nest members [b.1, m.1] m.2) members)
            ((written values).foldl (fun members m => nest members [m.1] m.2) []) := by
          rw [written, List.foldl_map]
          refine List.foldl_ext _ _ _ fun members b hb => ?_
          rw [written, List.foldl_map, List.foldl_map]
          exact List.foldl_ext _ _ _ fun members m hm => hinner members b hb m hm
      _ = (blocks.map fun b => (b.1, written b.2)).foldl
            (fun members b => b.2.foldl (fun members m => nest members [b.1, m.1] m.2) members)
              (written values) := by
          rw [foldl_nest_values (by simpa using (List.nodup_append.mp hnames).1), List.nil_append,
            List.foldl_map]
      _ = _ := by
          refine foldl_nest_blocks (by simpa [Function.comp_def] using hnames) ?_
          rw [List.forall_mem_map]
          intro b hb
          simpa [written, Function.comp_def] using hblocks b hb
  rw [nested_eq, hfold, pruneMembers_eq_map, List.map_append, ← pruneMembers_eq_map,
    pruneMembers_written, List.map_map, List.map_map]
  simp only [Function.comp_def, prune_written]

end Rebuild

end EntityQuery
