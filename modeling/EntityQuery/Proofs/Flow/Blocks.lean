import EntityQuery.Proofs.Flow.Listed
import Mathlib.Data.List.Pairwise

/-!
# Blocks of rows of one key

Rows are grouped by the values of some columns.  The groups stand in the order of their first rows,
and each of them is made of all rows of its key, in the order in which they are.  So the groups
partition the rows, and they are determined by the rows without the work of collecting them.

The blocks into which rows fall are such groups.  The proof goes down the blocks: the rows of the
first are gone when the next is made, which makes no difference, as keys that are the same as a
third are the same.

## Main definitions

* `Row.ofKey` : the rows of one key
* `Row.IsGrouping` : the rows by their keys

## Main statements

* `isGrouping_groupsOf` : the blocks of rows are their groups
-/

namespace EntityQuery

namespace Row

/-- The rows of one key. -/
def ofKey (columns : List Nat) (key : Key) (rows : List Row) : List Row :=
  rows.filter fun row => key.same (row.keyOf columns)

/-- The place of the first row of a key; the number of rows if there is none. -/
def placeOf (columns : List Nat) (key : Key) (rows : List Row) : Nat :=
  rows.findIdx fun row => key.same (row.keyOf columns)

/-- Rows in groups by their keys, in the order of the first rows of the keys.  A group holds all
rows of its key, each row is in one group, and no group is without rows, except that of no rows at
all without columns to group by. -/
structure IsGrouping (columns : List Nat) (rows : List Row)
    (groups : List (Key × List Row)) : Prop where
  rows_eq : ∀ group ∈ groups, group.2 = ofKey columns group.1 rows
  key_eq : ∀ group ∈ groups, ∀ row ∈ group.2.head?, group.1 = row.keyOf columns
  ordered : groups.Pairwise fun first second =>
    placeOf columns first.1 rows < placeOf columns second.1 rows
  apart : groups.Pairwise fun first second => first.1.same second.1 = false
  unique : ∀ row ∈ rows, ∃! group, group ∈ groups ∧ row ∈ group.2
  perm : (groups.flatMap Prod.snd).Perm rows
  inhabited : rows ≠ [] → ∀ group ∈ groups, group.2 ≠ []
  of_nil : rows = [] → groups = if columns = [] then [([], [])] else []

variable {columns : List Nat} {key other : Key} {row : Row} {rows : List Row}

theorem mem_ofKey_iff : row ∈ ofKey columns key rows ↔
    row ∈ rows ∧ key.same (row.keyOf columns) = true :=
  List.mem_filter

theorem ofKey_cons_of_same (hkey : key.same (row.keyOf columns) = true) (rows : List Row) :
    ofKey columns key (row :: rows) = row :: ofKey columns key rows := by
  rw [ofKey, List.filter_cons, if_pos hkey, ofKey]

theorem ofKey_cons_of_apart (hkey : key.same (row.keyOf columns) = false) (rows : List Row) :
    ofKey columns key (row :: rows) = ofKey columns key rows := by
  rw [ofKey, List.filter_cons, if_neg (by simp [hkey]), ofKey]

theorem ofKey_congr (h : key.same other = true) (rows : List Row) :
    ofKey columns key rows = ofKey columns other rows := by
  refine List.filter_congr fun row _ => Bool.eq_iff_iff.mpr ⟨fun hrow => ?_, fun hrow => ?_⟩
  · exact Key.same_trans (Key.same_symm h) hrow
  · exact Key.same_trans h hrow

theorem not_same_of_apart (hapart : key.same other = false) (row : Row)
    (hrow : key.same (row.keyOf columns) = true) : (!other.same (row.keyOf columns)) = true := by
  rw [Bool.not_eq_true']
  by_contra hsame
  rw [Bool.not_eq_false] at hsame
  rw [Key.same_trans hrow (Key.same_symm hsame)] at hapart
  exact Bool.noConfusion hapart

/-- Rows of another key play no part in which rows are of a key. -/
theorem ofKey_filter (hapart : key.same other = false) (rows : List Row) :
    ofKey columns key (rows.filter fun row => !other.same (row.keyOf columns)) =
      ofKey columns key rows := by
  rw [ofKey, ofKey, List.filter_filter]
  refine List.filter_congr fun row _ => ?_
  rw [Bool.and_eq_left_iff_imp]
  exact not_same_of_apart hapart row

theorem placeOf_cons (columns : List Nat) (key : Key) (row : Row) (rows : List Row) :
    placeOf columns key (row :: rows) =
      if key.same (row.keyOf columns) then 0 else placeOf columns key rows + 1 := by
  rw [placeOf, List.findIdx_cons, placeOf]
  cases key.same (row.keyOf columns) <;> rfl

theorem placeOf_congr (h : key.same other = true) (rows : List Row) :
    placeOf columns key rows = placeOf columns other rows := by
  induction rows with
  | nil => rfl
  | cons row rows ih =>
      have hsame : key.same (row.keyOf columns) = other.same (row.keyOf columns) :=
        Bool.eq_iff_iff.mpr ⟨Key.same_trans (Key.same_symm h), Key.same_trans h⟩
      rw [placeOf_cons, placeOf_cons, hsame, ih]

/-- The first places of two things keep their order when others are put between. -/
theorem findIdx_lt_of_filter {p p' q : Row → Bool} (hp : ∀ row, p row = true → q row = true)
    (hp' : ∀ row, p' row = true → q row = true) {rows : List Row}
    (h : (rows.filter q).findIdx p < (rows.filter q).findIdx p') :
    rows.findIdx p < rows.findIdx p' := by
  induction rows with
  | nil => exact absurd h (Nat.lt_irrefl 0)
  | cons row rows ih =>
      rw [List.findIdx_cons, List.findIdx_cons]
      by_cases hq : q row = true
      · rw [List.filter_cons_of_pos hq, List.findIdx_cons, List.findIdx_cons] at h
        cases hrow : p row <;> cases hrow' : p' row <;>
          simp only [hrow, hrow', cond_true, cond_false] at h ⊢ <;> omega
      · rw [List.filter_cons_of_neg hq] at h
        have hrow : p row = false := by simpa using mt (hp row) hq
        have hrow' : p' row = false := by simpa using mt (hp' row) hq
        have hlt := ih h
        simp only [hrow, hrow', cond_false]
        omega

/-! ## Blocks -/

/-- The key of a block is that of its first row. -/
def keyOfBlock (columns : List Nat) (block : List Row) : Key :=
  (block.head?.map (keyOf columns)).getD []

/-- Every key of a row is the same as itself; so it is unless the row holds a list. -/
def KeyedBy (columns : List Nat) (rows : List Row) : Prop :=
  ∀ row ∈ rows, (row.keyOf columns).same (row.keyOf columns) = true

theorem KeyedBy.of_conforms {schema : Schema} (hrows : ∀ row ∈ rows, row.Conforms schema)
    (columns : List Nat) : KeyedBy columns rows := by
  intro row hrow
  refine Key.same_self fun v hv => ?_
  obtain ⟨i, -, rfl⟩ := List.mem_map.mp hv
  rw [List.getD_eq_getElem?_getD]
  cases hcolumn : schema[i]? with
  | none =>
      have hi : row.length ≤ i := (hrows row hrow).length_eq ▸ List.getElem?_eq_none_iff.mp hcolumn
      rw [List.getElem?_eq_none hi]
      rfl
  | some column =>
      obtain ⟨v, hv, hconforms⟩ := (hrows row hrow).getElem? hcolumn
      rw [hv]
      exact Value.sameKey_self_of_conforms hconforms

theorem KeyedBy.tail (hkeyed : KeyedBy columns (row :: rows)) : KeyedBy columns rows :=
  fun other hother => hkeyed other (List.mem_cons_of_mem _ hother)

theorem KeyedBy.filter (hkeyed : KeyedBy columns rows) (p : Row → Bool) :
    KeyedBy columns (rows.filter p) :=
  fun row hrow => hkeyed row (List.mem_filter.mp hrow).1

theorem blocks_induction (columns : List Nat) {motive : List Row → Prop} (nil : motive [])
    (cons : ∀ row rest,
      motive (rest.filter fun other => !(row.keyOf columns).same (other.keyOf columns)) →
      motive (row :: rest)) (rows : List Row) : motive rows := by
  induction hn : rows.length using Nat.strongRecOn generalizing rows with
  | _ n ih =>
      subst hn
      cases rows with
      | nil => exact nil
      | cons row rest =>
          exact cons row rest (ih _ (Nat.lt_succ_of_le (List.length_filter_le _ _)) _ rfl)

/-- A block is made of all rows of the key of its first row. -/
theorem exists_of_mem_blocks (hkeyed : KeyedBy columns rows) {block : List Row}
    (hblock : block ∈ blocks (keyOf columns) rows) :
    ∃ first rest, first ∈ rows ∧ block = first :: rest ∧
      block = ofKey columns (first.keyOf columns) rows := by
  induction rows using blocks_induction columns with
  | nil => simp [blocks] at hblock
  | cons row rest ih =>
      have hself := hkeyed row List.mem_cons_self
      rw [blocks, List.mem_cons] at hblock
      rcases hblock with rfl | hblock
      · exact ⟨row, _, List.mem_cons_self, rfl, (ofKey_cons_of_same hself rest).symm⟩
      · obtain ⟨first, others, hfirst, hcons, hall⟩ := ih (hkeyed.tail.filter _) hblock
        obtain ⟨hfirst, hapart⟩ := List.mem_filter.mp hfirst
        rw [Key.same_comm, Bool.not_eq_true'] at hapart
        refine ⟨first, others, List.mem_cons_of_mem _ hfirst, hcons, ?_⟩
        rw [hall, ofKey_filter hapart, ofKey_cons_of_apart hapart]

/-- Blocks stand in the order of the first rows of their keys. -/
theorem pairwise_blocks (hkeyed : KeyedBy columns rows) :
    (blocks (keyOf columns) rows).Pairwise fun first second =>
      placeOf columns (keyOfBlock columns first) rows <
        placeOf columns (keyOfBlock columns second) rows := by
  induction rows using blocks_induction columns with
  | nil => simp [blocks]
  | cons row rest ih =>
      have hself := hkeyed row List.mem_cons_self
      set others := rest.filter fun other => !(row.keyOf columns).same (other.keyOf columns)
      -- the keys of the later blocks are not that of the first row
      have hlater (block : List Row) (hblock : block ∈ blocks (keyOf columns) others) :
          (keyOfBlock columns block).same (row.keyOf columns) = false := by
        obtain ⟨first, rest, hfirst, rfl, -⟩ := exists_of_mem_blocks (hkeyed.tail.filter _) hblock
        have hapart := (List.mem_filter.mp hfirst).2
        rwa [Key.same_comm, Bool.not_eq_true'] at hapart
      rw [blocks, List.pairwise_cons]
      constructor
      -- the first block stands at the first row
      · intro block hblock
        rw [placeOf_cons, placeOf_cons, hlater block hblock, if_neg Bool.false_ne_true, keyOfBlock,
          List.head?_cons, Option.map_some, Option.getD_some, if_pos hself]
        exact Nat.succ_pos _
      -- the later ones stand as in the rows that are left, only further behind
      · refine (ih (hkeyed.tail.filter _)).imp_of_mem fun {first second} hfirst hsecond hlt => ?_
        rw [placeOf_cons, placeOf_cons, hlater first hfirst, hlater second hsecond,
          if_neg Bool.false_ne_true, if_neg Bool.false_ne_true]
        have hlt := findIdx_lt_of_filter (not_same_of_apart (hlater first hfirst))
          (not_same_of_apart (hlater second hsecond)) hlt
        exact Nat.succ_lt_succ hlt

theorem flatten_blocks_perm (columns : List Nat) (rows : List Row) :
    (blocks (keyOf columns) rows).flatten.Perm rows := by
  induction rows using blocks_induction columns with
  | nil => simp [blocks]
  | cons row rest ih =>
      rw [blocks, List.flatten_cons, List.cons_append]
      exact ((ih.append_left _).trans (List.filter_append_perm _ rest)).cons row

/-! ## Groups -/

/-- The blocks of some rows by their keys; without columns to group by there is one even of no
rows. -/
def groupsOf (columns : List Nat) (rows : List Row) : List (Key × List Row) :=
  (if rows.isEmpty && columns.isEmpty then [[]] else blocks (keyOf columns) rows).map fun block =>
    (keyOfBlock columns block, block)

theorem IsGrouping.of_ordered {groups : List (Key × List Row)} (hrows : rows ≠ [])
    (hgroups : ∀ group ∈ groups, ∃ first rest, group = (first.keyOf columns, first :: rest) ∧
      group.2 = ofKey columns group.1 rows)
    (hordered : groups.Pairwise fun first second =>
      placeOf columns first.1 rows < placeOf columns second.1 rows)
    (hperm : (groups.flatMap Prod.snd).Perm rows) : IsGrouping columns rows groups := by
  -- groups of the same key would stand at the same place
  have hapart : groups.Pairwise fun first second => first.1.same second.1 = false := by
    refine hordered.imp fun hlt => ?_
    by_contra hsame
    rw [Bool.not_eq_false] at hsame
    rw [placeOf_congr hsame] at hlt
    exact Nat.lt_irrefl _ hlt
  refine ⟨fun group hgroup => ?_, fun group hgroup row hrow => ?_, hordered, hapart,
    fun row hrow => ?_, hperm, fun _ group hgroup => ?_, fun hnil => absurd hnil hrows⟩
  · obtain ⟨first, rest, -, hall⟩ := hgroups group hgroup
    exact hall
  · obtain ⟨first, rest, rfl, -⟩ := hgroups group hgroup
    obtain rfl : first = row := by simpa using hrow
    rfl
  -- every row is in the group of its key, and two groups that hold it have the same key
  · obtain ⟨group, hgroup, hmem⟩ := List.mem_flatMap.mp (hperm.mem_iff.mpr hrow)
    refine ⟨group, ⟨hgroup, hmem⟩, fun other ⟨hother, hrow⟩ => ?_⟩
    by_contra hne
    have : Std.Symm fun first second : Key × List Row => first.1.same second.1 = false :=
      ⟨fun first second h => (Key.same_comm ..).trans h⟩
    have hfalse := hapart.forall hother hgroup hne
    obtain ⟨-, -, -, hall⟩ := hgroups group hgroup
    obtain ⟨-, -, -, hall'⟩ := hgroups other hother
    rw [hall, mem_ofKey_iff] at hmem
    rw [hall', mem_ofKey_iff] at hrow
    rw [Key.same_trans hrow.2 (Key.same_symm hmem.2)] at hfalse
    exact Bool.noConfusion hfalse
  · obtain ⟨first, rest, rfl, -⟩ := hgroups group hgroup
    exact List.cons_ne_nil _ _

/-- The blocks of rows are their groups. -/
theorem isGrouping_groupsOf (hkeyed : KeyedBy columns rows) :
    IsGrouping columns rows (groupsOf columns rows) := by
  by_cases hrows : rows = []
  · subst hrows
    by_cases hcolumns : columns = []
    · subst hcolumns
      have hgroups : groupsOf [] [] = [([], [])] := rfl
      rw [hgroups]
      constructor <;> simp [ofKey]
    · have hgroups : groupsOf columns [] = [] := by simp [groupsOf, hcolumns, blocks]
      rw [hgroups]
      constructor <;> simp [hcolumns]
  · have hgroups : groupsOf columns rows =
        (blocks (keyOf columns) rows).map fun block => (keyOfBlock columns block, block) := by
      simp [groupsOf, hrows]
    rw [hgroups]
    refine .of_ordered hrows (fun group hgroup => ?_)
      (List.pairwise_map.mpr (pairwise_blocks hkeyed)) ?_
    · obtain ⟨block, hblock, rfl⟩ := List.mem_map.mp hgroup
      obtain ⟨first, rest, -, rfl, hall⟩ := exists_of_mem_blocks hkeyed hblock
      exact ⟨first, rest, rfl, hall⟩
    · rw [List.flatMap_map, List.flatMap_id']
      exact flatten_blocks_perm columns rows

theorem IsGrouping.length_key {groups : List (Key × List Row)}
    (hgroups : IsGrouping columns rows groups) {group : Key × List Row} (hgroup : group ∈ groups) :
    group.1.length = columns.length := by
  by_cases hrows : rows = []
  · rw [hgroups.of_nil hrows] at hgroup
    split at hgroup
    · next hcolumns =>
      rw [List.mem_singleton.mp hgroup, hcolumns]
      rfl
    · simp at hgroup
  · obtain ⟨row, rest, hmembers⟩ :=
      List.exists_cons_of_ne_nil (hgroups.inhabited hrows group hgroup)
    rw [hgroups.key_eq group hgroup row (by rw [hmembers]; rfl), keyOf, List.length_map]

/-- The same rows in another order are in the same groups, which may stand in another order. -/
theorem IsGrouping.exists_of_perm {others : List Row} {groups otherGroups : List (Key × List Row)}
    (hgroups : IsGrouping columns rows groups) (hothers : IsGrouping columns others otherGroups)
    (hperm : rows.Perm others) {group : Key × List Row} (hgroup : group ∈ groups) :
    ∃ other ∈ otherGroups, group.1.same other.1 = true ∧ group.2.Perm other.2 := by
  by_cases hrows : rows = []
  -- without rows both are the same groups: one of no row, or none
  · have hnil : others = [] := by
      subst hrows
      exact hperm.nil_eq.symm
    have hsame : groups = otherGroups := (hgroups.of_nil hrows).trans (hothers.of_nil hnil).symm
    have hkey : group.1 = [] := by
      rw [hgroups.of_nil hrows] at hgroup
      split at hgroup
      · rw [List.mem_singleton.mp hgroup]
      · simp at hgroup
    exact ⟨group, hsame ▸ hgroup, by rw [hkey]; rfl, .refl _⟩
  · obtain ⟨row, rest, hmembers⟩ :=
      List.exists_cons_of_ne_nil (hgroups.inhabited hrows group hgroup)
    have hall := hgroups.rows_eq group hgroup
    have hkey : group.1 = row.keyOf columns :=
      hgroups.key_eq group hgroup row (by rw [hmembers]; rfl)
    have hrow : row ∈ ofKey columns group.1 rows := by
      rw [← hall, hmembers]
      exact List.mem_cons_self
    -- the other group is the one that holds a row of this one
    obtain ⟨other, ⟨hother, hmem⟩, -⟩ :=
      hothers.unique row (hperm.mem_iff.mp (mem_ofKey_iff.mp hrow).1)
    rw [hothers.rows_eq other hother, mem_ofKey_iff] at hmem
    have hsame : group.1.same other.1 = true := by
      rw [hkey]
      exact Key.same_symm hmem.2
    refine ⟨other, hother, hsame, ?_⟩
    rw [hall, hothers.rows_eq other hother, ofKey_congr hsame]
    exact hperm.filter _

end Row

end EntityQuery
