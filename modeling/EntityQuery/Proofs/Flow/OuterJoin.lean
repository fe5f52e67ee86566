import EntityQuery.Proofs.Flow.Built
import EntityQuery.Proofs.Flow.Listed

/-!
# The left outer join

A join keeps the rows on the right in a table by their keys, and hands out the matches of one row on
the left after the other.  Nothing of this shows in the rows that come out.  Each of them is a row
on the left with a row on the right behind it, or with nulls; so a joined row has an origin, two
places of which the second may be missing.  The origins of a left outer join are known from the rows
alone, without a table and without a cursor: which origins there are is a matter of the keys, and
they stand in the order of the rows on the left, and of those on the right for the same row on the
left.

## Main definitions

* `JoinOrigin` : the places that a joined row comes from
* `IsOuterJoin` : the origins of a left outer join

## Main statements

* `map_row_originsOf` : the rows of these origins are those of the join as a function of lists
* `outer_of_leftJoin` : a join yields the left outer join of what its inputs yield
-/

namespace EntityQuery

/-! ## Origins -/

/-- Where a row of a join comes from: the place of a row on the left, and that of its match on the
right if it has one. -/
structure JoinOrigin where
  left : Nat
  right : Option Nat

namespace JoinOrigin

/-- The joined row of an origin; a row without a match is filled up with nulls. -/
def row (width : Nat) (lefts rights : List Row) (origin : JoinOrigin) : Row :=
  lefts.getD origin.left [] ++
    match origin.right with
    | some b => rights.getD b []
    | none => List.replicate width .null

/-- An origin stands before another: by the row on the left, and by the match of the same row. -/
def Precedes (first second : JoinOrigin) : Prop :=
  first.left < second.left ∨
    (first.left = second.left ∧ ∃ b d, first.right = some b ∧ second.right = some d ∧ b < d)

theorem Precedes.ne {first second : JoinOrigin} (h : first.Precedes second) : first ≠ second := by
  rintro rfl
  rcases h with hlt | ⟨-, b, d, hb, hd, hlt⟩
  · exact Nat.lt_irrefl _ hlt
  · obtain rfl := Option.some.inj (hb.symm.trans hd)
    exact Nat.lt_irrefl _ hlt

end JoinOrigin

/-- The origins of the left outer join by two columns.  A row on the left without a key or without a
match comes once, any other comes with each row on the right that has the same key, which is not
null. -/
structure IsOuterJoin (leftKey rightKey : Nat) (lefts rights : List Row)
    (origins : List JoinOrigin) : Prop where
  ordered : origins.Pairwise JoinOrigin.Precedes
  nodup : origins.Nodup
  mem_unmatched_iff : ∀ a, ⟨a, none⟩ ∈ origins ↔ ∃ row, lefts[a]? = some row ∧
    ((row.getD leftKey .null).isNull = true ∨
      ∀ other ∈ rights, (other.getD rightKey .null).sameKey (row.getD leftKey .null) = false)
  mem_matched_iff : ∀ a b, ⟨a, some b⟩ ∈ origins ↔
    ∃ row other, lefts[a]? = some row ∧ rights[b]? = some other ∧
    (other.getD rightKey .null).isNull = false ∧
    (other.getD rightKey .null).sameKey (row.getD leftKey .null) = true
  kept : ∀ a < lefts.length, ∃ origin ∈ origins, origin.left = a

namespace JoinOrigin

variable {leftKey rightKey width : Nat} {lefts rights : List Row}

/-! ## The matches of a row -/

/-- The places of the rows on the right that match a row on the left. -/
def matchesOf (leftKey rightKey : Nat) (rights : List Row) (row : Row) : List Nat :=
  (rights.zipIdx.filter fun other =>
    (row.getD leftKey .null).meets (other.1.getD rightKey .null)).map Prod.snd

theorem mem_matchesOf_iff {row : Row} {b : Nat} :
    b ∈ matchesOf leftKey rightKey rights row ↔ ∃ other, rights[b]? = some other ∧
      (row.getD leftKey .null).meets (other.getD rightKey .null) = true := by
  unfold matchesOf
  constructor
  · intro hb
    obtain ⟨⟨other, place⟩, hother, rfl⟩ := List.mem_map.mp hb
    rw [List.mem_filter, List.mk_mem_zipIdx_iff_getElem?] at hother
    exact ⟨other, hother⟩
  · rintro ⟨other, hother, hmeets⟩
    refine List.mem_map.mpr ⟨(other, b), ?_, rfl⟩
    rw [List.mem_filter, List.mk_mem_zipIdx_iff_getElem?]
    exact ⟨hother, hmeets⟩

theorem pairwise_matchesOf (row : Row) :
    (matchesOf leftKey rightKey rights row).Pairwise (· < ·) := by
  have hplaces : (rights.zipIdx.map Prod.snd).Pairwise (· < ·) := by
    rw [List.zipIdx_map_snd]
    exact List.pairwise_lt_range'
  rw [matchesOf, List.pairwise_map]
  exact (List.pairwise_map.mp hplaces).filter _

/-- The rows at these places are the rows that match, in their order. -/
theorem map_matchesOf (row : Row) :
    (matchesOf leftKey rightKey rights row).map (fun b => rights.getD b []) =
      rights.filter fun other => (row.getD leftKey .null).meets (other.getD rightKey .null) := by
  have hrows : (rights.zipIdx.filter fun other =>
        (row.getD leftKey .null).meets (other.1.getD rightKey .null)).map Prod.fst =
      rights.filter fun other => (row.getD leftKey .null).meets (other.getD rightKey .null) := by
    conv_rhs => rw [← List.zipIdx_map_fst 0 rights]
    rw [List.filter_map]
    rfl
  rw [← hrows, matchesOf, List.map_map]
  refine List.map_congr_left fun other hother => ?_
  have hplace := List.mem_zipIdx_iff_getElem?.mp (List.mem_filter.mp hother).1
  simp [hplace]

/-- A row has no match exactly if it has no key or no row on the right has the same key. -/
theorem matchesOf_eq_nil_iff {row : Row} :
    matchesOf leftKey rightKey rights row = [] ↔ (row.getD leftKey .null).isNull = true ∨
      ∀ other ∈ rights, (other.getD rightKey .null).sameKey (row.getD leftKey .null) = false := by
  rw [List.eq_nil_iff_forall_not_mem]
  constructor
  · intro hnone
    rw [or_iff_not_imp_left, Bool.not_eq_true]
    intro hkey other hother
    obtain ⟨b, hb⟩ := List.mem_iff_getElem?.mp hother
    by_contra hsame
    rw [Bool.not_eq_false] at hsame
    have hmeets := Value.meets_iff.mpr ⟨(Value.isNull_eq_of_sameKey hsame).trans hkey, hsame⟩
    exact hnone b (mem_matchesOf_iff.mpr ⟨other, hb, hmeets⟩)
  · intro hnone b hb
    obtain ⟨other, hother, hmeets⟩ := mem_matchesOf_iff.mp hb
    obtain ⟨hkey, hsame⟩ := Value.meets_iff.mp hmeets
    rcases hnone with hnull | hapart
    · rw [← Value.isNull_eq_of_sameKey hsame, hkey] at hnull
      exact Bool.false_ne_true hnull
    · rw [hapart other (List.mem_of_getElem? hother)] at hsame
      exact Bool.false_ne_true hsame

/-! ## The origins of a join -/

/-- The origins that stem from the row at a place on the left. -/
def originsAt (leftKey rightKey : Nat) (rights : List Row) (row : Row) (a : Nat) :
    List JoinOrigin :=
  if (matchesOf leftKey rightKey rights row).isEmpty then [⟨a, none⟩]
  else (matchesOf leftKey rightKey rights row).map fun b => ⟨a, some b⟩

/-- The origins of all rows of a join. -/
def originsOf (leftKey rightKey : Nat) (lefts rights : List Row) : List JoinOrigin :=
  lefts.zipIdx.flatMap fun row => originsAt leftKey rightKey rights row.1 row.2

theorem mem_originsAt_iff {row : Row} {a : Nat} {origin : JoinOrigin} :
    origin ∈ originsAt leftKey rightKey rights row a ↔ origin.left = a ∧
      match origin.right with
      | some b => b ∈ matchesOf leftKey rightKey rights row
      | none => matchesOf leftKey rightKey rights row = [] := by
  obtain ⟨place, right⟩ := origin
  unfold originsAt
  split
  · next hempty =>
    rw [List.isEmpty_iff] at hempty
    cases right <;> simp [hempty, eq_comm]
  · next hne =>
    rw [List.isEmpty_iff] at hne
    cases right <;> simp [hne, eq_comm, and_comm]

theorem mem_originsOf_iff {origin : JoinOrigin} :
    origin ∈ originsOf leftKey rightKey lefts rights ↔
      ∃ row, lefts[origin.left]? = some row ∧
        origin ∈ originsAt leftKey rightKey rights row origin.left := by
  unfold originsOf
  constructor
  · intro horigin
    obtain ⟨⟨row, a⟩, hrow, horigin⟩ := List.mem_flatMap.mp horigin
    obtain rfl : origin.left = a := (mem_originsAt_iff.mp horigin).1
    exact ⟨row, List.mk_mem_zipIdx_iff_getElem?.mp hrow, horigin⟩
  · rintro ⟨row, hrow, horigin⟩
    exact List.mem_flatMap.mpr ⟨(row, origin.left),
      List.mk_mem_zipIdx_iff_getElem?.mpr hrow, horigin⟩

theorem pairwise_originsAt (row : Row) (a : Nat) :
    (originsAt leftKey rightKey rights row a).Pairwise Precedes := by
  unfold originsAt
  split
  · exact List.pairwise_singleton ..
  · rw [List.pairwise_map]
    refine (pairwise_matchesOf row).imp fun hlt => ?_
    exact .inr ⟨rfl, _, _, rfl, rfl, hlt⟩

theorem pairwise_originsOf (leftKey rightKey : Nat) (lefts rights : List Row) :
    (originsOf leftKey rightKey lefts rights).Pairwise Precedes := by
  have hplaces : (lefts.zipIdx.map Prod.snd).Pairwise (· < ·) := by
    rw [List.zipIdx_map_snd]
    exact List.pairwise_lt_range'
  refine List.pairwise_flatMap.mpr ⟨fun row _ => pairwise_originsAt row.1 row.2, ?_⟩
  refine (List.pairwise_map.mp hplaces).imp fun hlt first hfirst second hsecond => ?_
  rw [← (mem_originsAt_iff.mp hfirst).1, ← (mem_originsAt_iff.mp hsecond).1] at hlt
  exact .inl hlt

theorem isOuterJoin_originsOf (leftKey rightKey : Nat) (lefts rights : List Row) :
    IsOuterJoin leftKey rightKey lefts rights (originsOf leftKey rightKey lefts rights) where
  ordered := pairwise_originsOf ..
  nodup := (pairwise_originsOf ..).imp Precedes.ne
  mem_unmatched_iff a := by
    rw [mem_originsOf_iff]
    refine exists_congr fun row => and_congr_right fun _ => ?_
    rw [mem_originsAt_iff]
    exact (and_iff_right rfl).trans matchesOf_eq_nil_iff
  mem_matched_iff a b := by
    rw [mem_originsOf_iff]
    refine exists_congr fun row => ?_
    rw [exists_and_left]
    refine and_congr_right fun _ => ?_
    rw [mem_originsAt_iff]
    refine (and_iff_right rfl).trans (mem_matchesOf_iff.trans ?_)
    exact exists_congr fun other => and_congr_right fun _ => Value.meets_iff
  kept a ha := by
    have hrow : lefts[a]? = some lefts[a] := List.getElem?_eq_getElem ha
    cases hmatches : matchesOf leftKey rightKey rights lefts[a] with
    | nil =>
        exact ⟨⟨a, none⟩, mem_originsOf_iff.mpr ⟨_, hrow, mem_originsAt_iff.mpr ⟨rfl, hmatches⟩⟩,
          rfl⟩
    | cons b rest =>
        have hb : b ∈ matchesOf leftKey rightKey rights lefts[a] := hmatches ▸ List.mem_cons_self ..
        exact ⟨⟨a, some b⟩, mem_originsOf_iff.mpr ⟨_, hrow, mem_originsAt_iff.mpr ⟨rfl, hb⟩⟩, rfl⟩

theorem map_row_originsAt {row : Row} {a : Nat} (hrow : lefts[a]? = some row) :
    (originsAt leftKey rightKey rights row a).map (JoinOrigin.row width lefts rights) =
      Flow.joined width row (rights.filter fun other =>
        (row.getD leftKey .null).meets (other.getD rightKey .null)) := by
  rw [← map_matchesOf, Flow.joined, List.isEmpty_map, originsAt]
  split
  · simp [JoinOrigin.row, hrow]
  · rw [List.map_map, List.map_map]
    refine List.map_congr_left fun b _ => ?_
    simp [JoinOrigin.row, hrow]

/-- The rows of the origins are those of the join as a function of lists. -/
theorem map_row_originsOf (width leftKey rightKey : Nat) (lefts rights : List Row) :
    (originsOf leftKey rightKey lefts rights).map (JoinOrigin.row width lefts rights) =
      Row.leftJoin width leftKey rightKey lefts rights := by
  rw [originsOf, List.map_flatMap, Row.leftJoin]
  conv_rhs => rw [← List.zipIdx_map_fst 0 lefts, List.flatMap_map]
  exact List.flatMap_congr fun row hrow => map_row_originsAt (List.mem_zipIdx_iff_getElem?.mp hrow)

end JoinOrigin

/-! ## Joins -/

namespace Flow

variable {left right flow : Flow} {leftKey rightKey : String} {lefts rights : List Row}
  {e : Option FlowFault}

/-- The columns by which two flows are joined are there. -/
theorem exists_positions_of_leftJoin (hflow : left.leftJoin right leftKey rightKey = .ok flow) :
    ∃ i k, left.schema.position? leftKey = some i ∧ right.schema.position? rightKey = some k ∧
      flow = .join left right i k .empty [] false := by
  unfold leftJoin at hflow
  split at hflow
  · simp at hflow
  · simp at hflow
  · next i k hi hk =>
    split at hflow
    · split at hflow
      · exact ⟨i, k, hi, hk, (Except.ok.inj hflow).symm⟩
      · simp at hflow
    · simp at hflow

/-- A join yields the left outer join of what its inputs yield, and ends as its left input does. -/
theorem outer_of_leftJoin (hflow : left.leftJoin right leftKey rightKey = .ok flow)
    (hleft : left.Runs lefts e) (hright : right.Runs rights none) :
    ∃ i k origins, left.schema.position? leftKey = some i ∧
      right.schema.position? rightKey = some k ∧
      IsOuterJoin i k lefts rights origins ∧
      flow.Runs (origins.map (JoinOrigin.row right.schema.length lefts rights)) e := by
  obtain ⟨i, k, hi, hk, rfl⟩ := exists_positions_of_leftJoin hflow
  refine ⟨i, k, JoinOrigin.originsOf i k lefts rights, hi, hk, JoinOrigin.isOuterJoin_originsOf ..,
    ?_⟩
  rw [JoinOrigin.map_row_originsOf, Row.leftJoin]
  simp only [← MatchTable.rowsOf_ofRows]
  exact runs_join hleft hright i k

/-- Authors by their numbers; one of them has none. -/
def someAuthors : List Row :=
  [[.int32 2, .text "Eco"], [.int32 1, .text "Borges"], [.null, .text "Anonymous"]]

/-- Books with the numbers of their authors, where these are known. -/
def someBooks : List Row :=
  [[.text "Ficciones", .int32 1], [.text "Beowulf", .null], [.text "El Aleph", .int32 1]]

/-- Authors with their books, in the order of the authors; a book without an author is left out. -/
theorem outer_of_leftJoin_books :
    ∃ flow origins,
      (ofRows [⟨"id", .int32⟩, ⟨"name", .text⟩] someAuthors).leftJoin
        (ofRows [⟨"title", .text⟩, ⟨"author", .int32⟩] someBooks) "id" "author" = .ok flow ∧
      IsOuterJoin 0 1 someAuthors someBooks origins ∧
      origins.map (JoinOrigin.row 2 someAuthors someBooks) =
        [[.int32 2, .text "Eco", .null, .null],
          [.int32 1, .text "Borges", .text "Ficciones", .int32 1],
          [.int32 1, .text "Borges", .text "El Aleph", .int32 1],
          [.null, .text "Anonymous", .null, .null]] := by
  have hflow : ∃ flow, (ofRows [⟨"id", .int32⟩, ⟨"name", .text⟩] someAuthors).leftJoin
      (ofRows [⟨"title", .text⟩, ⟨"author", .int32⟩] someBooks) "id" "author" = .ok flow := ⟨_, rfl⟩
  obtain ⟨flow, hflow⟩ := hflow
  obtain ⟨i, k, origins, hi, hk, horigins, hruns⟩ :=
    outer_of_leftJoin hflow (runs_ofRows _ _) (runs_ofRows _ _)
  obtain rfl : 0 = i := Option.some.inj hi
  obtain rfl : 1 = k := Option.some.inj hk
  refine ⟨flow, origins, hflow, horigins, ?_⟩
  obtain ⟨last, hrun⟩ := run_of_runs hruns
  obtain rfl := Except.ok.inj hflow
  exact (congrArg Prod.fst hrun).symm

end Flow

end EntityQuery
