import EntityQuery.Proofs.Flow.Stages

/-!
# First rows of blocks

Joins make a block of rows out of every row of the root.  Where the rows of a block have one key,
and different blocks have different keys, the first rows of all keys are the first rows of the
blocks that are not empty.

## Main definitions

* `Row.keyFor` : the key by which rows are told apart

## Main statements

* `firsts_flatMap` : the first rows of blocks
-/

namespace EntityQuery.Row

/-- The key by which rows are told apart: the values of some columns, or without columns the whole
row. -/
def keyFor (columns : List Nat) (row : Row) : Key :=
  if columns.isEmpty then row else row.keyOf columns

theorem firsts_cons (columns : List Nat) (seen : List Key) (row : Row) (rest : List Row) :
    firsts columns seen (row :: rest) =
      if seen.any (·.same (row.keyFor columns)) then firsts columns seen rest
      else row :: firsts columns (row.keyFor columns :: seen) rest := rfl

theorem firsts_eq_nil_iff {columns : List Nat} {rows : List Row} :
    firsts columns [] rows = [] ↔ rows = [] := by
  cases rows with
  | nil => simp [firsts]
  | cons row rows => simp [firsts_cons]

theorem length_firsts_le (columns : List Nat) (seen : List Key) (rows : List Row) :
    (firsts columns seen rows).length ≤ rows.length := by
  induction rows generalizing seen with
  | nil => exact Nat.le_refl _
  | cons row rows ih =>
      rw [firsts_cons]
      split
      · exact Nat.le_succ_of_le (ih seen)
      · exact Nat.succ_le_succ (ih _)

theorem firsts_append_of_seen {columns : List Nat} {seen : List Key} {rows : List Row}
    (hseen : ∀ row ∈ rows, seen.any (·.same (row.keyFor columns)) = true) (rest : List Row) :
    firsts columns seen (rows ++ rest) = firsts columns seen rest := by
  induction rows with
  | nil => rfl
  | cons row rows ih =>
      rw [List.forall_mem_cons] at hseen
      rw [List.cons_append, firsts_cons, if_pos hseen.1, ih hseen.2]

/-- The first rows of blocks, each of which has a key of its own. -/
theorem firsts_flatMap {α : Type} {columns : List Nat} {block : α → List Row} (key : α → Key)
    {xs : List α} (hkey : ∀ x ∈ xs, ∀ row ∈ block x, row.keyFor columns = key x)
    (hself : ∀ x ∈ xs, (key x).same (key x) = true)
    (hapart : xs.Pairwise fun a b => (key a).same (key b) = false) {seen : List Key}
    (hseen : ∀ k ∈ seen, ∀ x ∈ xs, k.same (key x) = false) :
    firsts columns seen (xs.flatMap block) = xs.filterMap fun x => (block x).head? := by
  induction xs generalizing seen with
  | nil => rfl
  | cons x xs ih =>
      rw [List.forall_mem_cons] at hkey hself
      rw [List.pairwise_cons] at hapart
      rw [List.flatMap_cons]
      have hseenRest : ∀ k ∈ seen, ∀ y ∈ xs, k.same (key y) = false :=
        fun k hk y hy => hseen k hk y (List.mem_cons_of_mem _ hy)
      cases hblock : block x with
      | nil =>
          rw [List.filterMap_cons_none (by rw [hblock]; rfl), List.nil_append]
          exact ih hkey.2 hself.2 hapart.2 hseenRest
      | cons first others =>
          rw [hblock, List.forall_mem_cons] at hkey
          rw [List.filterMap_cons_some (by rw [hblock]; rfl), List.cons_append, firsts_cons,
            hkey.1.1]
          -- the first row of the block is new, all others have its key
          have hnew : ¬ seen.any (·.same (key x)) = true := by
            rw [List.any_eq_true]
            rintro ⟨k, hk, hsame⟩
            rw [hseen k hk x (List.mem_cons_self ..)] at hsame
            simp at hsame
          have hothers : ∀ row ∈ others,
              (key x :: seen).any (·.same (row.keyFor columns)) = true := by
            intro row hrow
            rw [hkey.1.2 row hrow, List.any_cons, hself.1, Bool.true_or]
          rw [if_neg hnew, firsts_append_of_seen hothers]
          congr 1
          refine ih hkey.2 hself.2 hapart.2 ?_
          rw [List.forall_mem_cons]
          exact ⟨hapart.1, hseenRest⟩

theorem flatMap_eq_filterMap {α : Type} {block : α → List Row} {xs : List α}
    (hblock : ∀ x ∈ xs, (block x).length ≤ 1) :
    xs.flatMap block = xs.filterMap fun x => (block x).head? := by
  rw [List.filterMap_eq_flatMap_toList]
  refine List.flatMap_congr fun x hx => ?_
  match hrows : block x, hblock x hx with
  | [], _ => rfl
  | [row], _ => rfl

theorem length_filterMap_head? {α : Type} (block : α → List Row) (xs : List α) :
    (xs.filterMap fun x => (block x).head?).length =
      (xs.filter fun x => !(block x).isEmpty).length := by
  rw [List.length_filterMap_eq_countP, List.countP_eq_length_filter]
  congr 2
  funext x
  cases block x <;> rfl

/-- The first rows of blocks each of which repeats one row. -/
theorem filterMap_head?_eq_map {α : Type} {block : α → List Row} {image : α → Row} {xs : List α}
    (himage : ∀ x ∈ xs, ∀ row ∈ block x, row = image x) :
    (xs.filterMap fun x => (block x).head?) =
      (xs.filter fun x => !(block x).isEmpty).map image := by
  induction xs with
  | nil => rfl
  | cons x xs ih =>
      rw [List.forall_mem_cons] at himage
      cases hblock : block x with
      | nil =>
          rw [List.filterMap_cons_none (by rw [hblock]; rfl),
            List.filter_cons_of_neg (by simp [hblock])]
          exact ih himage.2
      | cons row rest =>
          have hrow : row = image x := himage.1 row (hblock ▸ List.mem_cons_self ..)
          rw [List.filterMap_cons_some (by rw [hblock]; rfl),
            List.filter_cons_of_pos (by simp [hblock]), List.map_cons, ih himage.2, hrow]

end EntityQuery.Row
