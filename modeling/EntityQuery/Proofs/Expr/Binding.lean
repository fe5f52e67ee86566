import EntityQuery.Proofs.Expr.Truth

/-!
# Binding to a layout

Binding meets the columns of an expression in the order in which they are read, and fails at the
first one that the layout lacks.  If it lacks none, the bound expression is the one in which every
column stands at the first place of its name in the layout; nothing else has changed, and where the
columns stood before does not matter.

Names that come again are dropped from the columns of an expression, but the first name that a
layout lacks is never among those dropped.

## Main definitions

* `Expr.placed` : the expression with every column at the first place of its name
* `Expr.present` : a layout has some names, or the first of them that it lacks

## Main statements

* `bind_eq` : binding is a check of the names that are read, and then the expression with columns at
  their places
* `bind_eq_error_iff` : which faults binding has
* `exists_bind` : binding succeeds
* `bind_placed`, `reads_placed`, `display_placed` : what stays the same in a bound expression
-/

namespace EntityQuery

namespace Expr

/-! ## Columns that are read -/

theorem find?_foldl_firstSeen (p : String → Bool) (names seen : List String) :
    (names.foldl (fun seen name => if seen.contains name then seen else seen ++ [name])
        seen).find? p =
      (seen ++ names).find? p := by
  induction names generalizing seen with
  | nil => simp
  | cons first names ih =>
      rw [List.foldl_cons, ih]
      split
      · next h =>
        -- a name that comes again is found at its first place, if at all
        have hseen : first ∈ seen := List.contains_iff_mem.mp h
        rw [List.find?_append, List.find?_append, List.find?_cons]
        cases hfound : seen.find? p with
        | some _ => rfl
        | none => simp [List.find?_eq_none.mp hfound first hseen]
      · rw [List.append_assoc, List.singleton_append]

theorem find?_columns (e : Expr) (p : String → Bool) : e.columns.find? p = e.reads.find? p := by
  rw [columns, firstSeen, find?_foldl_firstSeen, List.nil_append]

theorem mem_columns_iff {e : Expr} {name : String} : name ∈ e.columns ↔ name ∈ e.reads := by
  have hfound (names : List String) : (names.find? (· = name)).isSome = true ↔
      name ∈ names := by simp
  rw [← hfound, ← hfound, find?_columns]

/-! ## Names of a layout -/

/-- The layout has all names, or the first one that it lacks is unknown. -/
def present (layout names : List String) : Except ExprFault Unit :=
  names.forM fun name => if name ∈ layout then pure () else throw (.unknownColumn name)

variable {layout : List String}

@[simp] theorem present_nil : present layout [] = .ok () := rfl

@[simp] theorem present_append (names more : List String) :
    present layout (names ++ more) = present layout names >>= fun _ => present layout more :=
  List.forM_append

theorem present_eq_ok_iff {names : List String} :
    present layout names = .ok () ↔ ∀ name ∈ names, name ∈ layout := by
  rw [present, Outcome.forM_eq_ok_iff]
  refine forall₂_congr fun name _ => ?_
  split <;> simp_all

theorem present_eq_error_iff {names : List String} {fault : ExprFault} :
    present layout names = .error fault ↔
      ∃ name, names.find? (· ∉ layout) = some name ∧ fault = .unknownColumn name := by
  induction names with
  | nil => simp
  | cons name names ih =>
      rw [← List.singleton_append, present_append, List.find?_append]
      by_cases h : name ∈ layout
      · simpa [present, h] using ih
      · simp [present, h, eq_comm]

/-! ## Places of columns -/

mutual

/-- The expression with every column at the first place of its name in a layout, if it is there. -/
def placed (layout : List String) : Expr → Expr
  | .literal value => .literal value
  | .column name _ => .column name (layout.idxOf? name)
  | .binary op left right => .binary op (left.placed layout) (right.placed layout)
  | .unary op arg => .unary op (arg.placed layout)
  | .isIn arg items => .isIn (arg.placed layout) (placedItems layout items)
  | .between arg low high => .between (arg.placed layout) (low.placed layout) (high.placed layout)

/-- Some expressions with every column at its place. -/
def placedItems (layout : List String) : List Expr → List Expr
  | [] => []
  | item :: rest => item.placed layout :: placedItems layout rest

end

mutual

/-- Columns are read under the same names, wherever they stand. -/
@[simp] theorem reads_placed : ∀ e : Expr, (e.placed layout).reads = e.reads
  | .literal _ | .column _ _ => rfl
  | .binary _ left right => by rw [placed, reads, reads, reads_placed left, reads_placed right]
  | .unary _ arg => by rw [placed, reads, reads, reads_placed arg]
  | .isIn arg items => by rw [placed, reads, reads, reads_placed arg, readsOfItems_placed items]
  | .between arg low high => by
      rw [placed, reads, reads, reads_placed arg, reads_placed low, reads_placed high]

theorem readsOfItems_placed :
    ∀ items : List Expr, readsOfItems (placedItems layout items) = readsOfItems items
  | [] => rfl
  | item :: rest => by
      rw [placedItems, readsOfItems, readsOfItems, reads_placed item, readsOfItems_placed rest]

end

mutual

/-- The text of an expression does not tell where its columns stand. -/
@[simp] theorem display_placed : ∀ e : Expr, (e.placed layout).display = e.display
  | .literal _ | .column _ _ => rfl
  | .binary _ left right => by
      rw [placed, display, display, display_placed left, display_placed right]
  | .unary _ arg => by rw [placed, display, display, display_placed arg]
  | .isIn arg items => by
      rw [placed, display, display, display_placed arg, displayItems_placed items]
  | .between arg low high => by
      rw [placed, display, display, display_placed arg, display_placed low, display_placed high]

theorem displayItems_placed :
    ∀ items : List Expr, displayItems (placedItems layout items) = displayItems items
  | [] => rfl
  | [item] => by rw [placedItems, placedItems, displayItems, displayItems, display_placed item]
  | item :: next :: rest => by
      have hrest := displayItems_placed (next :: rest)
      rw [placedItems] at hrest
      simp [placedItems, displayItems, display_placed item, hrest]

end

mutual

@[simp] theorem placed_placed : ∀ e : Expr, (e.placed layout).placed layout = e.placed layout
  | .literal _ | .column _ _ => rfl
  | .binary _ left right => by rw [placed, placed, placed_placed left, placed_placed right]
  | .unary _ arg => by rw [placed, placed, placed_placed arg]
  | .isIn arg items => by rw [placed, placed, placed_placed arg, placedItems_placed items]
  | .between arg low high => by
      rw [placed, placed, placed_placed arg, placed_placed low, placed_placed high]

theorem placedItems_placed : ∀ items : List Expr,
    placedItems layout (placedItems layout items) = placedItems layout items
  | [] => rfl
  | item :: rest => by rw [placedItems, placedItems, placed_placed item, placedItems_placed rest]

end

/-! ## Binding -/

mutual

/-- Binding checks the names that are read, and then has every column at its place. -/
theorem bind_eq (layout : List String) :
    ∀ e : Expr, e.bind layout = (do present layout e.reads; return e.placed layout)
  | .literal _ => rfl
  | .column name index => by
      by_cases h : name ∈ layout
      · obtain ⟨i, hi⟩ := Option.isSome_iff_exists.mp (List.isSome_idxOf?.mpr h)
        simp [bind, present, reads, placed, h, hi]
      · simp [bind, present, reads, placed, h, List.idxOf?_eq_none_iff.mpr h]
  | .binary op left right => by
      simp [bind, reads, placed, bind_eq layout left, bind_eq layout right]
  | .unary op arg => by simp [bind, reads, placed, bind_eq layout arg]
  | .isIn arg items => by simp [bind, reads, placed, bind_eq layout arg, bindItems_eq layout items]
  | .between arg low high => by
      simp [bind, reads, placed, bind_eq layout arg, bind_eq layout low, bind_eq layout high]

theorem bindItems_eq (layout : List String) :
    ∀ items : List Expr,
      bindItems layout items =
        (do present layout (readsOfItems items); return placedItems layout items)
  | [] => rfl
  | item :: rest => by
      simp [bindItems, readsOfItems, placedItems, bind_eq layout item, bindItems_eq layout rest]

end

theorem bind_eq_ok_iff {e bound : Expr} :
    e.bind layout = .ok bound ↔ (∀ name ∈ e.reads, name ∈ layout) ∧ bound = e.placed layout := by
  rw [bind_eq, Outcome.bind_eq_ok_iff, ← present_eq_ok_iff]
  constructor
  · rintro ⟨⟨⟩, hpresent, hbound⟩
    exact ⟨hpresent, (Except.ok.inj hbound).symm⟩
  · rintro ⟨hpresent, rfl⟩
    exact ⟨(), hpresent, rfl⟩

/-- An operator is bound by binding both of its operands. -/
theorem bind_binary_eq_ok {op : BinaryOp} {left right bound : Expr}
    (hbound : (binary op left right).bind layout = .ok bound) :
    ∃ l r, left.bind layout = .ok l ∧ right.bind layout = .ok r ∧ bound = .binary op l r := by
  obtain ⟨l, hl, hbound⟩ := Outcome.bind_eq_ok_iff.mp hbound
  obtain ⟨r, hr, hbound⟩ := Outcome.bind_eq_ok_iff.mp hbound
  exact ⟨l, r, hl, hr, (Except.ok.inj hbound).symm⟩

theorem bind_unary_eq_ok {op : UnaryOp} {arg bound : Expr}
    (hbound : (unary op arg).bind layout = .ok bound) :
    ∃ a, arg.bind layout = .ok a ∧ bound = .unary op a := by
  obtain ⟨a, ha, hbound⟩ := Outcome.bind_eq_ok_iff.mp hbound
  exact ⟨a, ha, (Except.ok.inj hbound).symm⟩

/-- Binding fails at the first column that the layout lacks, and not otherwise. -/
theorem bind_eq_error_iff {e : Expr} {fault : ExprFault} :
    e.bind layout = .error fault ↔
      ∃ name, e.columns.find? (· ∉ layout) = some name ∧ fault = .unknownColumn name := by
  rw [find?_columns, ← present_eq_error_iff, bind_eq]
  cases present layout e.reads <;> simp

/-- Binding succeeds if the layout has the columns that are read. -/
theorem exists_bind (e : Expr) (hreads : ∀ name ∈ e.reads, name ∈ layout) :
    ∃ bound, e.bind layout = .ok bound :=
  ⟨e.placed layout, bind_eq_ok_iff.mpr ⟨hreads, rfl⟩⟩

theorem bindItems_literals (layout : List String) (items : List Value) :
    bindItems layout (items.map .literal) = .ok (items.map .literal) := by
  induction items with
  | nil => rfl
  | cons item items ih => simp [bindItems, bind, ih]

end Expr

end EntityQuery
