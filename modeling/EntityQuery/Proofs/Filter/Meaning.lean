import EntityQuery.Filter.Predicate
import EntityQuery.Filter.Reader
import EntityQuery.Proofs.Expr.Truth

/-!
# The meaning of a filter

A filter as JSON is true or false of a row; there is no third value.  This module says which, by
recursion on the JSON value alone: keys are looked up and literals are read as for a filter tree,
but no tree is built.  A filter tree has a meaning as well, and the tree that is read from a JSON
value means the same.

The proof is by recursion on the JSON value.  The members of an object, a single member and the
groups of a logical operator are read by functions that call each other, so the three statements are
proved together.

## Main definitions

* `FilterOperator.holds` : the test of a value against a literal
* `FilterTree.truth` : the meaning of a tree
* `FilterMeaning.holds` : the meaning of a JSON value

## Main statements

* `truth_of_read` : a tree means what the JSON value means from which it was read
-/

namespace EntityQuery

/-- The values of a row by the qualified names of columns. -/
abbrev Cells := String → Value

/-! ## Tests -/

namespace FilterOperator

/-- The test of the value of a field against a literal.  Null is equal to the literal null; in every
other test it fails, since null has no order. -/
def holds (op : FilterOperator) (value literal : Value) : Bool :=
  match op with
  | .equals | .eq => if literal.isNull then value.isNull else value.compare? literal = some .eq
  | .equalsIc => Value.bothTexts (fun s part => Text.lower s = Text.lower part) value literal
  | .contains => Value.bothTexts Text.contains value literal
  | .containsIc =>
    Value.bothTexts (fun s part => Text.contains (Text.lower s) (Text.lower part)) value literal
  | .starts => Value.bothTexts Text.startsWith value literal
  | .startsIc =>
    Value.bothTexts (fun s part => Text.startsWith (Text.lower s) (Text.lower part)) value literal
  | .ends => Value.bothTexts Text.endsWith value literal
  | .endsIc =>
    Value.bothTexts (fun s part => Text.endsWith (Text.lower s) (Text.lower part)) value literal
  | .gt => value.compare? literal = some .gt
  | .gte => (value.compare? literal).any (· ≠ .lt)
  | .lt => value.compare? literal = some .lt
  | .lte => (value.compare? literal).any (· ≠ .gt)
  | .isIn =>
    match literal with
    | .list items => items.any fun item => value.compare? item = some .eq
    | _ => false
  | .between =>
    match literal with
    | .list (low :: high :: _) =>
      (value.compare? low).any (· ≠ .lt) && (value.compare? high).any (· ≠ .gt)
    | _ => false
  | .and | .or | .not | .distinct => false

end FilterOperator

/-! ## Trees -/

namespace FilterTree

/-- The meaning of a tree for the values of a row. -/
def truth (cells : Cells) : FilterTree → Bool
  | .test op f value => op.holds (cells f.field.columnPath) value
  | .unary .not operand => !operand.truth cells
  | .compound .or left right => left.truth cells || right.truth cells
  | .compound .and left right | .compound .distinct left right =>
    left.truth cells && right.truth cells
  | _ => false

end FilterTree

/-! ## JSON values -/

namespace FilterMeaning

open FilterReader

variable (c : Catalog) (root : String) (cells : Cells)

/-- The test of a field by an operator, whose literal is given as JSON. -/
def operator (f : FieldRef) (op : FilterOperator) (json : Json) : Bool :=
  match literal op f.pathText f.type json with
  | .ok value => op.holds (cells f.field.columnPath) value
  | .error _ => false

/-- All operators of a scalar field hold; a literal alone is one to be equal to. -/
def scalar (f : FieldRef) : Json → Bool
  | .obj members => members.all fun (name, json) =>
    match FilterOperator.ofName? name with
    | some op => operator cells f op json
    | none => false
  | .arr _ => false
  | json => operator cells f .eq json

/-- The first logical operator among the keys of an object. -/
def firstLogical? (members : List (String × Json)) : Option FilterOperator :=
  members.findSome? fun (key, _) => (FilterOperator.ofName? key).filter FilterOperator.isLogical

/-- The members of an object combined: one of them holds if the first logical operator is `or`, else
all of them. -/
def combined (members : List (String × Json)) (truths : List Bool) : Bool :=
  if firstLogical? members = some .or then truths.any id else truths.all id

/-- The groups of a logical operator combined. -/
def grouped (op : FilterOperator) (truths : List Bool) : Bool :=
  match op with
  | .or => truths.any id
  | .not => !truths.all id
  | _ => truths.all id

mutual

/-- The meanings of the members of an object below a path. -/
def members (path : Option Path) : List (String × Json) → List Bool
  | [] => []
  | (key, json) :: rest => member path key json :: members path rest

/-- The meaning of a member, by what its key stands for. -/
def member (path : Option Path) (key : String) : Json → Bool
  | .obj inner =>
    match meaning c root path key with
    | .ok .root => combined inner (members none inner)
    | .ok (.association here) => combined inner (members (some here) inner)
    | .ok (.scalar f) => scalar cells f (.obj inner)
    | _ => false
  | .arr items =>
    match meaning c root path key with
    | .ok (.logical op) => grouped op (groups path items)
    | .ok (.scalar f) => scalar cells f (.arr items)
    | _ => false
  | json =>
    match meaning c root path key with
    | .ok (.scalar f) => scalar cells f json
    | _ => false

/-- The meanings of the groups of a logical operator. -/
def groups (path : Option Path) : List Json → List Bool
  | [] => []
  | .obj inner :: rest => combined inner (members path inner) :: groups path rest
  | _ :: rest => false :: groups path rest

end

/-- The meaning of a filter. -/
def holds : Json → Bool
  | .obj inner => combined inner (members c root cells none inner)
  | _ => false

end FilterMeaning

namespace FilterReader

variable {c : Catalog} {root : String}

/-! ## What has been read -/

/-- The filter of a scalar field is made of the tests of all its operators. -/
theorem scalar_eq_ok {f : FieldRef} {json : Json} {tree : FilterTree}
    (hread : scalar f json = .ok tree) :
    ∃ pairs tests, operations f.pathText json = .ok pairs ∧
      pairs.mapM (fun (op, json) => test f op json) = .ok tests ∧
      FilterTree.fold? .and tests = some tree := by
  obtain ⟨pairs, hpairs, hread⟩ := Outcome.bind_eq_ok_iff.mp hread
  obtain ⟨tests, htests, hread⟩ := Outcome.bind_eq_ok_iff.mp hread
  split at hread
  · next folded hfold =>
    obtain rfl := Except.ok.inj hread
    exact ⟨pairs, tests, hpairs, htests, hfold⟩
  · simp at hread

theorem member_of_isScalar {path : Option Path} {key : String} {json : Json}
    (hscalar : json.isScalar = true) :
    member c root path key json = (do
      match ← meaning c root path key with
      | .logical op => throw (.malformed (pathText path) (.groupsNotArray op))
      | .root => throw (.malformed key .rootNotObject)
      | .association here => throw (.malformed here.text .associationNotObject)
      | .scalar f => scalar f json) := by
  rw [member.eq_def]
  cases json with
  | obj | arr => simp [Json.isScalar] at hscalar
  | null | bool | int | real | str => rfl

/-- A value that is no object and no array is the literal of a scalar field. -/
theorem member_eq_ok_of_isScalar {path : Option Path} {key : String} {json : Json}
    (hscalar : json.isScalar = true) {tree : FilterTree}
    (hread : member c root path key json = .ok tree) :
    ∃ f, meaning c root path key = .ok (.scalar f) ∧ scalar f json = .ok tree := by
  rw [member_of_isScalar hscalar] at hread
  obtain ⟨m, hmeaning, hread⟩ := Outcome.bind_eq_ok_iff.mp hread
  cases m with
  | scalar f => exact ⟨f, hmeaning, hread⟩
  | logical | root | association => simp at hread

theorem members_cons_eq_ok {path : Option Path} {key : String} {json : Json}
    {rest : List (String × Json)} {trees : List FilterTree}
    (hread : members c root path ((key, json) :: rest) = .ok trees) :
    ∃ tree more, member c root path key json = .ok tree ∧
      members c root path rest = .ok more ∧ trees = tree :: more := by
  rw [members] at hread
  obtain ⟨tree, htree, hread⟩ := Outcome.bind_eq_ok_iff.mp hread
  obtain ⟨more, hmore, hread⟩ := Outcome.bind_eq_ok_iff.mp hread
  exact ⟨tree, more, htree, hmore, (Except.ok.inj hread).symm⟩

theorem groups_cons_eq_ok {op : FilterOperator} {path : Option Path}
    {inner : List (String × Json)} {rest : List Json} {trees : List FilterTree}
    (hread : groups c root op path (.obj inner :: rest) = .ok trees) :
    ∃ inners tree more, members c root path inner = .ok inners ∧
      combine path inner inners = .ok tree ∧ groups c root op path rest = .ok more ∧
      trees = tree :: more := by
  rw [groups] at hread
  obtain ⟨inners, hinners, hread⟩ := Outcome.bind_eq_ok_iff.mp hread
  obtain ⟨tree, htree, hread⟩ := Outcome.bind_eq_ok_iff.mp hread
  obtain ⟨more, hmore, hread⟩ := Outcome.bind_eq_ok_iff.mp hread
  exact ⟨inners, tree, more, hinners, htree, hmore, (Except.ok.inj hread).symm⟩

/-- A filter is an object, and its members are combined. -/
theorem read_eq_ok {json : Json} {tree : FilterTree} (hread : read c root json = .ok (some tree)) :
    ∃ inner trees, json = .obj inner ∧ members c root none inner = .ok trees ∧
      combine none inner trees = .ok tree := by
  unfold read at hread
  split at hread
  · simp at hread
  · obtain ⟨trees, htrees, hread⟩ := Outcome.bind_eq_ok_iff.mp hread
    obtain ⟨folded, hfolded, hread⟩ := Outcome.bind_eq_ok_iff.mp hread
    obtain rfl := Option.some.inj (Except.ok.inj hread)
    exact ⟨_, trees, rfl, htrees, hfolded⟩
  · simp at hread

/-! ## Reading keeps the meaning -/

theorem truth_foldl_or (cells : Cells) (trees : List FilterTree) (tree : FilterTree) :
    (trees.foldl (.compound .or) tree).truth cells =
      (tree.truth cells || (trees.map (FilterTree.truth cells)).any id) := by
  induction trees generalizing tree with
  | nil => simp
  | cons next trees ih => simp [ih, FilterTree.truth, Bool.or_assoc]

theorem truth_foldl_and {op : FilterOperator} (hop : op = .and ∨ op = .distinct) (cells : Cells)
    (trees : List FilterTree) (tree : FilterTree) :
    (trees.foldl (.compound op) tree).truth cells =
      (tree.truth cells && (trees.map (FilterTree.truth cells)).all id) := by
  induction trees generalizing tree with
  | nil => simp
  | cons next trees ih => rcases hop with rfl | rfl <;> simp [ih, FilterTree.truth, Bool.and_assoc]

/-- Several filters under one operator: one of them holds under `or`, all of them under `and` and
`distinct`. -/
theorem truth_of_fold? {op : FilterOperator} (hop : op = .and ∨ op = .or ∨ op = .distinct)
    (cells : Cells) {trees : List FilterTree} {tree : FilterTree}
    (hfold : FilterTree.fold? op trees = some tree) :
    tree.truth cells =
      if op = .or then (trees.map (FilterTree.truth cells)).any id
      else (trees.map (FilterTree.truth cells)).all id := by
  match trees, hfold with
  | [single], hfold =>
      rcases hop with rfl | rfl | rfl <;> simp [FilterTree.fold?] at hfold <;> subst hfold <;>
        simp [FilterTree.truth]
  | first :: second :: rest, hfold =>
      obtain rfl := Option.some.inj hfold
      rcases hop with rfl | rfl | rfl
      · simp [truth_foldl_and, FilterTree.truth, Bool.and_assoc]
      · simp [truth_foldl_or, FilterTree.truth, Bool.or_assoc]
      · simp [truth_foldl_and, FilterTree.truth, Bool.and_assoc]

theorem combining_eq_or_iff (inner : List (String × Json)) :
    combining inner = .or ↔ FilterMeaning.firstLogical? inner = some .or := by
  unfold combining FilterMeaning.firstLogical?
  dsimp only
  split <;> simp_all

theorem combining_cases (inner : List (String × Json)) :
    combining inner = .and ∨ combining inner = .or ∨ combining inner = .distinct := by
  unfold combining
  dsimp only
  split <;> simp

theorem truth_of_combine {path : Option Path} {inner : List (String × Json)}
    {trees : List FilterTree} {tree : FilterTree} (cells : Cells)
    (hcombine : combine path inner trees = .ok tree) :
    tree.truth cells = FilterMeaning.combined inner (trees.map (FilterTree.truth cells)) := by
  unfold combine at hcombine
  unfold FilterMeaning.combined
  split at hcombine
  · obtain rfl := Except.ok.inj hcombine
    simp
  · split at hcombine
    · next hfold =>
      obtain rfl := Except.ok.inj hcombine
      rw [truth_of_fold? (combining_cases inner) cells hfold]
      simp only [combining_eq_or_iff]
    · simp at hcombine

theorem isLogical_of_meaning {path : Option Path} {key : String} {op : FilterOperator}
    (hmeaning : meaning c root path key = .ok (.logical op)) : op.isLogical = true := by
  unfold meaning at hmeaning
  split at hmeaning
  · split at hmeaning <;> simp_all
  · split at hmeaning
    · simp at hmeaning
    · obtain ⟨f, -, hf⟩ := Outcome.bind_eq_ok_iff.mp hmeaning
      split at hf <;> simp at hf

theorem truth_of_group {op : FilterOperator} (hop : op.isLogical = true) {path : Option Path}
    {trees : List FilterTree} {tree : FilterTree} (cells : Cells)
    (hgroup : group op path trees = .ok tree) :
    tree.truth cells = FilterMeaning.grouped op (trees.map (FilterTree.truth cells)) := by
  unfold group at hgroup
  dsimp only at hgroup
  split at hgroup
  · next folded hfold =>
    obtain rfl := Except.ok.inj hgroup
    cases op <;> simp [FilterOperator.isLogical, FilterOperator.group] at hop <;> simp at hfold
    case and => exact truth_of_fold? (.inl rfl) cells hfold
    case or => exact truth_of_fold? (.inr (.inl rfl)) cells hfold
    case distinct => exact truth_of_fold? (.inr (.inr rfl)) cells hfold
    case not =>
      obtain ⟨inner, hinner, rfl⟩ := hfold
      have := truth_of_fold? (.inl rfl) cells hinner
      simp_all [FilterTree.truth, FilterMeaning.grouped]
  · simp at hgroup

/-! ## Scalar fields -/

theorem truth_of_test {f : FieldRef} {op : FilterOperator} {json : Json} {tree : FilterTree}
    (cells : Cells) (htest : test f op json = .ok tree) :
    tree.truth cells = FilterMeaning.operator cells f op json := by
  unfold test at htest
  split at htest
  · simp at htest
  · split at htest
    · simp at htest
    · obtain ⟨value, hvalue, htree⟩ := Outcome.bind_eq_ok_iff.mp htest
      obtain rfl := Except.ok.inj htree
      simp [FilterTree.truth, FilterMeaning.operator, hvalue]

theorem truths_of_tests {f : FieldRef} {pairs : List (FilterOperator × Json)}
    {trees : List FilterTree} (cells : Cells)
    (htests : pairs.mapM (fun (op, json) => test f op json) = .ok trees) :
    trees.map (FilterTree.truth cells) =
      pairs.map fun (op, json) => FilterMeaning.operator cells f op json := by
  rw [Outcome.mapM_eq_ok_iff] at htests
  induction htests with
  | nil => rfl
  | cons htest _ ih => rw [List.map_cons, List.map_cons, ih, truth_of_test cells htest]

/-- The operators of a field as they are read mean what the JSON value means. -/
theorem all_operations {f : FieldRef} {path : String} {json : Json}
    {pairs : List (FilterOperator × Json)} (cells : Cells)
    (hpairs : operations path json = .ok pairs) :
    (pairs.map fun (op, json) => FilterMeaning.operator cells f op json).all id =
      FilterMeaning.scalar cells f json := by
  cases json with
  | obj inner =>
      cases inner with
      | nil => simp [operations] at hpairs
      | cons m inner =>
          simp only [operations] at hpairs
          rw [FilterMeaning.scalar]
          rw [Outcome.mapM_eq_ok_iff] at hpairs
          generalize m :: inner = members at hpairs
          induction hpairs with
          | nil => rfl
          | cons hpair _ ih =>
              rw [List.map_cons, List.all_cons, ih, List.all_cons]
              split at hpair
              · next op hop =>
                obtain rfl := Except.ok.inj hpair
                simp [hop]
              · simp at hpair
  | arr items => simp [operations] at hpairs
  | _ =>
      obtain rfl := Except.ok.inj hpairs
      simp [FilterMeaning.scalar]

theorem truth_of_scalar {f : FieldRef} {json : Json} {tree : FilterTree} (cells : Cells)
    (hscalar : scalar f json = .ok tree) :
    tree.truth cells = FilterMeaning.scalar cells f json := by
  obtain ⟨pairs, tests, hpairs, htests, hfold⟩ := scalar_eq_ok hscalar
  rw [truth_of_fold? (.inl rfl) cells hfold, if_neg (by decide), truths_of_tests cells htests,
    all_operations cells hpairs]

/-! ## Objects -/

theorem truth_of_literal (cells : Cells) (path : Option Path) (key : String) {json : Json}
    (hjson : json.isScalar = true) {tree : FilterTree}
    (hread : member c root path key json = .ok tree) :
    tree.truth cells = FilterMeaning.member c root cells path key json := by
  obtain ⟨f, hmeaning, hread⟩ := member_eq_ok_of_isScalar hjson hread
  cases json <;> simp only [Json.isScalar, Bool.false_eq_true] at hjson
  all_goals
    rw [FilterMeaning.member, hmeaning]
    · exact truth_of_scalar cells hread
    all_goals simp

mutual

theorem truths_of_members (cells : Cells) (path : Option Path) :
    ∀ (inner : List (String × Json)) {trees : List FilterTree},
      members c root path inner = .ok trees →
      trees.map (FilterTree.truth cells) = FilterMeaning.members c root cells path inner
  | [], trees, hread => by
      obtain rfl := Except.ok.inj hread
      rfl
  | (key, json) :: rest, trees, hread => by
      obtain ⟨tree, more, htree, hmore, rfl⟩ := members_cons_eq_ok hread
      rw [List.map_cons, FilterMeaning.members, truth_of_member cells path key json htree,
        truths_of_members cells path rest hmore]

theorem truth_of_member (cells : Cells) (path : Option Path) (key : String) :
    ∀ (json : Json) {tree : FilterTree}, member c root path key json = .ok tree →
      tree.truth cells = FilterMeaning.member c root cells path key json
  | .obj inner, tree, hread => by
      rw [member] at hread
      obtain ⟨m, hmeaning, hread⟩ := Outcome.bind_eq_ok_iff.mp hread
      rw [FilterMeaning.member, hmeaning]
      -- what the key means decides how the value is read, in both readings alike
      cases m with
      | logical op => simp at hread
      | root =>
          obtain ⟨trees, htrees, hread⟩ := Outcome.bind_eq_ok_iff.mp hread
          rw [truth_of_combine cells hread, truths_of_members cells none inner htrees]
      | association here =>
          obtain ⟨trees, htrees, hread⟩ := Outcome.bind_eq_ok_iff.mp hread
          rw [truth_of_combine cells hread, truths_of_members cells (some here) inner htrees]
      | scalar f => exact truth_of_scalar cells hread
  | .arr items, tree, hread => by
      rw [member] at hread
      obtain ⟨m, hmeaning, hread⟩ := Outcome.bind_eq_ok_iff.mp hread
      rw [FilterMeaning.member, hmeaning]
      cases m with
      | logical op =>
          obtain ⟨trees, htrees, hread⟩ := Outcome.bind_eq_ok_iff.mp hread
          rw [truth_of_group (isLogical_of_meaning hmeaning) cells hread,
            truths_of_groups cells op path items htrees]
      | root => simp at hread
      | association here => simp at hread
      | scalar f => exact truth_of_scalar cells hread
  | .null, tree, hread => truth_of_literal cells path key rfl hread
  | .bool _, tree, hread => truth_of_literal cells path key rfl hread
  | .int _, tree, hread => truth_of_literal cells path key rfl hread
  | .real _, tree, hread => truth_of_literal cells path key rfl hread
  | .str _, tree, hread => truth_of_literal cells path key rfl hread

theorem truths_of_groups (cells : Cells) (op : FilterOperator) (path : Option Path) :
    ∀ (items : List Json) {trees : List FilterTree}, groups c root op path items = .ok trees →
      trees.map (FilterTree.truth cells) = FilterMeaning.groups c root cells path items
  | [], trees, hread => by
      obtain rfl := Except.ok.inj hread
      rfl
  | .obj inner :: rest, trees, hread => by
      obtain ⟨inners, tree, more, hinners, htree, hmore, rfl⟩ := groups_cons_eq_ok hread
      rw [List.map_cons, FilterMeaning.groups, truth_of_combine cells htree,
        truths_of_members cells path inner hinners, truths_of_groups cells op path rest hmore]

end

/-- A tree means what the JSON value means from which it was read. -/
theorem truth_of_read {json : Json} {tree : FilterTree} (cells : Cells)
    (hread : read c root json = .ok (some tree)) :
    tree.truth cells = FilterMeaning.holds c root cells json := by
  obtain ⟨inner, trees, rfl, htrees, hcombine⟩ := read_eq_ok hread
  rw [truth_of_combine cells hcombine, truths_of_members cells none inner htrees,
    FilterMeaning.holds]

end FilterReader

end EntityQuery
