import EntityQuery.Filter.Parameter
import EntityQuery.Proofs.Catalog.Complete
import EntityQuery.Proofs.Filter.Meaning

/-!
# Reading filters over an accepted catalog

The reader asks the catalog for one thing only, the field that a path leads to.  So if paths never
fail because of the catalog neither does the reading of a filter, however the filter is written, nor
that of parameters.

## Main statements

* `FilterReader.clears_read` : reading a filter
* `Parameter.clears_readAll` : reading parameters
-/

namespace EntityQuery

variable {c : Catalog} {root : String}

namespace FilterReader

/-! ## Tests of fields -/

theorem clears_single (op : FilterOperator) (path : String) (type : ScalarType) (json : Json) :
    Clears (single op path type json) := by
  unfold single
  dsimp only
  split
  · exact .of_ok rfl
  · exact .of_error (by simp)

theorem clears_literal (op : FilterOperator) (path : String) (type : ScalarType) (json : Json) :
    Clears (literal op path type json) := by
  unfold literal
  split
  · split
    · split
      · exact .of_error (by simp)
      · refine (Clears.mapM fun item _ => clears_single op path type item).bind fun items _ => ?_
        exact .of_ok rfl
    · exact .of_error (by simp)
  · split
    · exact clears_single op path type json
    · exact .of_error (by simp)

theorem clears_operations (path : String) (json : Json) : Clears (operations path json) := by
  unfold operations
  split
  · exact .of_error (by simp)
  · refine Clears.mapM fun m _ => ?_
    dsimp only
    split
    · exact .of_ok rfl
    · exact .of_error (by simp)
  · exact .of_error (by simp)
  · exact .of_ok rfl

theorem clears_test (f : FieldRef) (op : FilterOperator) (json : Json) :
    Clears (test f op json) := by
  unfold test
  split
  · exact .of_error (by simp)
  · split
    · exact .of_error (by simp)
    · refine (clears_literal op f.pathText f.type json).bind fun value _ => ?_
      exact .of_ok rfl

theorem clears_scalar (f : FieldRef) (json : Json) : Clears (scalar f json) := by
  refine (clears_operations f.pathText json).bind fun operations _ => ?_
  refine (Clears.mapM fun m _ => clears_test f m.1 m.2).bind fun tests _ => ?_
  split
  · exact .of_ok rfl
  · exact .of_error (by simp)

/-! ## Objects and groups -/

theorem clears_combine (path : Option Path) (members : List (String × Json))
    (trees : List FilterTree) : Clears (combine path members trees) := by
  unfold combine
  split
  · exact .of_ok rfl
  · split
    · exact .of_ok rfl
    · exact .of_error (by simp)

theorem clears_group (op : FilterOperator) (path : Option Path) (trees : List FilterTree) :
    Clears (group op path trees) := by
  unfold group
  dsimp only
  split
  · exact .of_ok rfl
  · exact .of_error (by simp)

theorem clears_meaning (hfield : ∀ path, Clears (c.field root path)) (path : Option Path)
    (key : String) : Clears (meaning c root path key) := by
  unfold meaning
  split
  · split
    · exact .of_ok rfl
    · exact .of_error (by simp)
  · split
    · exact .of_ok rfl
    · refine (hfield _).bind fun f _ => ?_
      split <;> exact .of_ok rfl

theorem clears_member_of_isScalar (hfield : ∀ path, Clears (c.field root path))
    (path : Option Path) (key : String) {json : Json} (hscalar : json.isScalar = true) :
    Clears (member c root path key json) := by
  rw [member_of_isScalar hscalar]
  refine (clears_meaning hfield path key).bind fun m _ => ?_
  cases m with
  | scalar f => exact clears_scalar f json
  | logical op => exact .of_error (by simp)
  | root => exact .of_error (by simp)
  | association here => exact .of_error (by simp)

mutual

theorem clears_members (hfield : ∀ path, Clears (c.field root path)) (path : Option Path) :
    ∀ inner : List (String × Json), Clears (members c root path inner)
  | [] => .of_ok rfl
  | (key, json) :: rest => by
      rw [members]
      refine (clears_member hfield path key json).bind fun tree _ => ?_
      refine (clears_members hfield path rest).bind fun trees _ => ?_
      exact .of_ok rfl

theorem clears_member (hfield : ∀ path, Clears (c.field root path)) (path : Option Path)
    (key : String) :
    ∀ json : Json, Clears (member c root path key json)
  | .obj inner => by
      rw [member]
      refine (clears_meaning hfield path key).bind fun m _ => ?_
      cases m with
      | logical op => exact .of_error (by simp)
      | root => exact (clears_members hfield none inner).bind fun trees _ =>
          clears_combine none inner trees
      | association here =>
          exact (clears_members hfield (some here) inner).bind fun trees _ =>
            clears_combine (some here) inner trees
      | scalar f => exact clears_scalar f (.obj inner)
  | .arr items => by
      rw [member]
      refine (clears_meaning hfield path key).bind fun m _ => ?_
      cases m with
      | logical op =>
          exact (clears_groups hfield op path items).bind fun trees _ => clears_group op path trees
      | root => exact .of_error (by simp)
      | association here => exact .of_error (by simp)
      | scalar f => exact clears_scalar f (.arr items)
  | .null => clears_member_of_isScalar hfield path key rfl
  | .bool _ => clears_member_of_isScalar hfield path key rfl
  | .int _ => clears_member_of_isScalar hfield path key rfl
  | .real _ => clears_member_of_isScalar hfield path key rfl
  | .str _ => clears_member_of_isScalar hfield path key rfl

theorem clears_groups (hfield : ∀ path, Clears (c.field root path)) (op : FilterOperator)
    (path : Option Path) :
    ∀ items : List Json, Clears (groups c root op path items)
  | [] => .of_ok rfl
  | .obj inner :: rest => by
      rw [groups]
      refine (clears_members hfield path inner).bind fun trees _ => ?_
      refine (clears_combine path inner trees).bind fun tree _ => ?_
      refine (clears_groups hfield op path rest).bind fun trees _ => ?_
      exact .of_ok rfl
  | .null :: _ | .bool _ :: _ | .int _ :: _ | .real _ :: _ | .str _ :: _ | .arr _ :: _ =>
      .of_error (by simp)

end

/-- Reading a filter does not fail because of the catalog if no path does. -/
theorem clears_read (hfield : ∀ path, Clears (c.field root path)) (json : Json) :
    Clears (read c root json) := by
  unfold read
  split
  · exact .of_ok rfl
  · next inner hinner =>
    refine (clears_members hfield none inner).bind fun trees _ => ?_
    refine (clears_combine none inner trees).bind fun tree _ => ?_
    exact .of_ok rfl
  · exact .of_error (by simp)

end FilterReader

/-! ## Parameters -/

namespace Parameter

theorem clears_leaf (p : Parameter) (type : ScalarType) : Clears (p.leaf type) := by
  have hsingle : Clears p.single := by
    unfold single
    split
    · exact .of_ok rfl
    · exact .of_error (by simp)
  unfold leaf
  split
  case h_1 | h_2 =>
    refine hsingle.bind fun value _ => ?_
    exact .of_ok rfl
  all_goals exact .of_ok rfl

theorem clears_toFilter (hfield : ∀ path, Clears (c.field root path)) (p : Parameter) :
    Clears (p.toFilter c root) := by
  unfold toFilter
  split
  · exact .of_error (by simp)
  · refine (hfield _).bind fun f _ => ?_
    split
    · exact .of_error (by simp)
    · refine (clears_leaf p _).bind fun leaf _ => ?_
      exact .of_ok rfl

theorem clears_readAll (hfield : ∀ path, Clears (c.field root path)) (parameters : List Parameter) :
    Clears (readAll c root parameters) := by
  unfold readAll
  split
  · exact .of_ok rfl
  · refine (Clears.mapM fun p _ => clears_toFilter hfield p).bind fun filters _ => ?_
    exact FilterReader.clears_read hfield _

end Parameter

end EntityQuery
