import EntityQuery.Filter.Tree

/-!
# Filters as JSON

A filter is written as an object.  Its keys are

* logical operators, with an array of filters,
* root paths of the entity, at the top, with a filter,
* associations, with a filter whose fields belong to the target,
* scalar fields, with a literal to be equal to, or an object from operators to literals.

The members of an object are combined: by the first logical operator among its keys if that is `or`
or `distinct`, else by `and`.

## Main definitions

* `FilterReader.literal` : the value of a literal for a field of a type
* `FilterReader.read` : the filter of a JSON value; none for the empty object
-/

namespace EntityQuery.FilterReader

variable (c : Catalog) (root : String)

/-! ## Literals -/

/-- The value of a literal.  Where values are ordered, a whole number may be compared with any
number. -/
def single (op : FilterOperator) (path : String) (type : ScalarType) (json : Json) :
    Except SearchFault Value :=
  let wide := if op.ordersValues && type.isInteger then Value.ofJson? .float64 json else none
  match Value.ofJson? type json <|> wide with
  | some value => pure value
  | none => throw (.typeMismatch path (.literal json type))

/-- The value of the literal of an operator. -/
def literal (op : FilterOperator) (path : String) (type : ScalarType) (json : Json) :
    Except SearchFault Value :=
  if op.takesList then
    match json with
    | .arr items =>
      if op = .between ∧ items.length < 2 then throw (.malformed path .tooFewBounds)
      else do return .list (← items.mapM (single op path type))
    | _ => throw (.malformed path (.valuesNotArray op))
  else if json.isScalar then single op path type json
  else throw (.malformed path (.notSingle op))

/-! ## Scalar fields -/

/-- The operators of a scalar field with their literals. -/
def operations (path : String) : Json → Except SearchFault (List (FilterOperator × Json))
  | .obj [] => throw (.malformed path .emptyOperators)
  | .obj members => members.mapM fun (name, json) =>
    match FilterOperator.ofName? name with
    | some op => pure (op, json)
    | none => throw (.malformed path (.unknownOperator name))
  | .arr _ => throw (.malformed path .bareArray)
  | json => pure [(.eq, json)]

/-- The test of a field by an operator. -/
def test (f : FieldRef) (op : FilterOperator) (json : Json) : Except SearchFault FilterTree :=
  if op.isLogical then throw (.typeMismatch f.pathText (.logicalOnField op))
  else if !op.accepts f.type.family then throw (.typeMismatch f.pathText (.notApplicable op f.type))
  else do return .test op f (← literal op f.pathText f.type json)

/-- The filter of a scalar field: all its operators hold. -/
def scalar (f : FieldRef) (json : Json) : Except SearchFault FilterTree := do
  let tests ← (← operations f.pathText json).mapM fun (op, json) => test f op json
  match FilterTree.fold? .and tests with
  | some tree => pure tree
  | none => throw (.malformed f.pathText .emptyOperators)

/-! ## Combining -/

/-- The text of a path that may be missing. -/
def pathText (path : Option Path) : String := (path.map Path.text).getD ""

/-- The operator that combines the members of an object. -/
def combining (members : List (String × Json)) : FilterOperator :=
  let first := members.findSome? fun (key, _) =>
    (FilterOperator.ofName? key).filter FilterOperator.isLogical
  match first with
  | some FilterOperator.distinct => .distinct
  | some FilterOperator.or => .or
  | _ => .and

/-- The filters of the members of an object as one. -/
def combine (path : Option Path) (members : List (String × Json)) :
    List FilterTree → Except SearchFault FilterTree
  | [tree] => pure tree
  | trees =>
    match FilterTree.fold? (combining members) trees with
    | some tree => pure tree
    | none => throw (.malformed (pathText path) .emptyFilter)

/-- The groups of a logical operator as one filter. -/
def group (op : FilterOperator) (path : Option Path) (trees : List FilterTree) :
    Except SearchFault FilterTree :=
  let folded :=
    if op = .not then (FilterTree.fold? .and trees).map (.unary .not) else FilterTree.fold? op trees
  match folded with
  | some tree => pure tree
  | none => throw (.malformed (pathText path) (.noGroups op))

/-! ## Keys -/

/-- What a key of a filter stands for. -/
inductive KeyMeaning where
  | logical (op : FilterOperator)
  /-- The root entity itself. -/
  | root
  | association (path : Path)
  | scalar (f : FieldRef)

/-- A key addresses the root entity: it is one of its root paths and no attribute. -/
def isRootPath (key : String) : Bool :=
  (c.attribute? root key).isNone && ((c.entity? root).map Entity.rootPaths).any (·.contains key)

/-- What a key stands for below a path. -/
def meaning (path : Option Path) (key : String) : Except SearchFault KeyMeaning :=
  match FilterOperator.ofName? key with
  | some op =>
    if op.isLogical then pure (.logical op)
    else throw (.malformed (pathText path) (.operatorWithoutField op))
  | none =>
    if path.isNone && isRootPath c root key then pure .root
    else do
      let f ← c.field root (Path.below path key)
      match f.type? with
      | some type => return .scalar ⟨f, type⟩
      | none => return .association f.path

/-! ## Objects -/

mutual

/-- The filters of the members of an object below a path. -/
def members (path : Option Path) : List (String × Json) → Except SearchFault (List FilterTree)
  | [] => pure []
  | (key, json) :: rest => do
    let tree ← member path key json
    return tree :: (← members path rest)

/-- The filter of a member, by what its key stands for. -/
def member (path : Option Path) (key : String) : Json → Except SearchFault FilterTree
  | .obj inner => do
    match ← meaning c root path key with
    | .logical op => throw (.malformed (pathText path) (.groupsNotArray op))
    | .root => combine none inner (← members none inner)
    | .association here => combine (some here) inner (← members (some here) inner)
    | .scalar f => scalar f (.obj inner)
  | .arr items => do
    match ← meaning c root path key with
    | .logical op => group op path (← groups op path items)
    | .root => throw (.malformed key .rootNotObject)
    | .association here => throw (.malformed here.text .associationNotObject)
    | .scalar f => scalar f (.arr items)
  | json => do
    match ← meaning c root path key with
    | .logical op => throw (.malformed (pathText path) (.groupsNotArray op))
    | .root => throw (.malformed key .rootNotObject)
    | .association here => throw (.malformed here.text .associationNotObject)
    | .scalar f => scalar f json

/-- The filters of the groups of a logical operator. -/
def groups (op : FilterOperator) (path : Option Path) :
    List Json → Except SearchFault (List FilterTree)
  | [] => pure []
  | .obj inner :: rest => do
    let tree ← combine path inner (← members path inner)
    return tree :: (← groups op path rest)
  | _ :: _ => throw (.malformed (pathText path) (.groupNotObject op))

end

/-- The filter of a JSON value; none for the empty object, which demands nothing. -/
def read : Json → Except SearchFault (Option FilterTree)
  | .obj [] => pure none
  | .obj inner => do return some (← combine none inner (← members c root none inner))
  | _ => throw (.malformed "" .notAnObject)

end EntityQuery.FilterReader
