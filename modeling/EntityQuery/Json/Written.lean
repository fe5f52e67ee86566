import EntityQuery.Json.Basic

/-!
# JSON as written

What a JSON text says, part by part.  A part may be well written and still have no meaning: a number
beyond the greatest finite one, a string with half of a surrogate pair, an array or an object that
is nested too deep.  A value has a meaning if all its parts have one; who looks only at some members
of an object need not care about the others.

## Main definitions

* `Json.Written` : the tree of a text
* `Json.Written.value?` : its meaning
* `Json.Written.ofJson` : a value as it would be written
-/

namespace EntityQuery.Json

/-- A JSON value as written; its parts may lack a meaning. -/
inductive Written where
  | null
  | bool (b : Bool)
  | int (n : Int)
  | real (x : Float)
  | str (s : String)
  | arr (items : List Written)
  | obj (members : List (String × Written))
  /-- A value that is well written and has no meaning. -/
  | meaningless
  deriving Inhabited

namespace Written

/-- An object by its members; without a meaning if one of its keys has none. -/
def object (members : List (Option String × Written)) : Written :=
  match members.mapM fun (key, value) => key.map fun key => (key, value) with
  | some members => .obj members
  | none => .meaningless

/-- A value that may be nested `depth` deep from here on, which an array or an object at the end of
it may not. -/
def within (depth : Nat) (container : Written) : Written :=
  if depth = 0 then .meaningless else container

/-! ## Meaning -/

mutual

/-- The meaning of a value, all parts of which have one. -/
def value? : Written → Option Json
  | .null => some .null
  | .bool b => some (.bool b)
  | .int n => some (.int n)
  | .real x => some (.real x)
  | .str s => some (.str s)
  | .arr items => (itemValues? items).map .arr
  | .obj members => (memberValues? members).map .obj
  | .meaningless => none

/-- The meanings of all items. -/
def itemValues? : List Written → Option (List Json)
  | [] => some []
  | item :: rest => do return (← item.value?) :: (← itemValues? rest)

/-- The meanings of all members. -/
def memberValues? : List (String × Written) → Option (List (String × Json))
  | [] => some []
  | (key, value) :: rest => do return (key, ← value.value?) :: (← memberValues? rest)

end

mutual

/-- A value as it would be written. -/
def ofJson : Json → Written
  | .null => .null
  | .bool b => .bool b
  | .int n => .int n
  | .real x => .real x
  | .str s => .str s
  | .arr items => .arr (ofItems items)
  | .obj members => .obj (ofMembers members)

/-- Items as they would be written. -/
def ofItems : List Json → List Written
  | [] => []
  | item :: rest => ofJson item :: ofItems rest

/-- Members as they would be written. -/
def ofMembers : List (String × Json) → List (String × Written)
  | [] => []
  | (key, value) :: rest => (key, ofJson value) :: ofMembers rest

end

mutual

theorem value?_ofJson (json : Json) : (ofJson json).value? = some json := by
  match json with
  | .null | .bool _ | .int _ | .real _ | .str _ => simp [ofJson, value?]
  | .arr items => simp [ofJson, value?, itemValues?_ofItems items]
  | .obj members => simp [ofJson, value?, memberValues?_ofMembers members]

theorem itemValues?_ofItems (items : List Json) : itemValues? (ofItems items) = some items := by
  match items with
  | [] => simp [ofItems, itemValues?]
  | item :: rest => simp [ofItems, itemValues?, value?_ofJson item, itemValues?_ofItems rest]

theorem memberValues?_ofMembers (members : List (String × Json)) :
    memberValues? (ofMembers members) = some members := by
  match members with
  | [] => simp [ofMembers, memberValues?]
  | (key, value) :: rest =>
    simp [ofMembers, memberValues?, value?_ofJson value, memberValues?_ofMembers rest]

end

end Written

end EntityQuery.Json
