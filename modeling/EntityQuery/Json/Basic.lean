import EntityQuery.Keyed
import EntityQuery.Number.Width

/-!
# JSON values

Members of an object keep their order.  Numbers are whole numbers in the range of a signed or an
unsigned machine word, or binary64 numbers.

An object as read from a text may name a key twice; `normal` keeps one member for each key, at the
place of the first and with the value of the last.
-/

namespace EntityQuery

/-- A JSON value. -/
inductive Json where
  | null
  | bool (b : Bool)
  | int (n : Int)
  | real (x : Float)
  | str (s : String)
  | arr (items : List Json)
  | obj (members : List (String × Json))
  deriving Inhabited

namespace Json

/-! ## Objects -/

/-- The value of a key. -/
def member? (key : String) (members : List (String × Json)) : Option Json := members.lookup key

/-- The value of a key of an object; none for other values. -/
def get? (key : String) : Json → Option Json
  | .obj members => member? key members
  | _ => none

mutual

/-- One member for each key, in all objects of a value. -/
def normal : Json → Json
  | .arr items => .arr (normalItems items)
  | .obj members => .obj (Keyed.ofList Prod.fst (normalMembers members))
  | json => json

/-- One member for each key, in all items. -/
def normalItems : List Json → List Json
  | [] => []
  | item :: rest => normal item :: normalItems rest

/-- One member for each key, in all values of members. -/
def normalMembers : List (String × Json) → List (String × Json)
  | [] => []
  | (key, value) :: rest => (key, normal value) :: normalMembers rest

end

/-! ## Kinds of values -/

/-- The value is null. -/
def isNull : Json → Bool
  | .null => true
  | _ => false

/-- Null, a boolean, a number or a string. -/
def isScalar : Json → Bool
  | .arr _ | .obj _ => false
  | _ => true

/-- The range of whole numbers: from the least signed to the greatest unsigned machine word. -/
def inIntRange (n : Int) : Bool := Width.fitsInt64 n || (0 ≤ n && Width.fitsWord n.toNat)

end Json

end EntityQuery
