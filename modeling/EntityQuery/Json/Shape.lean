import EntityQuery.Json.Written
import EntityQuery.Value.ScalarType

/-!
# Structures as JSON

A structure is written as an object, or as the array of its fields in order, of which the last ones
may be left out.  Members of other names are ignored, whether they have a meaning or not; a field
must not be given twice.

## Main definitions

* `Json.Shape.fields?` : the values given for the fields of a structure
* `required`, `withDefault`, `nullable` : the ways to read such a value
-/

namespace EntityQuery.Json.Shape

/-- The value of a member that is given at most once; refused when it is given more often. -/
def single? (key : String) (members : List (String × Written)) : Option (Option Written) :=
  match members.filter (·.1 = key) with
  | [] => some none
  | [(_, value)] => some (some value)
  | _ => none

/-- The values of some members of an object. -/
def memberFields? (names : List String) (members : List (String × Written)) :
    Option (List (Option Written)) :=
  names.mapM fun name => single? name members

/-- The values given for the fields of a structure, one for each name. -/
def fields? (names : List String) : Written → Option (List (Option Written))
  | .obj members => memberFields? names members
  | .arr items =>
    if items.length ≤ names.length then
      some (items.map some ++ List.replicate (names.length - items.length) none)
    else
      none
  | _ => none

/-! ## Fields -/

/-- A field that must be given. -/
def required {α : Type} (read : Written → Option α) : Option Written → Option α
  | some value => read value
  | none => none

/-- A field with a default. -/
def withDefault {α : Type} (default : α) (read : Written → Option α) : Option Written → Option α
  | some value => read value
  | none => some default

/-- A field that may be missing or null. -/
def nullable {α : Type} (read : Written → Option α) : Option Written → Option (Option α)
  | none | some .null => some none
  | some value => (read value).map some

/-! ## Values -/

/-- Any value, all of whose parts have a meaning. -/
def any? (value : Written) : Option Json := value.value?.map normal

/-- A string. -/
def text? : Written → Option String
  | .str s => some s
  | _ => none

/-- A whole number from zero up to the greatest machine word. -/
def size? : Written → Option Nat
  | .int n => if 0 ≤ n && Width.fitsWord n.toNat then some n.toNat else none
  | _ => none

/-- A whole number of 32 bits. -/
def int32? : Written → Option Int
  | .int n => if Width.fitsInt32 n then some n else none
  | _ => none

/-- A name of a fixed choice: the name alone, or an object with the name as its only key and null as
its value. -/
def choice? : Written → Option String
  | .str name => some name
  | .obj [(name, .null)] => some name
  | _ => none

/-- A name of a fixed choice: the name alone, or its place among the names, from zero. -/
def tag? (names : List String) : Written → Option String
  | .str name => if names.contains name then some name else none
  | .int n => if 0 ≤ n then names[n.toNat]? else none
  | _ => none

/-- A scalar type by its name. -/
def type? (value : Written) : Option ScalarType := (choice? value).bind ScalarType.ofName?

/-- An array of values of one kind. -/
def list? {α : Type} (read : Written → Option α) : Written → Option (List α)
  | .arr items => items.mapM read
  | _ => none

/-- An object from keys to values of one kind; of a repeated key the last value counts. -/
def map? {α : Type} (read : Written → Option α) : Written → Option (List (String × α))
  | .obj members => do
    let entries ← members.mapM fun (key, value) => (read value).map fun value => (key, value)
    return Keyed.ofList Prod.fst entries
  | _ => none

end EntityQuery.Json.Shape
