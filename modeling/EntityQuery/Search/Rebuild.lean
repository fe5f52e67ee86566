import EntityQuery.Text.Basic
import EntityQuery.Value.Record

/-!
# Entities from records

A record of an entity search has a value under every dotted label.  It is turned into a JSON object
in one of two ways: by nesting the labels below a root path, or by a table that says which label
goes where.

Nesting makes an object for every name on the way to a value; an object in which all is null stands
for an association that is not there, and becomes null itself.

## Main definitions

* `Rebuild.nested` : the entity of a record by nesting
* `Rebuilder.build` : the entity of a record
-/

namespace EntityQuery

namespace Rebuild

/-! ## Nesting -/

/-- A label below the root path, any other label as it is. -/
def relative (rootPath label : String) : String :=
  ((Text.dropStart? rootPath label).bind (Text.dropStart? ".")).getD label

/-- The members of an object; other values have none. -/
def membersOf : Json → List (String × Json)
  | .obj members => members
  | _ => []

/-- A value put below some names and a last one, objects being made on the way; what stands in the
way gives place. -/
def nest (members : List (String × Json)) : List String → Json → List (String × Json)
  | [], _ => members
  | [name], value => Keyed.put Prod.fst (name, value) members
  | name :: rest, value =>
    let inner := ((Json.member? name members).map membersOf).getD []
    Keyed.put Prod.fst (name, .obj (nest inner rest value)) members

mutual

/-- A value below the top: an object in which all is null becomes null. -/
def prune : Json → Json
  | .obj members =>
    let pruned := pruneMembers members
    if pruned.all (·.2.isNull) then .null else .obj pruned
  | json => json

/-- Members whose values are pruned. -/
def pruneMembers : List (String × Json) → List (String × Json)
  | [] => []
  | (key, value) :: rest => (key, prune value) :: pruneMembers rest

end

/-- The entity of a record by nesting its labels below a root path. -/
def nested (rootPath : String) (r : Record) : Json :=
  let members := r.entries.foldl
    (fun members (label, value) =>
      nest members (Text.pieces '.' (relative rootPath label)) value.toJson) []
  .obj (pruneMembers members)

/-! ## Empty entities -/

mutual

/-- There is nothing in an entity: it is null, or an object of such values. -/
def isEmpty : Json → Bool
  | .null => true
  | .obj members => areEmpty members
  | _ => false

/-- There is nothing in the values of members. -/
def areEmpty : List (String × Json) → Bool
  | [] => true
  | (_, value) :: rest => isEmpty value && areEmpty rest

end

end Rebuild

/-- A way to make entities of records. -/
inductive Rebuilder where
  /-- Labels nested below a root path. -/
  | nested (rootPath : String)
  /-- Members for some labels, the first that is given for each, and associations under further
  members. -/
  | table (slots : List (String × String)) (associations : List (String × Rebuilder))

namespace Rebuilder

/-- The members that a table makes of a record. -/
def assign (slots : List (String × String)) (r : Record) : List (String × Json) :=
  r.entries.foldl (fun members (label, value) =>
    match slots.lookup label with
    | some key => Keyed.put Prod.fst (key, value.toJson) members
    | none => members) []

mutual

/-- The entity of a record. -/
def build (r : Record) : Rebuilder → Json
  | .nested rootPath => Rebuild.nested rootPath r
  | .table slots associations => .obj (attach r (assign slots r) associations)

/-- Members with those associations that are not empty. -/
def attach (r : Record) (members : List (String × Json)) :
    List (String × Rebuilder) → List (String × Json)
  | [] => members
  | (key, inner) :: rest =>
    let entity := build r inner
    attach r (if Rebuild.isEmpty entity then members
      else Keyed.put Prod.fst (key, entity) members) rest

end

end Rebuilder

end EntityQuery
