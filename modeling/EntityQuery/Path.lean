import EntityQuery.Text.Basic

/-!
# Paths of names

A path names something by going from name to name: all but the last are associations to follow, the
last is the field that is meant.  It is written with points between the names.

## Main definitions

* `Path.read?` : the path of a text
* `Path.text` : the text of a path
-/

namespace EntityQuery

/-- Associations to follow, and the field at their end. -/
structure Path where
  steps : List String
  field : String
  deriving DecidableEq, Repr

namespace Path

/-! ## Names -/

/-- All names of a path. -/
def names (p : Path) : List String := p.steps ++ [p.field]

/-- The path of some names; none if there is no name. -/
def ofNames? : List String → Option Path
  | [] => none
  | [name] => some ⟨[], name⟩
  | name :: rest => (ofNames? rest).map fun p => ⟨name :: p.steps, p.field⟩

@[simp] theorem ofNames?_names (p : Path) : ofNames? p.names = some p := by
  obtain ⟨steps, field⟩ := p
  induction steps with
  | nil => rfl
  | cons step steps ih =>
    cases steps with
    | nil => rfl
    | cons _ _ => simpa [ofNames?, names] using ih

/-! ## Building -/

/-- The path of one name. -/
def single (name : String) : Path := ⟨[], name⟩

/-- The path one name further. -/
def child (p : Path) (name : String) : Path := ⟨p.names, name⟩

/-- The path of a name below another path, or by itself. -/
def below (parent : Option Path) (name : String) : Path :=
  match parent with
  | some p => p.child name
  | none => single name

/-- The path without its first `n` names. -/
def skip? (p : Path) (n : Nat) : Option Path := ofNames? (p.names.drop n)

/-- The names of a path begin with the names of another. -/
def startsWith (p start : Path) : Bool := start.names.isPrefixOf p.names

@[simp] theorem names_child (p : Path) (name : String) :
    (p.child name).names = p.names ++ [name] := rfl

/-! ## Text -/

/-- The path of a text: its pieces between points, none of them empty. -/
def read? (text : String) : Option Path :=
  let names := Text.pieces '.' text
  if names.any (·.isEmpty) then none else ofNames? names

/-- Names with points between them. -/
def dotted (names : List String) : String := Text.glue '.' names

/-- The text of a path. -/
def text (p : Path) : String := dotted p.names

end Path

end EntityQuery
