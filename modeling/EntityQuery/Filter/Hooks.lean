import EntityQuery.Text.Casing
import EntityQuery.Value.Literal

/-!
# Renaming fields and replacing literals

A caller may have some fields of a filter compared under another column, and the literals of those
fields replaced.

## Main definitions

* `FieldHooks.ofTable` : renaming by a table
* `Substitution.upper`, `Substitution.null`, `Substitution.tag` : ways to replace literals
-/

namespace EntityQuery

/-- What a literal of a renamed field, given by its name, is replaced by. -/
abbrev Substitution := String → Value → Option Value

/-- How fields are renamed, by entity and name, and literals of renamed fields are replaced. -/
structure FieldHooks where
  column? : String → String → Option String
  substitute : Substitution

namespace Substitution

/-- Literals stay. -/
def keep : Substitution := fun _ _ => none

/-- Texts in upper case. -/
def upper : Substitution
  | _, .text s => some (.text (Text.upper s))
  | _, _ => none

/-- Null for every literal. -/
def null : Substitution := fun _ _ => some .null

/-- The name of the field and the literal as one text. -/
def tag : Substitution := fun field value => some (.text (field ++ ":" ++ value.display))

end Substitution

namespace FieldHooks

/-- Nothing is renamed. -/
def none : FieldHooks := ⟨fun _ _ => .none, Substitution.keep⟩

/-- Renaming by a table of entity, field and column, in which later entries count. -/
def ofTable (table : List (String × String × String)) (substitute : Substitution) : FieldHooks :=
  ⟨fun entity field => (table.reverse.find? fun (e, f, _) => e = entity && f = field).map (·.2.2),
    substitute⟩

/-- The literal of a renamed field: its substitute, unless that is missing or null. -/
def literal (hooks : FieldHooks) (field : String) (value : Value) : Value :=
  match hooks.substitute field value with
  | some other => if other.isNull then value else other
  | .none => value

end FieldHooks

end EntityQuery
