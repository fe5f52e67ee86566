import EntityQuery.Json.Reader
import EntityQuery.Json.Shape

/-!
# Settings of a search

The settings that a file may give; those that it does not give have defaults.
-/

namespace EntityQuery

open Json.Shape

/-- The settings of a search. -/
structure Config where
  /-- The name that ends a response wrapper in a path. -/
  wrapperMarker : String
  /-- The size of a page that is asked for without a size. -/
  defaultPageSize : Nat
  maxPageSize : Nat
  /-- The type of parameters that a catalog binds nowhere. -/
  fallbackType : Option ScalarType
  deriving DecidableEq, Repr

namespace Config

/-- The settings without a file. -/
def default : Config := ⟨"data", 20, 1000, some .int64⟩

/-- The settings that a JSON value holds. -/
def ofWritten? (value : Json.Written) : Option Config := do
  match ← fields? ["wrapperMarker", "defaultPageSize", "maxPageSize", "fallbackKeyType"] value with
  | [marker, defaultSize, maxSize, fallback] =>
    return {
      wrapperMarker := ← withDefault default.wrapperMarker text? marker
      defaultPageSize := ← withDefault default.defaultPageSize size? defaultSize
      maxPageSize := ← withDefault default.maxPageSize size? maxSize
      fallbackType := ← withDefault default.fallbackType (nullable type? ∘ some) fallback }
  | _ => none

/-- The settings of a text. -/
def read? (text : String) : Option Config := do ofWritten? (← Json.written? text)

end Config

end EntityQuery
