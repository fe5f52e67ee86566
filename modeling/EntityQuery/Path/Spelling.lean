import EntityQuery.Text.Basic

/-!
# Spellings of a path on the wire

Besides plain dotted names a client may write

* a response wrapper in front, which ends in a marker: `data.book.title` with the marker `data`,
* names together with their types, with `/` or `_` between the parts: `book/Author.name` and
  `book_Author.name` are both `book.name`.

`Spelling.plain` gives the dotted form of all of these.

## Main definitions

* `Spelling.plain` : the dotted form of a written path
* `Spelling.isPageField` : the path asks for data about the page and not for a field
-/

namespace EntityQuery.Spelling

/-- The two marks that separate names written with their types. -/
def isMark (c : Char) : Bool := c = '/' || c = '_'

/-- What stands after the last point. -/
def afterLastPoint (cs : List Char) : List Char := (cs.splitOn '.').getLastD []

/-- The names of the parts between marks: the first part whole, of every later part what follows its
type.  Empty parts give no name. -/
def untyped : List (List Char) → List (List Char)
  | [] => []
  | first :: rest => [first].filter (!·.isEmpty) ++ (rest.filter (!·.isEmpty)).map afterLastPoint

/-- The dotted form of a path that has marks, any other path as it is. -/
def withoutMarks (path : List Char) : List Char :=
  if path.any isMark then
    ['.'].intercalate (untyped (path.splitOnP isMark))
  else
    path

/-- The names after the last one that is the marker, all names when none is. -/
def afterMarker (marker : List Char) : List (List Char) → List (List Char)
  | [] => []
  | name :: rest =>
    if rest.contains marker then afterMarker marker rest
    else if name = marker then rest
    else name :: rest

/-- A dotted path without its wrapper; a path that ends in the marker has no wrapper. -/
def withoutWrapper (marker path : List Char) : List Char :=
  let names := path.splitOn '.'
  if marker.isEmpty || names.getLast? = some marker then path
  else ['.'].intercalate (afterMarker marker names)

/-- The dotted form of a written path. -/
def plain (marker path : String) : String :=
  String.ofList (withoutWrapper marker.toList (withoutMarks path.toList))

/-- The names by which a client asks for data about the page. -/
def pageFields : List String :=
  ["currentPage", "pageSize", "totalPages", "currentPageCount", "total"]

/-- The path, in dotted form, asks for data about the page. -/
def isPageField (path : String) : Bool := pageFields.contains path

end EntityQuery.Spelling
