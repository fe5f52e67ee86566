import EntityQuery.Config
import EntityQuery.Fault
import EntityQuery.Search.Request
import EntityQuery.Store.Plan

/-!
# Pages

A page is a window of a fixed size on the results.  Data about a page are its number, its size, the
number of pages, the number of results on the page and the number of all results.

## Main definitions

* `PageRequest.window` : the window of a page
* `PageInfo.of` : the data about a page
-/

namespace EntityQuery

/-- The window of a page.  Its size must lie in bounds, and its offset in a machine word. -/
def PageRequest.window (config : Config) (page : PageRequest) : Except SearchFault Window :=
  let size := page.size.getD config.defaultPageSize
  if size = 0 ∨ config.maxPageSize < size then throw (.invalidPage (.size size config.maxPageSize))
  else if !Width.fitsWord (page.number * size) then throw (.invalidPage (.number page.number))
  else pure ⟨page.number * size, size⟩

/-- Data about a page. -/
structure PageInfo where
  currentPage : Nat
  pageSize : Nat
  totalPages : Nat
  currentPageCount : Nat
  total : Nat
  deriving DecidableEq, Repr

namespace PageInfo

/-- The data about a page with so many results of a total; without a window all results are on one
page. -/
def of (window : Option Window) (count total : Nat) : PageInfo :=
  match window with
  | some w =>
    if 0 < w.limit then ⟨w.offset / w.limit, w.limit, (total + w.limit - 1) / w.limit, count, total⟩
    else onePage
  | none => onePage
where
  /-- All results on one page. -/
  onePage : PageInfo := ⟨0, total, if 0 < total then 1 else 0, count, total⟩

/-- The data about a page as members of an object. -/
def members (info : PageInfo) : List (String × Json) :=
  [("currentPage", .int info.currentPage), ("pageSize", .int info.pageSize),
   ("totalPages", .int info.totalPages), ("currentPageCount", .int info.currentPageCount),
   ("total", .int info.total)]

end PageInfo

end EntityQuery
