import EntityQuery.Proofs.Catalog.Places
import EntityQuery.Proofs.Filter.Evaluation
import EntityQuery.Proofs.Path.Spelling
import EntityQuery.Search.Planner

/-!
# Spellings of one field

A path may be sent with a wrapper or a root path of its entity in front.  Both are taken off on the
way to the field, in this order, and nothing else is: what is left has the names of the path, so
every spelling leads to the field of the path.

## Strategy

`plain` takes the wrapper off and `withoutRoot` the root path.  Neither may take a name that belongs
to the path.  The first one would need the marker among the names.  The second one looks at the
first name only, and the first name of a path that leads to a field is an attribute of the entity
(`exists_attribute?_of_field`), which a root path is not.

An empty root path cannot be sent, since a text with an empty name is no path
(`Path.read?_eq_some_iff`).

## Main definitions

* `Spelling.IsName` : a text that can stand as a single name in a path as sent

## Main statements

* `Planner.resolve_eq_ok_iff` : the field of a path as sent
* `Planner.resolve_spelled` : all spellings of a path lead to its field
-/

namespace EntityQuery

variable {c : Catalog} {root marker path : String}

/-! ## Texts without marks -/

namespace Spelling

/-- No mark stands in the text. -/
def Unmarked (text : String) : Prop := ∀ ch ∈ text.toList, isMark ch = false

instance (text : String) : Decidable (Unmarked text) :=
  List.decidableBAll (fun ch => isMark ch = false) text.toList

/-- The text can stand as a single name in a path as sent: it is not empty, and no point or mark
cuts it. -/
structure IsName (text : String) : Prop where
  nonempty : text ≠ ""
  dotless : Path.Dotless text
  unmarked : Unmarked text

instance (text : String) : Decidable (IsName text) :=
  decidable_of_iff (text ≠ "" ∧ Path.Dotless text ∧ Unmarked text)
    ⟨fun ⟨h₁, h₂, h₃⟩ => ⟨h₁, h₂, h₃⟩, fun h => ⟨h.nonempty, h.dotless, h.unmarked⟩⟩

theorem Unmarked.append {front back : String} (hfront : Unmarked front) (hback : Unmarked back) :
    Unmarked (front ++ "." ++ back) := by
  intro ch hch
  simp only [String.toList_append, List.mem_append] at hch
  rcases hch with (hch | hch) | hch
  · exact hfront ch hch
  · rw [show ch = '.' by simpa using hch]
    rfl
  · exact hback ch hch

theorem plain_of_unmarked (hpath : Unmarked path) :
    plain marker path = String.ofList (withoutWrapper marker.toList path.toList) := by
  rw [plain, withoutMarks_of_unmarked hpath]

theorem unmarked_plain (marker path : String) : Unmarked (plain marker path) := by
  intro ch hch
  rw [plain, String.toList_ofList] at hch
  obtain rfl | hch := mem_of_withoutWrapper hch
  · rfl
  · exact unmarked_withoutMarks _ ch hch

theorem plain_plain (marker path : String) :
    plain marker (plain marker path) = plain marker path := by
  rw [plain_of_unmarked (unmarked_plain marker path), plain, String.toList_ofList,
    withoutWrapper_idem]

theorem map_toList_pieces (text : String) :
    (Text.pieces '.' text).map String.toList = text.toList.splitOn '.' := by
  simp [Text.pieces, Function.comp_def]

theorem toList_mem_splitOn_iff {name text : String} :
    name.toList ∈ text.toList.splitOn '.' ↔ name ∈ Text.pieces '.' text := by
  rw [← map_toList_pieces]
  constructor
  · intro hname
    obtain ⟨piece, hpiece, heq⟩ := List.mem_map.mp hname
    rwa [← String.toList_inj.mp heq]
  · exact List.mem_map_of_mem

theorem afterMarker_append {marker : List Char} {names : List (List Char)} (hnames : marker ∉ names)
    (front : List (List Char)) : afterMarker marker (front ++ marker :: names) = names := by
  induction front with
  | nil => rw [List.nil_append, afterMarker, if_neg (by simpa using hnames), if_pos rfl]
  | cons first front ih => rw [List.cons_append, afterMarker, if_pos (by simp), ih]

theorem plain_of_not_mem (hpath : Unmarked path) (hnames : marker ∉ Text.pieces '.' path) :
    plain marker path = path := by
  rw [plain_of_unmarked hpath, withoutWrapper,
    afterMarker_of_not_mem (mt toList_mem_splitOn_iff.mp hnames), List.intercalate_splitOn,
    ite_self, String.ofList_toList]

/-- A wrapper that ends in the marker is taken off, whatever its other names are. -/
theorem plain_of_wrapped (hmarker : marker ≠ "") {front : String} {names : List String}
    (hfront : Unmarked front) (hlast : Text.pieces '.' front = names ++ [marker])
    (hpath : Unmarked path) (hnames : marker ∉ Text.pieces '.' path) :
    plain marker (front ++ "." ++ path) = path := by
  have hmem : marker.toList ∉ path.toList.splitOn '.' := mt toList_mem_splitOn_iff.mp hnames
  have hsplit : (front ++ "." ++ path).toList.splitOn '.' =
      names.map String.toList ++ marker.toList :: path.toList.splitOn '.' := by
    rw [← map_toList_pieces, Path.pieces_append, hlast, List.map_append, List.map_append,
      map_toList_pieces, List.append_assoc]
    rfl
  -- a path that ends in the marker would keep its wrapper
  have hend : (names.map String.toList ++ marker.toList :: path.toList.splitOn '.').getLast? ≠
      some marker.toList := by
    intro hend
    rw [List.getLast?_append_of_ne_nil _ (List.cons_ne_nil _ _),
      List.getLast?_cons_of_ne_nil (List.splitOn_ne_nil _ _)] at hend
    exact hmem (List.mem_of_getLast? hend)
  rw [plain_of_unmarked (hfront.append hpath), withoutWrapper, hsplit, afterMarker_append hmem,
    if_neg, List.intercalate_splitOn, String.ofList_toList]
  rw [Bool.or_eq_true, not_or, decide_eq_true_eq]
  exact ⟨by simpa using hmarker, hend⟩

end Spelling

/-! ## Root paths -/

namespace Planner

/-- The field of a path as sent: the wrapper is taken off first, then the root path. -/
theorem resolve_eq_ok_iff {text : String} {f : Field} :
    resolve c root marker text = .ok f ↔
      ∃ p e, Path.read? (Spelling.plain marker text) = some p ∧ c.entity? root = some e ∧
        c.field root (withoutRoot c root e.rootPaths p) = .ok f := by
  unfold resolve
  constructor
  · intro hresolve
    split at hresolve
    · simp at hresolve
    · next p hp =>
      obtain ⟨e, he, hfield⟩ := Outcome.bind_eq_ok_iff.mp hresolve
      exact ⟨p, e, hp, Catalog.knows_of_entity he, hfield⟩
  · rintro ⟨p, e, hp, he, hfield⟩
    simp [hp, Catalog.entity, he, hfield]

theorem withoutRoot_of_attribute? {p : Path} {first : String} {rest : List String} {a : Attribute}
    (hnames : p.names = first :: rest) (ha : c.attribute? root first = some a)
    (rootPaths : List String) : withoutRoot c root rootPaths p = p := by
  simp [withoutRoot, hnames, ha]

theorem withoutRoot_of_rootPath {p q : Path} {first : String} (hnames : q.names = first :: p.names)
    (ha : c.attribute? root first = none) {rootPaths : List String} (hfirst : first ∈ rootPaths) :
    withoutRoot c root rootPaths q = p := by
  simp [withoutRoot, hnames, ha, hfirst, Path.skip?]

/-- All spellings of a path lead to its field: the path itself, the path behind the marker or behind
any wrapper that ends in the marker, and the path behind a root path of its entity. -/
theorem resolve_spelled (hmarker : Spelling.IsName marker) (hpath : Spelling.Unmarked path)
    (hnames : marker ∉ Text.pieces '.' path) {f : Field} (hfield : c.fieldOf root path = .ok f) :
    resolve c root marker path = .ok f ∧
      resolve c root marker (marker ++ "." ++ path) = .ok f ∧
      (∀ front, Spelling.Unmarked front →
        resolve c root marker (front ++ "." ++ marker ++ "." ++ path) = .ok f) ∧
      ∀ e, c.entity? root = some e → ∀ rootPath ∈ e.rootPaths, Spelling.IsName rootPath →
        rootPath ≠ marker →
        rootPath ∉ (c.visible root).map Attribute.name →
        resolve c root marker (rootPath ++ "." ++ path) = .ok f := by
  obtain ⟨p, hp, hfield⟩ := Catalog.fieldOf_eq_ok_iff.mp hfield
  obtain ⟨first, rest, a, hfirst, ha⟩ := Catalog.exists_attribute?_of_field hfield
  obtain ⟨entity, hentity⟩ := Catalog.knows_of_attribute? ha
  -- a text whose plain spelling is the path leads to the field
  have hresolve {text : String} (htext : Spelling.plain marker text = path) :
      resolve c root marker text = .ok f :=
    resolve_eq_ok_iff.mpr ⟨p, entity, by rw [htext, hp], hentity,
      by rwa [withoutRoot_of_attribute? hfirst ha]⟩
  have hpieces := Path.pieces_of_dotless hmarker.dotless
  refine ⟨hresolve (Spelling.plain_of_not_mem hpath hnames), hresolve ?_,
    fun front hfront => hresolve ?_, ?_⟩
  · exact Spelling.plain_of_wrapped hmarker.nonempty hmarker.unmarked
      (hpieces.trans (List.nil_append _).symm) hpath hnames
  · have hlast : Text.pieces '.' (front ++ "." ++ marker) = Text.pieces '.' front ++ [marker] := by
      rw [Path.pieces_append, hpieces]
    exact Spelling.plain_of_wrapped hmarker.nonempty
      (hfront.append hmarker.unmarked) hlast hpath hnames
  · intro e he rootPath hrootPath hname hne hvisible
    -- the root path is no attribute, and stands in front once the marks are read
    have hattribute : c.attribute? root rootPath = none := by
      simpa [Catalog.mem_map_visible_iff] using hvisible
    have hspelled : Text.pieces '.' (rootPath ++ "." ++ path) = rootPath :: p.names := by
      rw [Path.pieces_append, Path.pieces_of_dotless hname.dotless,
        (Path.read?_eq_some_iff.mp hp).1]
      rfl
    have hplain : Spelling.plain marker (rootPath ++ "." ++ path) = rootPath ++ "." ++ path := by
      refine Spelling.plain_of_not_mem (hname.unmarked.append hpath) ?_
      rw [hspelled, (Path.read?_eq_some_iff.mp hp).1, List.mem_cons, not_or]
      exact ⟨hne.symm, hnames⟩
    have hq : Path.read? (rootPath ++ "." ++ path) = some ⟨rootPath :: p.steps, p.field⟩ := by
      refine Path.read?_eq_some_iff.mpr ⟨hspelled.symm, fun hempty => ?_⟩
      rcases List.mem_cons.mp hempty with hempty | hempty
      · exact hname.nonempty hempty.symm
      · exact (Path.read?_eq_some_iff.mp hp).2 hempty
    refine resolve_eq_ok_iff.mpr ⟨_, e, by rw [hplain, hq], he, ?_⟩
    rwa [withoutRoot_of_rootPath rfl hattribute hrootPath]

/-- The name of the author of a book. -/
theorem resolve_spelled_shelf :
    ∃ f, Shelf.catalog.fieldOf "Book" "author.name" = .ok f ∧ f.columnPath = "author.name" ∧
      resolve Shelf.catalog "Book" "data" "data.author.name" = .ok f ∧
      resolve Shelf.catalog "Book" "data" ("result.page" ++ "." ++ "data" ++ "." ++ "author.name") =
        .ok f ∧
      resolve Shelf.catalog "Book" "data" ("book" ++ "." ++ "author.name") = .ok f := by
  have hfield : ∃ f, Shelf.catalog.fieldOf "Book" "author.name" = .ok f ∧
      f.columnPath = "author.name" :=
    ⟨_, rfl, rfl⟩
  obtain ⟨f, hfield, hcolumn⟩ := hfield
  have hname : Spelling.IsName "data" := by decide
  obtain ⟨-, hmarker, hwrapped, hrooted⟩ := resolve_spelled hname (by decide) (by decide) hfield
  exact ⟨f, hfield, hcolumn, hmarker, hwrapped "result.page" (by decide),
    hrooted _ rfl "book" (by decide) (by decide) (by decide) (by decide)⟩

/-- An empty root path is accepted, but no path can be sent behind it. -/
theorem resolve_behind_empty_rootPath :
    ∃ c f, Catalog.of [⟨"Book", none, [""], none, "id", [⟨"id", .scalar .int64⟩], [], []⟩] none =
      .ok c ∧
      c.fieldOf "Book" "id" = .ok f ∧ ((c.entity? "Book").map Entity.rootPaths = some [""] ∧
        (Path.Dotless "" ∧ Spelling.Unmarked "" ∧ "" ≠ "data") ∧
        "" ∉ (c.visible "Book").map Attribute.name) ∧
      resolve c "Book" "data" ("" ++ "." ++ "id") = .error (.unresolvable "Book" ".id") :=
  ⟨_, _, rfl, rfl, by decide, rfl⟩

end Planner

end EntityQuery
