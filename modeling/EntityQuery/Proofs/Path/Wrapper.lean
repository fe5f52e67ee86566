import EntityQuery.Proofs.Search.Spelled

/-!
# Wrappers in front of a path

The marker in front of a path is a wrapper, and a path means the same with it and without it.  Two
things can come in between, since a path is cut at its marks before a wrapper is looked for, and the
last marker in a path is the one that ends the wrapper.

* A marker that holds a mark itself is cut into parts, and is not found any more.  Its last part
  goes with the type of the last name, the other ones stay in front of it.
* A path that ends in the marker has no wrapper, so a marker in front of it stays as well.

In all other cases the wrapper is taken off, see `plain_wrapped_iff`.

## Main definitions

* `Spelling.namesBeforeMark` : the names to which a marker is cut

## Main statements

* `plain_of_marked` : a marker with a mark is not found in any path
* `plain_wrapped_iff` : when a path means the same with the marker in front and without it
-/

namespace EntityQuery.Spelling

variable {marker path : String}

/-! ## Markers without marks -/

theorem afterMarker_self_cons (marker : List Char) (names : List (List Char)) :
    afterMarker marker (marker :: names) = afterMarker marker names := by
  rw [afterMarker]
  split
  · rfl
  · next hnames => rw [if_pos rfl, afterMarker_of_not_mem (by simpa using hnames)]

theorem splitOn_wrapped (hdotless : Path.Dotless marker) (path : String) :
    (marker ++ "." ++ path).toList.splitOn '.' = marker.toList :: path.toList.splitOn '.' := by
  rw [← map_toList_pieces, Path.pieces_append, Path.pieces_of_dotless hdotless, ← map_toList_pieces]
  rfl

theorem getLast?_pieces_eq_iff :
    (Text.pieces '.' path).getLast? = some marker ↔
      (path.toList.splitOn '.').getLast? = some marker.toList := by
  rw [← map_toList_pieces, List.getLast?_map, Option.map_eq_some_iff]
  simp [String.toList_inj]

theorem ne_wrapped (marker path : String) : marker ++ "." ++ path ≠ path := by
  intro heq
  have hlength := congrArg (fun text => text.toList.length) heq
  simp at hlength
  omega

/-- A marker without marks is taken off in front of a path unless it ends the path. -/
theorem plain_wrapped_of_unmarked (hmarker : marker ≠ "") (hdotless : Path.Dotless marker)
    (hunmarked : Unmarked marker) (hpath : Unmarked path) :
    plain marker (marker ++ "." ++ path) = plain marker path ↔
      (Text.pieces '.' path).getLast? ≠ some marker := by
  have hlast : (marker.toList :: path.toList.splitOn '.').getLast? =
      (path.toList.splitOn '.').getLast? :=
    List.getLast?_cons_of_ne_nil (List.splitOn_ne_nil _ _)
  rw [plain_of_unmarked (hunmarked.append hpath), plain_of_unmarked hpath, ne_eq,
    getLast?_pieces_eq_iff]
  unfold withoutWrapper
  dsimp only
  rw [splitOn_wrapped hdotless, hlast, afterMarker_self_cons]
  by_cases hend : (path.toList.splitOn '.').getLast? = some marker.toList
  · -- both paths are left as they are
    rw [if_pos (by simp [hend]), if_pos (by simp [hend]), String.ofList_toList,
      String.ofList_toList]
    exact iff_of_false (ne_wrapped marker path) (not_not_intro hend)
  · simp [hend, hmarker]

/-! ## Markers with marks -/

/-- The names to which a marker is cut at its marks, without the last part, which goes with a
type. -/
def namesBeforeMark (marker : String) : List String :=
  ((marker.toList.splitOnP isMark).dropLast.filter (!·.isEmpty)).map String.ofList

/-- A marker with a mark is not found in any path. -/
theorem plain_of_marked (hmarker : ¬ Unmarked marker) (path : String) :
    plain marker path = String.ofList (withoutMarks path.toList) := by
  have hunmarked : Unmarked (String.ofList (withoutMarks path.toList)) := by
    intro ch hch
    exact unmarked_withoutMarks _ ch (by simpa using hch)
  have hnames : marker ∉ Text.pieces '.' (String.ofList (withoutMarks path.toList)) := by
    intro hmem
    refine hmarker fun ch hch => hunmarked ch ?_
    exact (mem_of_splitOnP (toList_mem_splitOn_iff.mpr hmem) hch).1
  have hplain := plain_of_not_mem hunmarked hnames
  rwa [plain_of_unmarked hunmarked, String.toList_ofList] at hplain

/-- A text with marks is cut at the last one. -/
theorem exists_last_mark {text : List Char} (hmark : ∃ ch ∈ text, isMark ch = true) :
    ∃ front mark back, text = front ++ mark :: back ∧ isMark mark = true ∧ ∀ ch ∈ back,
      isMark ch = false := by
  induction text with
  | nil => simp at hmark
  | cons first text ih =>
      by_cases hrest : ∃ ch ∈ text, isMark ch = true
      · obtain ⟨front, mark, back, rfl, hmark, hback⟩ := ih hrest
        exact ⟨first :: front, mark, back, rfl, hmark, hback⟩
      · have hrest : ∀ ch ∈ text, isMark ch = false := by simpa using hrest
        obtain ⟨ch, hch, hmark⟩ := hmark
        rcases List.mem_cons.mp hch with rfl | hch
        · exact ⟨[], ch, text, rfl, hmark, hrest⟩
        · simp [hrest ch hch] at hmark

theorem afterLastPoint_of_dotless {part : List Char} (hpart : '.' ∉ part) :
    afterLastPoint part = part := by
  rw [afterLastPoint, List.splitOn_eq_singleton hpart]
  rfl

theorem untyped_append_singleton {parts : List (List Char)} (hne : parts ≠ [])
    (hparts : ∀ part ∈ parts, '.' ∉ part) {last : List Char} (hlast : last ≠ []) :
    untyped (parts ++ [last]) = parts.filter (!·.isEmpty) ++ [afterLastPoint last] := by
  obtain ⟨first, rest, rfl⟩ := List.exists_cons_of_ne_nil hne
  have hrest : (rest.filter (!·.isEmpty)).map afterLastPoint = rest.filter (!·.isEmpty) := by
    refine (List.map_congr_left fun part hpart => ?_).trans (List.map_id _)
    exact afterLastPoint_of_dotless
      (hparts part (List.mem_cons_of_mem _ (List.mem_filter.mp hpart).1))
  rw [List.cons_append, untyped, List.filter_append, List.map_append, hrest, ← List.append_assoc,
    ← List.filter_append]
  simp [hlast]

theorem dotless_of_mem_namesBeforeMark (hdotless : Path.Dotless marker) {name : String}
    (hname : name ∈ namesBeforeMark marker) : Path.Dotless name := by
  obtain ⟨part, hpart, rfl⟩ := List.mem_map.mp hname
  have hpart := List.dropLast_subset _ (List.mem_filter.mp hpart).1
  unfold Path.Dotless
  rw [String.toList_ofList]
  exact fun hpoint => hdotless (mem_of_splitOnP hpart hpoint).1

theorem dotless_of_mem_pieces : ∀ name ∈ Text.pieces '.' path, Path.Dotless name := by
  intro name hname hpoint
  have hother := (mem_of_splitOnP (toList_mem_splitOn_iff.mpr hname) hpoint).2
  simp at hother

/-- Of a marker with marks the names in front of its last mark are left, and of the path behind it
the last name. -/
theorem plain_wrapped_of_marked (hdotless : Path.Dotless marker) (hmarker : ¬ Unmarked marker)
    (hpath : Unmarked path) {names : List String} {last : String}
    (hpieces : Text.pieces '.' path = names ++ [last]) :
    plain marker (marker ++ "." ++ path) = Path.dotted (namesBeforeMark marker ++ [last]) := by
  have hmark : ∃ ch ∈ marker.toList, isMark ch = true := by simpa [Unmarked] using hmarker
  obtain ⟨front, mark, back, hcut, hmark, hback⟩ := exists_last_mark hmark
  have hbehind : ∀ ch ∈ back ++ '.' :: path.toList, isMark ch = false := by
    rw [List.forall_mem_append, List.forall_mem_cons]
    exact ⟨hback, rfl, hpath⟩
  have hwhole : (marker ++ "." ++ path).toList = front ++ mark :: (back ++ '.' :: path.toList) := by
    simp [hcut]
  have hparts : marker.toList.splitOnP isMark = front.splitOnP isMark ++ [back] := by
    rw [hcut, List.splitOnP_append_cons _ _ hmark, List.splitOnP_eq_singleton hback]
  have hwholeParts : (marker ++ "." ++ path).toList.splitOnP isMark =
      front.splitOnP isMark ++ [back ++ '.' :: path.toList] := by
    rw [hwhole, List.splitOnP_append_cons _ _ hmark, List.splitOnP_eq_singleton hbehind]
  -- the path is cut at its last point only behind the last mark: no part before has one
  have hpoint : ∀ part ∈ front.splitOnP isMark, '.' ∉ part := by
    intro part hpart hch
    refine hdotless ?_
    rw [hcut]
    exact List.mem_append_left _ (mem_of_splitOnP hpart hch).1
  have hend : afterLastPoint (back ++ '.' :: path.toList) = last.toList := by
    rw [afterLastPoint, List.splitOn_append_cons_self, ← map_toList_pieces, hpieces,
      List.map_append, ← List.append_assoc]
    simp
  have hany : (marker ++ "." ++ path).toList.any isMark = true := by
    rw [hwhole]
    simp [hmark]
  rw [plain_of_marked hmarker, withoutMarks, if_pos hany, hwholeParts,
    untyped_append_singleton (List.splitOnP_ne_nil _ _) hpoint (by simp), hend]
  simp [Path.dotted, Text.glue, namesBeforeMark, hparts, Function.comp_def]

/-! ## Both -/

/-- A path means the same with the marker in front and without it exactly if the marker can be found
and does not end the path, or if it is cut to the very names that the last name of the path has in
front. -/
theorem plain_wrapped_iff (hmarker : marker ≠ "") (hdotless : Path.Dotless marker)
    (hpath : Unmarked path) :
    (Unmarked marker →
        (plain marker (marker ++ "." ++ path) = plain marker path ↔
          (Text.pieces '.' path).getLast? ≠ some marker)) ∧
      (¬ Unmarked marker →
        (plain marker (marker ++ "." ++ path) = plain marker path ↔
          (Text.pieces '.' path).dropLast = namesBeforeMark marker)) := by
  refine ⟨fun hunmarked => plain_wrapped_of_unmarked hmarker hdotless hunmarked hpath,
    fun hmarked => ?_⟩
  have hne : Text.pieces '.' path ≠ [] := by simp [Text.pieces, List.splitOn_ne_nil]
  obtain ⟨names, last, hpieces⟩ : ∃ names last, Text.pieces '.' path = names ++ [last] :=
    ⟨_, _, (List.dropLast_concat_getLast hne).symm⟩
  have hpathDotless : ∀ name ∈ names ++ [last], Path.Dotless name := hpieces ▸ dotless_of_mem_pieces
  have hfrontDotless : ∀ name ∈ namesBeforeMark marker ++ [last], Path.Dotless name := by
    rw [List.forall_mem_append] at hpathDotless ⊢
    exact ⟨fun name => dotless_of_mem_namesBeforeMark hdotless, hpathDotless.2⟩
  rw [plain_wrapped_of_marked hdotless hmarked hpath hpieces, plain_of_marked hmarked,
    withoutMarks_of_unmarked hpath, String.ofList_toList, hpieces, List.dropLast_concat]
  constructor
  · intro hplain
    rw [← Path.dotted_pieces path, hpieces] at hplain
    have hnames := Path.dotted_injective (by simp) (by simp) hfrontDotless hpathDotless hplain
    exact (List.append_inj_left' hnames rfl).symm
  · rintro rfl
    rw [← hpieces, Path.dotted_pieces]

/-- Behind the marker a path may have a wrapper of its own. -/
theorem plain_wrapped_iff_data :
    "data" ≠ "" ∧ Path.Dotless "data" ∧ Unmarked "data" ∧ Unmarked "page.data.book.title" ∧
      plain "data" ("data" ++ "." ++ "page.data.book.title") = plain "data" "page.data.book.title" ∧
      plain "data" "page.data.book.title" = "book.title" := by
  have hmarker : "data" ≠ "" := by decide
  have hdotless : Path.Dotless "data" := by decide
  have hunmarked : Unmarked "data" := by decide
  have hpath : Unmarked "page.data.book.title" := by decide
  exact ⟨hmarker, hdotless, hunmarked, hpath,
    ((plain_wrapped_iff hmarker hdotless hpath).1 hunmarked).mpr (by decide), by decide⟩

/-- A marker with a mark is taken for a type, and a marker that comes again at the end keeps the
first one. -/
theorem plain_wrapped_ne :
    ("my_data" ≠ "" ∧ Path.Dotless "my_data" ∧ Unmarked "title" ∧
        plain "my_data" ("my_data" ++ "." ++ "title") = "my.title" ∧
        plain "my_data" "title" = "title") ∧
      ("data" ≠ "" ∧ Path.Dotless "data" ∧ Unmarked "book.data" ∧
        plain "data" ("data" ++ "." ++ "book.data") = "data.book.data" ∧
        plain "data" "book.data" = "book.data") := by
  decide

end EntityQuery.Spelling
