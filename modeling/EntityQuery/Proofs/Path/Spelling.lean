import EntityQuery.Path.Spelling
import Mathlib.Data.List.Forall2

/-!
# Plain spellings

A path as sent is put into plain spelling more than once on its way through a search, so nothing may
depend on how often that is done.  A plain spelling holds no mark, and it has no wrapper in front:
the marker stands in it only if it is the last name.  Such a text is left as it is.

The two marks mean the same, since a path is cut at either of them.

## Strategy

`plain` cuts a path at the marks first and takes its wrapper off then.  The first step leaves a text
without marks, which it would not change again (`withoutMarks_of_unmarked`).  The second one leaves
a text whose names hold no marker unless one ends them (`not_mem_afterMarker`), and only takes
characters away, so no mark comes back (`mem_of_withoutWrapper`).

## Main definitions

* `Spelling.SameButMarks` : two texts differ at most in which marks stand in them

## Main statements

* `plain_settled` : a plain spelling is left as it is, whichever marks the path had
-/

namespace EntityQuery.Spelling

variable {marker : List Char} {path other : List Char}

/-! ## Cutting at marks -/

/-- The pieces between separators hold none of them, and nothing that was not in the text. -/
theorem mem_of_splitOnP {p : Char → Bool} {text piece : List Char}
    (hpiece : piece ∈ text.splitOnP p) {ch : Char} (hch : ch ∈ piece) :
    ch ∈ text ∧ p ch = false := by
  induction text generalizing piece with
  | nil =>
      rw [List.splitOnP_nil, List.mem_singleton] at hpiece
      simp [hpiece] at hch
  | cons first text ih =>
      rw [List.splitOnP_cons_eq_if_modifyHead] at hpiece
      by_cases hfirst : p first = true
      · rw [if_pos hfirst] at hpiece
        rcases List.mem_cons.mp hpiece with rfl | hpiece
        · simp at hch
        · exact ⟨List.mem_cons_of_mem _ (ih hpiece hch).1, (ih hpiece hch).2⟩
      -- the first piece of the rest is one character longer
      · rw [if_neg hfirst] at hpiece
        obtain ⟨head, tail, hrest⟩ := List.exists_cons_of_ne_nil (List.splitOnP_ne_nil p text)
        rw [hrest] at hpiece ih
        rcases List.mem_cons.mp hpiece with rfl | hpiece
        · rcases List.mem_cons.mp hch with rfl | hch
          · exact ⟨List.mem_cons_self .., by simpa using hfirst⟩
          · have := ih (List.mem_cons_self ..) hch
            exact ⟨List.mem_cons_of_mem _ this.1, this.2⟩
        · have := ih (List.mem_cons_of_mem _ hpiece) hch
          exact ⟨List.mem_cons_of_mem _ this.1, this.2⟩

/-- What is glued together holds points, and what was in the pieces. -/
theorem mem_of_intercalate {pieces : List (List Char)} {ch : Char}
    (hch : ch ∈ ['.'].intercalate pieces) : ch = '.' ∨ ∃ piece ∈ pieces, ch ∈ piece := by
  induction pieces with
  | nil => simp at hch
  | cons first pieces ih =>
      by_cases hrest : pieces = []
      · subst hrest
        exact .inr ⟨first, List.mem_cons_self .., by simpa using hch⟩
      · rw [List.intercalate_cons_of_ne_nil hrest, List.mem_append, List.mem_append,
          List.mem_singleton] at hch
        obtain (hfirst | hpoint) | hch := hch
        · exact .inr ⟨first, List.mem_cons_self .., hfirst⟩
        · exact .inl hpoint
        · obtain hpoint | ⟨piece, hpiece, hch⟩ := ih hch
          · exact .inl hpoint
          · exact .inr ⟨piece, List.mem_cons_of_mem _ hpiece, hch⟩

/-- A name without its type is the end of a part. -/
theorem mem_of_untyped {parts : List (List Char)} {name : List Char} (hname : name ∈ untyped parts)
    {ch : Char} (hch : ch ∈ name) : ∃ part ∈ parts, ch ∈ part := by
  cases parts with
  | nil => simp [untyped] at hname
  | cons first rest =>
      rcases List.mem_append.mp hname with hname | hname
      · have hfirst := (List.mem_filter.mp hname).1
        rw [List.mem_singleton] at hfirst
        exact ⟨first, List.mem_cons_self .., hfirst ▸ hch⟩
      · obtain ⟨part, hpart, rfl⟩ := List.mem_map.mp hname
        refine ⟨part, List.mem_cons_of_mem _ (List.mem_filter.mp hpart).1, ?_⟩
        unfold afterLastPoint at hch
        have hlast : (part.splitOn '.').getLastD [] ∈ part.splitOn '.' := by
          rw [List.getLastD_eq_getLast?, List.getLast?_eq_some_getLast (List.splitOn_ne_nil _ _),
            Option.getD_some]
          exact List.getLast_mem _
        exact (mem_of_splitOnP hlast hch).1

theorem withoutMarks_of_unmarked (hpath : ∀ ch ∈ path, isMark ch = false) :
    withoutMarks path = path := by
  have hany : path.any isMark = false := by simpa using hpath
  rw [withoutMarks, hany, if_neg (by simp)]

theorem unmarked_withoutMarks (path : List Char) : ∀ ch ∈ withoutMarks path, isMark ch = false := by
  intro ch hch
  unfold withoutMarks at hch
  split at hch
  · obtain rfl | ⟨name, hname, hch⟩ := mem_of_intercalate hch
    · rfl
    · obtain ⟨part, hpart, hch⟩ := mem_of_untyped hname hch
      exact (mem_of_splitOnP hpart hch).2
  · next hany =>
    have hpath : ∀ ch ∈ path, isMark ch = false := by simpa using hany
    exact hpath ch hch

/-! ## Taking the wrapper off -/

theorem afterMarker_suffix (marker : List Char) (names : List (List Char)) :
    afterMarker marker names <:+ names := by
  induction names with
  | nil => exact List.suffix_rfl
  | cons name rest ih =>
      rw [afterMarker]
      split
      · exact ih.trans (List.suffix_cons name rest)
      · split
        · exact List.suffix_cons name rest
        · exact List.suffix_rfl

theorem not_mem_afterMarker (marker : List Char) (names : List (List Char)) :
    marker ∉ afterMarker marker names := by
  induction names with
  | nil => simp [afterMarker]
  | cons name rest ih =>
      rw [afterMarker]
      split
      · exact ih
      · next hrest =>
        have hrest : marker ∉ rest := by simpa using hrest
        split
        · exact hrest
        · next hname =>
          rw [List.mem_cons, not_or]
          exact ⟨fun heq => hname heq.symm, hrest⟩

theorem afterMarker_of_not_mem {names : List (List Char)} (hnames : marker ∉ names) :
    afterMarker marker names = names := by
  cases names with
  | nil => rfl
  | cons name rest =>
      rw [List.mem_cons, not_or] at hnames
      rw [afterMarker, if_neg (by simpa using hnames.2), if_neg (Ne.symm hnames.1)]

/-- Something is left unless the marker ends the names. -/
theorem afterMarker_ne_nil {names : List (List Char)} (hne : names ≠ [])
    (hlast : names.getLast? ≠ some marker) : afterMarker marker names ≠ [] := by
  induction names with
  | nil => exact absurd rfl hne
  | cons name rest ih =>
      rw [afterMarker]
      split
      · next hrest =>
        have hrest : rest ≠ [] := by
          rintro rfl
          simp at hrest
        exact ih hrest (by rwa [List.getLast?_cons_of_ne_nil hrest] at hlast)
      · split
        · next hname =>
          rintro rfl
          exact hlast (by rw [hname]; rfl)
        · exact List.cons_ne_nil _ _

/-- A path whose wrapper is taken off: its names after the marker, or the path itself. -/
theorem withoutWrapper_cases (marker path : List Char) :
    withoutWrapper marker path = path ∧ (marker = [] ∨ (path.splitOn '.').getLast? = some marker) ∨
      (withoutWrapper marker path).splitOn '.' = afterMarker marker (path.splitOn '.') ∧
        (path.splitOn '.').getLast? ≠ some marker ∧
        withoutWrapper marker path = ['.'].intercalate (afterMarker marker (path.splitOn '.')) := by
  unfold withoutWrapper
  dsimp only
  split
  · next hno =>
    rw [Bool.or_eq_true, List.isEmpty_iff, decide_eq_true_eq] at hno
    exact .inl ⟨rfl, hno⟩
  · next hwrapper =>
    rw [Bool.or_eq_true, not_or, decide_eq_true_eq] at hwrapper
    refine .inr ⟨?_, hwrapper.2, rfl⟩
    refine List.splitOn_intercalate '.' (fun name hname hpoint => ?_)
      (afterMarker_ne_nil (List.splitOnP_ne_nil _ _) hwrapper.2)
    have := (mem_of_splitOnP ((afterMarker_suffix _ _).subset hname) hpoint).2
    simp at this

/-- Without its wrapper a path holds what it held before, and points. -/
theorem mem_of_withoutWrapper {ch : Char} (hch : ch ∈ withoutWrapper marker path) :
    ch = '.' ∨ ch ∈ path := by
  obtain ⟨hsame, -⟩ | ⟨-, -, hnames⟩ := withoutWrapper_cases marker path
  · exact .inr (hsame ▸ hch)
  · rw [hnames] at hch
    obtain hpoint | ⟨name, hname, hch⟩ := mem_of_intercalate hch
    · exact .inl hpoint
    · exact .inr (mem_of_splitOnP ((afterMarker_suffix _ _).subset hname) hch).1

theorem withoutWrapper_idem (marker path : List Char) :
    withoutWrapper marker (withoutWrapper marker path) = withoutWrapper marker path := by
  obtain ⟨hsame, -⟩ | ⟨hnames, -, -⟩ := withoutWrapper_cases marker path
  · rw [hsame, hsame]
  · -- the names that are left hold no marker
    generalize withoutWrapper marker path = plain at hnames ⊢
    obtain ⟨hsame, -⟩ | ⟨-, -, hglued⟩ := withoutWrapper_cases marker plain
    · exact hsame
    · calc withoutWrapper marker plain
          = ['.'].intercalate (afterMarker marker (plain.splitOn '.')) := hglued
        _ = ['.'].intercalate (plain.splitOn '.') := by
          rw [hnames, afterMarker_of_not_mem (not_mem_afterMarker _ _)]
        _ = plain := List.intercalate_splitOn '.'

/-- The marker stands before the last name only if it is the last name as well. -/
theorem getLast?_of_mem_withoutWrapper (hmarker : marker ≠ [])
    (hmem : marker ∈ ((withoutWrapper marker path).splitOn '.').dropLast) :
    ((withoutWrapper marker path).splitOn '.').getLast? = some marker := by
  obtain ⟨hsame, hempty | hlast⟩ | ⟨hnames, -, -⟩ := withoutWrapper_cases marker path
  · exact absurd hempty hmarker
  · rwa [hsame]
  · rw [hnames] at hmem
    exact absurd (List.dropLast_subset _ hmem) (not_mem_afterMarker _ _)

/-! ## Either mark -/

/-- One of two marks stands where the other did. -/
def SameMark (a b : Char) : Prop := a = b ∨ isMark a = true ∧ isMark b = true

/-- Two texts differ at most in which marks stand in them. -/
def SameButMarks (path other : String) : Prop := List.Forall₂ SameMark path.toList other.toList

instance (a b : Char) : Decidable (SameMark a b) := inferInstanceAs (Decidable (_ ∨ _))

instance (path other : String) : Decidable (SameButMarks path other) :=
  inferInstanceAs (Decidable (List.Forall₂ SameMark path.toList other.toList))

theorem any_isMark_congr (hsame : List.Forall₂ SameMark path other) :
    path.any isMark = other.any isMark := by
  induction hsame with
  | nil => rfl
  | cons hch _ ih =>
      rw [List.any_cons, List.any_cons, ih]
      obtain rfl | ⟨ha, hb⟩ := hch
      · rfl
      · rw [ha, hb]

theorem splitOnP_isMark_congr (hsame : List.Forall₂ SameMark path other) :
    path.splitOnP isMark = other.splitOnP isMark := by
  induction hsame with
  | nil => rfl
  | cons hch _ ih =>
      rw [List.splitOnP_cons_eq_if_modifyHead, List.splitOnP_cons_eq_if_modifyHead, ih]
      obtain rfl | ⟨ha, hb⟩ := hch
      · rfl
      · rw [if_pos ha, if_pos hb]

theorem eq_of_unmarked (hsame : List.Forall₂ SameMark path other)
    (hpath : ∀ ch ∈ path, isMark ch = false) : path = other := by
  induction hsame with
  | nil => rfl
  | cons hch _ ih =>
      rw [List.forall_mem_cons] at hpath
      obtain rfl | ⟨ha, -⟩ := hch
      · rw [ih hpath.2]
      · simp [hpath.1] at ha

theorem withoutMarks_congr (hsame : List.Forall₂ SameMark path other) :
    withoutMarks path = withoutMarks other := by
  unfold withoutMarks
  rw [any_isMark_congr hsame, splitOnP_isMark_congr hsame]
  split
  · rfl
  · next hmarks =>
    rw [← any_isMark_congr hsame] at hmarks
    exact eq_of_unmarked hsame (by simpa using hmarks)

/-! ## Plain spellings -/

/-- A plain spelling is left as it is and holds no mark, it does not depend on which marks the path
had, and the marker is no longer in front of it. -/
theorem plain_settled (marker path : String) :
    plain marker (plain marker path) = plain marker path ∧
      ('/' ∉ (plain marker path).toList ∧ '_' ∉ (plain marker path).toList) ∧
      (∀ other, SameButMarks path other → plain marker other = plain marker path) ∧
      (marker ≠ "" → marker ∈ (Text.pieces '.' (plain marker path)).dropLast →
        (Text.pieces '.' (plain marker path)).getLast? = some marker) := by
  have hunmarked : ∀ ch ∈ (plain marker path).toList, isMark ch = false := by
    intro ch hch
    rw [plain, String.toList_ofList] at hch
    obtain rfl | hch := mem_of_withoutWrapper hch
    · rfl
    · exact unmarked_withoutMarks _ ch hch
  refine ⟨?_, ⟨fun hslash => ?_, fun hline => ?_⟩, fun other hsame => ?_, fun hmarker hmem => ?_⟩
  · rw [plain, withoutMarks_of_unmarked hunmarked, plain, String.toList_ofList, withoutWrapper_idem]
  · simpa [isMark] using hunmarked _ hslash
  · simpa [isMark] using hunmarked _ hline
  · rw [plain, plain, withoutMarks_congr hsame]
  · unfold Text.pieces plain at hmem ⊢
    rw [String.toList_ofList, ← List.map_dropLast] at hmem
    obtain ⟨name, hname, rfl⟩ := List.mem_map.mp hmem
    rw [String.toList_ofList] at hname ⊢
    have hname' : name ≠ [] := by
      rintro rfl
      exact hmarker rfl
    rw [String.toList_ofList, List.getLast?_map, getLast?_of_mem_withoutWrapper hname' hname]
    rfl

/-- A path that ends in the marker is no wrapper for anything, so its other names stay. -/
theorem plain_settled_data :
    plain "data" "data.book_Type.data" = "data.book.data" ∧
      plain "data" (plain "data" "data.book/Type.data") = plain "data" "data.book/Type.data" ∧
      plain "data" "data.book_Type.data" = plain "data" "data.book/Type.data" ∧
      (Text.pieces '.' (plain "data" "data.book/Type.data")).getLast? = some "data" := by
  obtain ⟨hidem, -, hmarks, hlast⟩ := plain_settled "data" "data.book/Type.data"
  exact ⟨by decide, hidem, hmarks _ (by decide), hlast (by decide) (by decide)⟩

end EntityQuery.Spelling
