import EntityQuery.Catalog.Field
import EntityQuery.Proofs.Outcome
import Mathlib.Data.List.Induction

/-!
# Dotted names

Joins and columns are told apart by the text of the names that lead to them.  The text determines
the names as long as no name holds a point, so nothing is lost by writing names with points between
them.

## Main definitions

* `Path.Dotless` : a name without points

## Main statements

* `dotted_injective` : the text determines the names
* `dotted_append` : the text of names one name further
* `exists_append_of_dotted` : what stands in front of a point is the text of the first names
* `qualified_beforeLast?` : the column that a join continues from
* `read?_eq_some_iff` : the path of a text
-/

namespace EntityQuery.Path

/-- The name holds no point. -/
def Dotless (name : String) : Prop := '.' ∉ name.toList

instance (name : String) : Decidable (Dotless name) := inferInstanceAs (Decidable (¬ _))

@[simp] theorem dotted_singleton (name : String) : dotted [name] = name := by
  simp [dotted, Text.glue]

/-- The text of names one name further. -/
theorem dotted_append {names : List String} (hnames : names ≠ []) (name : String) :
    dotted (names ++ [name]) = dotted names ++ "." ++ name := by
  induction names with
  | nil => exact absurd rfl hnames
  | cons first names ih =>
      cases names with
      | nil =>
          simp [dotted, Text.glue, List.intercalate_cons_cons, String.ofList_append,
            String.append_assoc]
      | cons second names =>
          have hstep (rest : List String) (hrest : rest ≠ []) :
              dotted (first :: rest) = first ++ "." ++ dotted rest := by
            have hmapped : rest.map String.toList ≠ [] := by simpa using hrest
            simp [dotted, Text.glue, List.intercalate_cons_of_ne_nil hmapped, String.ofList_append,
              String.append_assoc]
          rw [List.cons_append, hstep _ (by simp), ih (by simp), hstep _ (by simp)]
          simp only [String.append_assoc]

theorem dotted_append_inj {names : List String} {first second : String} :
    dotted (names ++ [first]) = dotted (names ++ [second]) ↔ first = second := by
  by_cases hnames : names = []
  · simp [hnames]
  · rw [dotted_append hnames, dotted_append hnames, String.append_right_inj]

theorem pieces_dotted {names : List String} (hnames : names ≠ [])
    (hdotless : ∀ name ∈ names, Dotless name) : Text.pieces '.' (dotted names) = names := by
  unfold Text.pieces dotted Text.glue
  rw [String.toList_ofList, List.splitOn_intercalate '.' ?_ (by simpa using hnames)]
  · simp
  · intro chars hchars
    obtain ⟨name, hname, rfl⟩ := List.mem_map.mp hchars
    exact hdotless name hname

/-- The text determines the names. -/
theorem dotted_injective {a b : List String} (hna : a ≠ []) (hnb : b ≠ [])
    (ha : ∀ name ∈ a, Dotless name) (hb : ∀ name ∈ b, Dotless name)
    (heq : dotted a = dotted b) : a = b := by
  rw [← pieces_dotted hna ha, ← pieces_dotted hnb hb, heq]

theorem dotted_pieces (text : String) : dotted (Text.pieces '.' text) = text := by
  have hchars : (Text.pieces '.' text).map String.toList = text.toList.splitOn '.' := by
    simp [Text.pieces, Function.comp_def]
  rw [dotted, Text.glue, hchars, List.intercalate_splitOn, String.ofList_toList]

theorem pieces_append (front back : String) :
    Text.pieces '.' (front ++ "." ++ back) = Text.pieces '.' front ++ Text.pieces '.' back := by
  have hchars : (front ++ "." ++ back).toList = front.toList ++ '.' :: back.toList := by simp
  rw [Text.pieces, hchars, List.splitOn_append_cons_self, List.map_append, ← Text.pieces,
    ← Text.pieces]

theorem pieces_of_dotless {name : String} (hname : Dotless name) :
    Text.pieces '.' name = [name] := by
  simpa using pieces_dotted (List.cons_ne_nil name []) (by simpa using hname)

/-- A text in front of a point in the text of some names is the text of the first of them. -/
theorem exists_append_of_dotted {names : List String} (hnames : names ≠ [])
    (hdotless : ∀ name ∈ names, Dotless name) {front back : String}
    (heq : dotted names = front ++ "." ++ back) :
    ∃ first rest, names = first ++ rest ∧ first ≠ [] ∧ rest ≠ [] ∧ dotted first = front := by
  have hne (text : String) : Text.pieces '.' text ≠ [] := by
    simp [Text.pieces, List.splitOn_ne_nil]
  refine ⟨Text.pieces '.' front, Text.pieces '.' back, ?_, hne front, hne back, dotted_pieces front⟩
  calc names = Text.pieces '.' (dotted names) := (pieces_dotted hnames hdotless).symm
    _ = Text.pieces '.' (front ++ "." ++ back) := by rw [heq]
    _ = Text.pieces '.' front ++ Text.pieces '.' back := pieces_append front back

theorem beforeLast?_dotted {names : List String} {name : String}
    (hnames : ∀ n ∈ names ++ [name], Dotless n) :
    Text.beforeLast? '.' (dotted (names ++ [name])) =
      if names = [] then none else some (dotted names) := by
  unfold Text.beforeLast?
  rw [pieces_dotted (by simp) hnames]
  cases names with
  | nil => rfl
  | cons first names =>
      cases names with
      | nil => rfl
      | cons second names =>
          change some (Text.glue '.' (first :: second :: names ++ [name]).dropLast) = _
          rw [List.dropLast_concat, if_neg (by simp)]
          rfl

/-- The column of the row that a join continues from. -/
theorem qualified_beforeLast? {names : List String} {name : String}
    (hnames : ∀ n ∈ names ++ [name], Dotless n) (column : String) :
    qualified (Text.beforeLast? '.' (dotted (names ++ [name]))) column =
      dotted (names ++ [column]) := by
  rw [beforeLast?_dotted hnames]
  split
  · next hnil => simp [hnil, qualified]
  · next hne => rw [dotted_append hne, qualified]

/-! ## Paths of a text -/

theorem ofNames?_eq_some_iff {names : List String} {p : Path} :
    ofNames? names = some p ↔ p.names = names := by
  constructor
  · intro hp
    cases names using List.reverseRecOn with
    | nil => simp [ofNames?] at hp
    | append_singleton steps field =>
        have hnames : ofNames? (steps ++ [field]) = some ⟨steps, field⟩ :=
          ofNames?_names ⟨steps, field⟩
        rw [← Option.some.inj (hnames.symm.trans hp), names]
  · rintro rfl
    exact ofNames?_names p

theorem names_injective {p q : Path} (hnames : p.names = q.names) : p = q :=
  Option.some.inj (by rw [← ofNames?_names p, hnames, ofNames?_names])

/-- A text is read as the path of its pieces, of which none may be empty. -/
theorem read?_eq_some_iff {text : String} {p : Path} :
    read? text = some p ↔ p.names = Text.pieces '.' text ∧ "" ∉ p.names := by
  have hany (names : List String) : names.any (·.isEmpty) = true ↔ "" ∈ names := by
    simp
  unfold read?
  dsimp only
  split
  · next hempty =>
    rw [hany] at hempty
    simp only [reduceCtorEq, false_iff, not_and, not_not]
    exact fun hnames => hnames ▸ hempty
  · next hempty =>
    rw [hany] at hempty
    rw [ofNames?_eq_some_iff]
    exact ⟨fun hnames => ⟨hnames, hnames ▸ hempty⟩, fun h => h.1⟩

end EntityQuery.Path
