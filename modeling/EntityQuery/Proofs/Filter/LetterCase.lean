import EntityQuery.Proofs.Filter.Evaluation
import EntityQuery.Proofs.Text.Casing

/-!
# Tests regardless of letter case

A test regardless of letter case compares the lower-case forms of a text and a literal.  It is meant
to hold wherever the test of the texts themselves does, and for equality that is so.  Tests on parts
go by the forms of whole texts, though, and a capital sigma that is inside of a word in the text may
stand at the end of the literal.  A part is found regardless of its letter case if it is there with
sigmas of the same forms, in particular if it has no capital sigma.

## Main definitions

* `FilterTree.Matches` : the predicate of a filter is true of a row
* `FilterTree.TestsText` : a test compares a text in a row with a text

## Main statements

* `matches_test_iff` : the predicate of a test on texts is true where the test is passed
* `matches_regardless_of_case` : when a test regardless of letter case holds where the other one
  does
* `not_matches_regardless_of_case` : texts of which only the test of the texts themselves holds
-/

namespace EntityQuery.FilterTree

/-- The predicate of a filter is true of a row, under the names of its columns. -/
def Matches (hooks : FieldHooks) (layout : List String) (row : Row) (tree : FilterTree) : Prop :=
  ∃ compiled bound, tree.compile hooks = .ok compiled ∧ compiled.predicate.bind layout = .ok bound ∧
    bound.holds row = .ok true

/-- A row has a text in the column that tests of a field read, and they compare it with a text. -/
structure TestsText (hooks : FieldHooks) (layout : List String) (row : Row) (f : FieldRef)
    (value : Value) (s n : String) : Prop where
  type : f.type = .text
  width : row.length = layout.length
  column : testColumn hooks f.field ∈ layout
  cell : row.cell layout (testColumn hooks f.field) = .text s
  literal : testValue hooks f.field value = .text n

variable {hooks : FieldHooks} {layout : List String} {row : Row} {f : FieldRef} {value : Value}
  {s n : String}

theorem takes_text {op : FilterOperator} (hsingle : op.takesList = false) (n : String) :
    op.Takes .text (.text n) := by
  simpa [FilterOperator.Takes, hsingle]
    using Value.comparableWith_self (v := .text n) (t := .text) rfl

/-- The predicate of a test on texts is true of a row exactly if the text in the row passes the
test. -/
theorem matches_test_iff (h : TestsText hooks layout row f value s n) {op : FilterOperator}
    (haccepts : op.accepts .textual = true) (hsingle : op.takesList = false) :
    (test op f value).Matches hooks layout row ↔ op.holds (.text s) (.text n) = true := by
  have hfamily : op.accepts f.type.family = true := by rwa [h.type]
  have hholds {e bound : Expr}
      (he : testExpr f.pathText op (.named (testColumn hooks f.field)) (.text n) = .ok e)
      (hbound : e.bind layout = .ok bound) :
        bound.holds row = .ok (op.holds (.text s) (.text n)) := by
    obtain ⟨column, hcolumn, hbound⟩ := bind_testExpr he hbound
    have hvalue := Expr.eval_bound_column h.width hcolumn
    rw [h.cell] at hvalue
    exact holds_testExpr (t := .text) haccepts (takes_text hsingle n) hvalue rfl hbound
  constructor
  · rintro ⟨compiled, bound, hcompile, hbound, htrue⟩
    obtain ⟨-, e, he, rfl⟩ := compileTest_eq_ok_iff.mp hcompile
    rw [h.literal] at he
    exact Except.ok.inj ((hholds he hbound).symm.trans htrue)
  · intro htrue
    obtain ⟨e, he⟩ := exists_testExpr (t := .text) haccepts (takes_text hsingle n) f.pathText
      (.named (testColumn hooks f.field))
    have hreads : ∀ name ∈ e.reads, name ∈ layout := by
      rw [reads_of_testExpr he]
      exact List.forall_mem_singleton.mpr h.column
    obtain ⟨bound, hbound⟩ := Expr.exists_bind e hreads
    refine ⟨_, bound, compileTest_eq_ok_iff.mpr ⟨hfamily, e, ?_, rfl⟩, hbound,
      (hholds he hbound).trans (by rw [htrue])⟩
    rw [h.literal, he]

/-- Where the test of equality holds, the one regardless of letter case does.  Of texts that begin
or end with a literal it does exactly if the literal keeps the forms of its capital sigmas there,
and of texts that contain a literal if it keeps them at one of the places.  A literal without
capital sigmas always does. -/
theorem matches_regardless_of_case (h : TestsText hooks layout row f value s n) :
    ((test .equals f value).Matches hooks layout row →
      (test .equalsIc f value).Matches hooks layout row) ∧
      ((test .starts f value).Matches hooks layout row →
        ((test .startsIc f value).Matches hooks layout row ↔
          ∃ after, s.toList = n.toList ++ after ∧ Text.KeepsSigmas [] n.toList after)) ∧
      ((test .ends f value).Matches hooks layout row →
        ((test .endsIc f value).Matches hooks layout row ↔
          ∃ before, s.toList = before ++ n.toList ∧ Text.KeepsSigmas before n.toList [])) ∧
      ((∃ before after, s.toList = before ++ n.toList ++ after ∧
        Text.KeepsSigmas before n.toList after) →
        (test .contains f value).Matches hooks layout row ∧
        (test .containsIc f value).Matches hooks layout row) ∧
      ('Σ' ∉ n.toList →
        ((test .contains f value).Matches hooks layout row →
          (test .containsIc f value).Matches hooks layout row) ∧
        ((test .starts f value).Matches hooks layout row →
          (test .startsIc f value).Matches hooks layout row) ∧
        ((test .ends f value).Matches hooks layout row →
          (test .endsIc f value).Matches hooks layout row)) := by
  have hmatches {op : FilterOperator} (haccepts : op.accepts .textual = true)
      (hsingle : op.takesList = false) :=
    matches_test_iff h haccepts hsingle
  rw [hmatches rfl rfl, hmatches rfl rfl, hmatches rfl rfl, hmatches rfl rfl, hmatches rfl rfl,
    hmatches rfl rfl, hmatches rfl rfl, hmatches rfl rfl]
  -- what is left is about the two texts; without capital sigmas every place keeps them
  refine ⟨fun hequal => ?_, Text.startsWith_lower_iff, Text.endsWith_lower_iff, ?_, fun hn =>
    ⟨fun hpart => ?_, fun hstart => ?_, fun hend => ?_⟩⟩
  · obtain rfl : s = n := by simpa [FilterOperator.holds, Value.isNull, Value.compare?] using hequal
    simp [FilterOperator.holds, Value.bothTexts]
  · rintro ⟨before, after, htext, hkeeps⟩
    exact ⟨Text.contains_iff.mpr ⟨before, after, htext.symm⟩, Text.contains_lower htext hkeeps⟩
  · obtain ⟨before, after, htext⟩ := Text.contains_iff.mp hpart
    exact Text.contains_lower htext.symm (Text.keepsSigmas_of_not_mem hn _ _)
  · obtain ⟨after, htext⟩ := Text.startsWith_iff.mp hstart
    exact (Text.startsWith_lower_iff hstart).mpr ⟨after, htext.symm,
      Text.keepsSigmas_of_not_mem hn _ _⟩
  · obtain ⟨before, htext⟩ := Text.endsWith_iff.mp hend
    exact (Text.endsWith_lower_iff hend).mpr ⟨before, htext.symm,
      Text.keepsSigmas_of_not_mem hn _ _⟩

/-- The text of a word, which is an entity of its own. -/
def word : FieldRef := ⟨⟨⟨[], "text"⟩, "Word", "text", .scalar .text, false, []⟩, .text⟩

theorem testsText_word (s n : String) : TestsText .none ["text"] [.text s] word (.text n) s n where
  type := rfl
  width := rfl
  column := by simp [word, Field.columnPath, Field.sourcePath?, qualified]
  cell := rfl
  literal := rfl

/-- A text that begins with a part of a word begins with it in any letter case. -/
theorem matches_part_of_word :
    (test .starts word (.text "ΟΔ")).Matches .none ["text"] [.text "ΟΔΟΣ"] ∧
      (test .startsIc word (.text "ΟΔ")).Matches .none ["text"] [.text "ΟΔΟΣ"] := by
  have h := testsText_word "ΟΔΟΣ" "ΟΔ"
  have hstarts : (test .starts word (.text "ΟΔ")).Matches .none ["text"] [.text "ΟΔΟΣ"] :=
    (matches_test_iff h rfl rfl).mpr (by decide)
  obtain ⟨-, -, -, -, hplain⟩ := matches_regardless_of_case h
  exact ⟨hstarts, (hplain (by decide)).2.1 hstarts⟩

/-- Of these texts only the tests of the texts themselves hold: the sigma is inside of the word in
one of them, and at the end of the word in the other one. -/
theorem not_matches_regardless_of_case :
    (test .contains word (.text "ΑΣ")).Matches .none ["text"] [.text "ΑΣΑ"] ∧
      ¬ (test .containsIc word (.text "ΑΣ")).Matches .none ["text"] [.text "ΑΣΑ"] ∧
      (test .starts word (.text "ΑΣ")).Matches .none ["text"] [.text "ΑΣΑ"] ∧
      ¬ (test .startsIc word (.text "ΑΣ")).Matches .none ["text"] [.text "ΑΣΑ"] ∧
      (test .ends word (.text "Σ")).Matches .none ["text"] [.text "ΑΣ"] ∧
      ¬ (test .endsIc word (.text "Σ")).Matches .none ["text"] [.text "ΑΣ"] := by
  have hpart {op : FilterOperator} (haccepts : op.accepts .textual = true)
      (hsingle : op.takesList = false) :=
    matches_test_iff (testsText_word "ΑΣΑ" "ΑΣ") haccepts hsingle
  have hend {op : FilterOperator} (haccepts : op.accepts .textual = true)
      (hsingle : op.takesList = false) :=
    matches_test_iff (testsText_word "ΑΣ" "Σ") haccepts hsingle
  rw [hpart rfl rfl, hpart rfl rfl, hpart rfl rfl, hpart rfl rfl, hend rfl rfl, hend rfl rfl]
  decide +kernel

end EntityQuery.FilterTree
