import EntityQuery.Text.Basic
import EntityQuery.Text.Casing
import Mathlib.Data.List.Infix

/-!
# Lower case of a part of a text

The lower-case form of a text is put together of the forms of its characters, and all characters but
the capital sigma have one form.  The form of a sigma depends on what stands around it: at the end
of a word it is another one than elsewhere.  So the form of a part that is taken out of a text need
not be a part of the form of the text; it is, in that place, exactly if each sigma of the part keeps
the form that it has in the text.

The forms of a part between others are as long as those of the part alone, so one can be compared
with the other character by character; the induction is on the part.

## Main definitions

* `lowerWithin` : the forms of a part between others
* `KeepsSigmas` : the sigmas of a part have the same forms between others and alone

## Main statements

* `lowerFrom_append` : the forms of a part, and those of what stands behind it
* `lowerWithin_eq_iff` : the forms of a part are those of the part alone exactly if it keeps its
  sigmas
* `startsWith_lower_iff`, `endsWith_lower_iff`, `contains_lower` : parts of a text and of its
  lower-case form
-/

namespace EntityQuery.Text

/-! ## Parts of texts -/

theorem hasPart_iff {part cs : List Char} : hasPart part cs = true ↔ part <:+: cs := by
  induction cs with
  | nil => simp [hasPart]
  | cons c rest ih => simp [hasPart, ih, List.infix_cons_iff]

theorem startsWith_iff {text start : String} :
    startsWith text start = true ↔ start.toList <+: text.toList :=
  List.isPrefixOf_iff_prefix

theorem endsWith_iff {text tail : String} :
    endsWith text tail = true ↔ tail.toList <:+ text.toList :=
  List.isSuffixOf_iff_suffix

theorem contains_iff {text part : String} :
    contains text part = true ↔ part.toList <:+: text.toList :=
  hasPart_iff

theorem toList_lower (text : String) : (lower text).toList = lowerFrom [] text.toList :=
  String.toList_ofList

/-! ## Forms of a part -/

variable {before after part : List Char}

/-- The lower-case forms of characters between `before` (nearest first) and `after`. -/
def lowerWithin (before : List Char) (part after : List Char) : List Char :=
  match part with
  | [] => []
  | c :: rest =>
    (if c = 'Σ' then [lowerSigma before (rest ++ after)] else lowerChar c) ++
      lowerWithin (c :: before) rest after

theorem lowerFrom_append (before part after : List Char) :
    lowerFrom before (part ++ after) = lowerWithin before part after ++
      lowerFrom (part.reverse ++ before) after := by
  induction part generalizing before with
  | nil => rfl
  | cons c rest ih => simp [lowerFrom, lowerWithin, ih]

theorem lowerWithin_nil (before part : List Char) :
    lowerWithin before part [] = lowerFrom before part := by
  simpa [lowerFrom] using (lowerFrom_append before part []).symm

theorem length_lowerWithin (before after others more part : List Char) :
    (lowerWithin before part after).length = (lowerWithin others part more).length := by
  induction part generalizing before others with
  | nil => rfl
  | cons c rest ih =>
      rw [lowerWithin, lowerWithin, List.length_append, List.length_append,
        ih (c :: before) (c :: others)]
      split <;> rfl

/-- Each capital sigma of a part has the same form between others, which are given in the order of
the text, and alone. -/
def KeepsSigmas (before part after : List Char) : Prop :=
  ∀ first rest, part = first ++ 'Σ' :: rest →
    lowerSigma (first.reverse ++ before.reverse) (rest ++ after) = lowerSigma first.reverse rest

theorem keepsSigmas_of_not_mem (hpart : 'Σ' ∉ part) (before after : List Char) :
    KeepsSigmas before part after := by
  rintro first rest rfl
  exact absurd (List.mem_append_right _ List.mem_cons_self) hpart

/-- The forms of a part between some characters are those between others exactly if the forms of its
sigmas are. -/
theorem lowerWithin_inj {others more : List Char} :
    lowerWithin before part after = lowerWithin others part more ↔
      ∀ first rest, part = first ++ 'Σ' :: rest →
        lowerSigma (first.reverse ++ before) (rest ++ after) =
          lowerSigma (first.reverse ++ others) (rest ++ more) := by
  induction part generalizing before others with
  | nil => simp [lowerWithin]
  | cons c part ih =>
      -- the two sides have one length, so that their first characters and their rests are equal
      have hlength := length_lowerWithin (c :: before) after (c :: others) more part
      rw [lowerWithin, lowerWithin]
      constructor
      · intro heq first rest hpart
        obtain ⟨hform, hforms⟩ := List.append_inj' heq hlength
        cases first with
        | nil =>
            obtain ⟨rfl, rfl⟩ := List.cons.inj hpart
            simpa using hform
        | cons d first =>
            obtain ⟨rfl, rfl⟩ := List.cons.inj hpart
            simpa using ih.mp hforms first rest rfl
      · intro hsigmas
        have hforms : lowerWithin (c :: before) part after =
            lowerWithin (c :: others) part more := by
          refine ih.mpr fun first rest hpart => ?_
          simpa using hsigmas (c :: first) rest (by rw [hpart]; rfl)
        rw [hforms]
        split
        · next hc =>
          have hsigma := hsigmas [] part (by rw [hc]; rfl)
          rw [List.reverse_nil, List.nil_append, List.nil_append] at hsigma
          rw [hsigma]
        · rfl

/-- The forms of a part between others are those of the part alone exactly if it keeps its
sigmas. -/
theorem lowerWithin_eq_iff :
    lowerWithin before.reverse part after = lowerFrom [] part ↔ KeepsSigmas before part after := by
  rw [← lowerWithin_nil, lowerWithin_inj]
  simp [KeepsSigmas]

/-! ## Parts of the lower-case form -/

theorem lowerFrom_prefix_iff :
    lowerFrom [] part <+: lowerFrom [] (part ++ after) ↔ KeepsSigmas [] part after := by
  rw [lowerFrom_append, ← lowerWithin_eq_iff]
  constructor
  · rintro ⟨rest, heq⟩
    have hlength := length_lowerWithin [] [] [] after part
    rw [lowerWithin_nil] at hlength
    exact (List.append_inj heq hlength).1.symm
  · intro heq
    rw [List.reverse_nil] at heq
    exact ⟨_, by rw [heq]⟩

theorem lowerFrom_suffix_iff :
    lowerFrom [] part <:+ lowerFrom [] (before ++ part) ↔ KeepsSigmas before part [] := by
  rw [lowerFrom_append, ← lowerWithin_eq_iff, lowerWithin_nil, List.append_nil]
  constructor
  · rintro ⟨rest, heq⟩
    have hlength := length_lowerWithin [] [] before.reverse [] part
    rw [lowerWithin_nil, lowerWithin_nil] at hlength
    exact (List.append_inj' heq hlength).2.symm
  · intro heq
    exact ⟨_, by rw [heq]⟩

/-- The lower-case form of a text that begins with a part begins with the form of the part exactly
if the part keeps its sigmas there. -/
theorem startsWith_lower_iff {text start : String} (hstart : startsWith text start = true) :
    startsWith (lower text) (lower start) = true ↔
      ∃ after, text.toList = start.toList ++ after ∧ KeepsSigmas [] start.toList after := by
  obtain ⟨after, htext⟩ := startsWith_iff.mp hstart
  rw [startsWith_iff, toList_lower, toList_lower, ← htext, lowerFrom_prefix_iff]
  constructor
  · exact fun hkeeps => ⟨after, rfl, hkeeps⟩
  · rintro ⟨others, hothers, hkeeps⟩
    rwa [List.append_cancel_left hothers]

/-- The lower-case form of a text that ends with a part ends with the form of the part exactly if
the part keeps its sigmas there. -/
theorem endsWith_lower_iff {text tail : String} (htail : endsWith text tail = true) :
    endsWith (lower text) (lower tail) = true ↔
      ∃ before, text.toList = before ++ tail.toList ∧ KeepsSigmas before tail.toList [] := by
  obtain ⟨before, htext⟩ := endsWith_iff.mp htail
  rw [endsWith_iff, toList_lower, toList_lower, ← htext, lowerFrom_suffix_iff]
  constructor
  · exact fun hkeeps => ⟨before, rfl, hkeeps⟩
  · rintro ⟨others, hothers, hkeeps⟩
    rwa [List.append_cancel_right hothers]

/-- The lower-case form of a text has the form of a part that keeps its sigmas at one of its
places. -/
theorem contains_lower {text part : String} {before after : List Char}
    (htext : text.toList = before ++ part.toList ++ after)
    (hkeeps : KeepsSigmas before part.toList after) :
    contains (lower text) (lower part) = true := by
  rw [contains_iff, toList_lower, toList_lower, htext, List.append_assoc, lowerFrom_append,
    lowerFrom_append, List.append_nil, lowerWithin_eq_iff.mpr hkeeps]
  exact ⟨_, _, List.append_assoc ..⟩

end EntityQuery.Text
