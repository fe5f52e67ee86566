import EntityQuery.Text.CaseTable
import EntityQuery.Text.LetterTable

/-!
# Lower and upper case of a text

Case forms are those of the whole Unicode character set: a character may have a form of several
characters, and the lower-case form of a capital sigma depends on its place in the word.

## Main definitions

* `lower`, `upper` : the case forms of a text
* `lowerFirst` : the text with its first character in lower case
-/

namespace EntityQuery.Text

/-! ## Single characters -/

/-- The form of a character given by a table of runs and a list of longer forms. -/
def caseForm (runs : List CaseRun) (expansions : List (Nat × List Nat)) (c : Char) : List Char :=
  match expansions.lookup c.toNat with
  | some codes => codes.map Char.ofNat
  | none =>
    match runs.findSome? (·.image? c.toNat) with
    | some code => [Char.ofNat code]
    | none => [c]

/-- The lower-case form of a character by itself. -/
def lowerChar (c : Char) : List Char :=
  if c.toNat < 0x80 then [c.toLower] else caseForm lowerRuns lowerExpansions c

/-- The upper-case form of a character by itself. -/
def upperChar (c : Char) : List Char :=
  if c.toNat < 0x80 then [c.toUpper] else caseForm upperRuns upperExpansions c

/-! ## The sigma at the end of a word -/

/-- Membership in a table of ranges. -/
def inRanges (ranges : List (Nat × Nat)) (c : Char) : Bool :=
  ranges.any fun range => range.1 ≤ c.toNat && c.toNat ≤ range.2

/-- A cased letter follows, marks and inner punctuation aside. -/
def meetsLetter (cs : List Char) : Bool :=
  match cs.dropWhile (inRanges skippedRanges) with
  | [] => false
  | c :: _ => inRanges casedRanges c

/-- The lower-case form of a capital sigma between the characters before it (nearest first) and
after it: the final form at the end of a word of more than one letter, the common form elsewhere. -/
def lowerSigma (before after : List Char) : Char :=
  if meetsLetter before && !meetsLetter after then 'ς' else 'σ'

/-! ## Texts -/

/-- The lower-case forms of characters that stand after `before` (nearest first). -/
def lowerFrom (before : List Char) : List Char → List Char
  | [] => []
  | c :: rest =>
    (if c = 'Σ' then [lowerSigma before rest] else lowerChar c) ++ lowerFrom (c :: before) rest

/-- The lower-case form of a text. -/
def lower (text : String) : String := String.ofList (lowerFrom [] text.toList)

/-- The upper-case form of a text. -/
def upper (text : String) : String := String.ofList (text.toList.flatMap upperChar)

/-- A text with its first character in lower case. -/
def lowerFirst (text : String) : String :=
  match text.toList with
  | [] => ""
  | c :: rest => String.ofList (lowerChar c ++ rest)

/-- Every character in lower case by itself. -/
def lowerEach (text : String) : String := String.ofList (text.toList.flatMap lowerChar)

end EntityQuery.Text
