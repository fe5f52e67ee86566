import EntityQuery.Proofs.Text.Digits
import EntityQuery.Uuid

/-!
# Identifiers in text

An identifier is written in groups of hexadecimal digits with hyphens between them.  No digit is a
hyphen, so cutting the text at the hyphens gives the groups back, and the digits of all groups are
those of the number.

## Main statements

* `Uuid.read?_text` : an identifier is read again
-/

namespace EntityQuery.Uuid

variable (u : Uuid)

/-- The groups in which an identifier is written. -/
def groups : List (List Char) :=
  [u.digits.take 8, (u.digits.drop 8).take 4, (u.digits.drop 12).take 4, (u.digits.drop 16).take 4,
    u.digits.drop 20]

theorem length_digits : u.digits.length = 32 := by
  have hbits : u.bits.toNat < 16 ^ 32 := u.bits.isLt
  have hlength := (Nat.length_toDigits_le_iff (by decide) (by decide)).mpr hbits
  unfold digits
  rw [List.length_append, List.length_replicate]
  omega

theorem not_mem_digits : '-' ∉ u.digits := by
  unfold digits
  rw [List.mem_append, not_or]
  refine ⟨fun hmem => absurd (List.eq_of_mem_replicate hmem) (by decide), fun hmem => ?_⟩
  have hsome := Text.isSome_hexValue?_of_mem_toDigits hmem
  exact absurd hsome (by decide)

theorem ofDigits?_digits : ofDigits? u.digits = some u := by
  unfold ofDigits?
  rw [if_pos u.length_digits]
  unfold digits
  rw [Text.hexNumber?_zeros_append, Text.hexNumber?_toDigits, Option.map_some, BitVec.ofNat_toNat,
    BitVec.setWidth_eq]

theorem toList_text : u.text.toList = ['-'].intercalate u.groups := by
  simp [text, groups, List.intercalate, List.intersperse]

theorem splitOn_text : u.text.toList.splitOn '-' = u.groups := by
  rw [toList_text, List.splitOn_intercalate _ _ (by simp [groups])]
  intro group hgroup hmem
  refine u.not_mem_digits ?_
  simp only [groups, List.mem_cons, List.not_mem_nil, or_false] at hgroup
  rcases hgroup with rfl | rfl | rfl | rfl | rfl
  · exact List.mem_of_mem_take hmem
  · exact List.mem_of_mem_drop (List.mem_of_mem_take hmem)
  · exact List.mem_of_mem_drop (List.mem_of_mem_take hmem)
  · exact List.mem_of_mem_drop (List.mem_of_mem_take hmem)
  · exact List.mem_of_mem_drop hmem

theorem length_groups : u.groups.map List.length = [8, 4, 4, 4, 12] := by
  simp [groups, length_digits]

theorem flatten_groups : u.groups.flatten = u.digits := by
  have hnext (n k : ℕ) : (u.digits.drop n).take k ++ u.digits.drop (n + k) = u.digits.drop n := by
    rw [← List.drop_drop, List.take_append_drop]
  simp only [groups, List.flatten_cons, List.flatten_nil, List.append_nil]
  rw [hnext 16 4, hnext 12 4, hnext 8 4, List.take_append_drop]

/-- An identifier that is written is read again. -/
theorem read?_text : read? u.text = some u := by
  have hlength : u.text.toList.length ≠ 32 := by
    rw [toList_text]
    simp [groups, List.intercalate, List.intersperse, length_digits]
  unfold read?
  dsimp only
  rw [ofDigits?, if_neg hlength, ofGroups?, splitOn_text, if_pos u.length_groups, flatten_groups,
    ofDigits?_digits]
  rfl

end EntityQuery.Uuid
