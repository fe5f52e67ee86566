import EntityQuery.Text.Basic
import Mathlib.Algebra.Group.Nat.Defs
import Mathlib.Data.List.Induction

/-!
# Numbers in digits

A number is written in decimal digits, filled with zeros on the left, and read from its digits.
Zeros on the left do not count, so what is written is read as the same number again; the same holds
of hexadecimal digits.

## Main statements

* `number_padded` : a decimal number is read again
* `length_padded` : a number that is small enough has as many digits as asked for
* `number_lt` : the number of some digits
* `hexNumber?_toDigits` : a hexadecimal number is read again
-/

namespace EntityQuery.Text

variable {width n : ℕ} {ds : List Char} {c : Char}

/-! ## Decimal digits -/

theorem number_eq (ds : List Char) : number ds = Nat.ofDigitChars 10 ds 0 := by
  rw [Nat.ofDigitChars_eq_foldl]
  rfl

theorem toList_padded (width n : ℕ) :
    (padded width n).toList = List.replicate (width - (Nat.toDigits 10 n).length) '0' ++
      Nat.toDigits 10 n :=
  String.toList_ofList

@[simp] theorem number_padded (width n : ℕ) : number (padded width n).toList = n := by
  rw [number_eq, toList_padded, Nat.ofDigitChars_append, Nat.ofDigitChars_replicate_zero,
    Nat.mul_zero, Nat.ofDigitChars_ten_toDigits]

theorem isDigit_of_mem_padded (hc : c ∈ (padded width n).toList) : c.isDigit = true := by
  rw [toList_padded, List.mem_append] at hc
  rcases hc with hc | hc
  · rw [List.eq_of_mem_replicate hc]
    rfl
  · exact Nat.isDigit_of_mem_toDigits (by decide) (by decide) hc

theorem le_length_padded (width n : ℕ) : width ≤ (padded width n).toList.length := by
  rw [toList_padded, List.length_append, List.length_replicate]
  omega

/-- A number with not too many digits is filled up. -/
theorem length_padded (hwidth : 0 < width) (hn : n < 10 ^ width) :
    (padded width n).toList.length = width := by
  have hlength := (Nat.length_toDigits_le_iff (by decide) hwidth).mpr hn
  rw [toList_padded, List.length_append, List.length_replicate]
  omega

theorem number_append_zeros (ds : List Char) (k : ℕ) :
    number (ds ++ List.replicate k '0') = 10 ^ k * number ds := by
  rw [number_eq, number_eq, Nat.ofDigitChars_append, Nat.ofDigitChars_replicate_zero]

theorem digitValue_lt (hc : c.isDigit = true) : digitValue c < 10 := by
  have hcode := (Char.isDigit_iff_toNat.mp hc).2
  have hnine : '9'.toNat = 57 := rfl
  have hzero : '0'.toNat = 48 := rfl
  unfold digitValue
  omega

theorem number_lt (hds : ∀ c ∈ ds, c.isDigit = true) : number ds < 10 ^ ds.length := by
  induction ds using List.reverseRecOn with
  | nil => decide
  | append_singleton ds c ih =>
      rw [List.forall_mem_append, List.forall_mem_singleton] at hds
      have hlast := digitValue_lt hds.2
      have hfront := ih hds.1
      have hnumber : number (ds ++ [c]) = 10 * number ds + digitValue c := by
        rw [number, List.foldl_append]
        rfl
      rw [hnumber, List.length_append, List.length_singleton, Nat.pow_succ]
      omega

/-! ## Hexadecimal digits -/

theorem hexValue?_digitChar {d : ℕ} (hd : d < 16) : hexValue? d.digitChar = some d := by
  decide +revert

theorem toDigits_sixteen (n : ℕ) :
    Nat.toDigits 16 n = (if n < 16 then [] else Nat.toDigits 16 (n / 16)) ++
      [(n % 16).digitChar] := by
  rw [Nat.toDigits_eq_if (by decide)]
  split
  · next hn => rw [Nat.mod_eq_of_lt hn, List.nil_append]
  · rfl

theorem isSome_hexValue?_of_mem_toDigits (hc : c ∈ Nat.toDigits 16 n) :
    (hexValue? c).isSome = true := by
  induction n using Nat.strongRecOn with
  | ind n ih =>
      rw [toDigits_sixteen, List.mem_append, List.mem_singleton] at hc
      rcases hc with hc | rfl
      · split at hc
        · simp at hc
        · exact ih (n / 16) (by omega) hc
      · rw [hexValue?_digitChar (Nat.mod_lt n (by decide))]
        rfl

theorem hexNumber?_append (ds : List Char) (c : Char) :
    hexNumber? (ds ++ [c]) = (hexNumber? ds).bind fun n => (hexValue? c).map (16 * n + ·) := by
  unfold hexNumber?
  rw [List.foldlM_append]
  cases List.foldlM (fun n c => (hexValue? c).map (16 * n + ·)) 0 ds <;> simp

/-- A number in hexadecimal digits is read again. -/
theorem hexNumber?_toDigits (n : ℕ) : hexNumber? (Nat.toDigits 16 n) = some n := by
  induction n using Nat.strongRecOn with
  | ind n ih =>
      rw [toDigits_sixteen, hexNumber?_append, hexValue?_digitChar (Nat.mod_lt n (by decide))]
      split
      · next hn => simp [hexNumber?, Nat.mod_eq_of_lt hn]
      · rw [ih (n / 16) (by omega)]
        simp [Nat.div_add_mod]

theorem hexNumber?_zeros_append (k : ℕ) (ds : List Char) :
    hexNumber? (List.replicate k '0' ++ ds) = hexNumber? ds := by
  induction k with
  | zero => rfl
  | succ k ih => exact ih

end EntityQuery.Text
