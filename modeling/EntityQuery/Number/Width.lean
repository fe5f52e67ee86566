/-!
# Whole numbers of a fixed width

The ranges of the whole numbers that fit 32 or 64 bits, with and without a sign.

## Main statements

* `toInt_ofInt_of_fitsInt32`, `toInt_ofInt_of_fitsInt64` : a number that fits a width is kept by it
-/

namespace EntityQuery.Width

/-! ## Signed numbers -/

/-- The number fits 32 bits with a sign. -/
def fitsInt32 (n : Int) : Bool := -0x80000000 ≤ n && n < 0x80000000

/-- The number fits 64 bits with a sign. -/
def fitsInt64 (n : Int) : Bool := -0x8000000000000000 ≤ n && n < 0x8000000000000000

theorem toInt_ofInt_of_fitsInt32 {n : Int} (h : fitsInt32 n = true) :
    (Int32.ofInt n).toInt = n := by
  simp only [fitsInt32, Bool.and_eq_true, decide_eq_true_eq] at h
  exact Int32.toInt_ofInt_of_le (by omega) (by omega)

theorem toInt_ofInt_of_fitsInt64 {n : Int} (h : fitsInt64 n = true) :
    (Int64.ofInt n).toInt = n := by
  simp only [fitsInt64, Bool.and_eq_true, decide_eq_true_eq] at h
  exact Int64.toInt_ofInt_of_le (by omega) (by omega)

/-! ## Unsigned numbers -/

/-- The greatest number of 64 bits without a sign. -/
def maxWord : Nat := 0xFFFFFFFFFFFFFFFF

/-- The number fits 64 bits without a sign. -/
def fitsWord (n : Nat) : Bool := n ≤ maxWord

end EntityQuery.Width
