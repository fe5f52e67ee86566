import EntityQuery.Number.Binary64
import Mathlib.Tactic.Common

/-!
# Values that are numbers

A binary64 value is a number exactly if its unpacked form is not the value that stands for no
number.  What whole numbers are rounded to is always a number, be it an infinite one, so the order
of values that stem from whole numbers is never undefined.

## Main statements

* `isNumeric_unpack_iff` : a value is a number exactly if its unpacked form is that of one
* `isNumber_ofInt` : a whole number is rounded to a number
* `compare?_isSome` : two numbers have an order
-/

namespace EntityQuery.Binary64

open Float.Model Float.Model.UnpackedFloat

/-! ## The parts of a word -/

theorem toNat_unpackMantissa (b : BitVec 64) :
    (@unpackMantissa Format.binary64 b).toNat = b.toNat % binade := by
  simp [unpackMantissa, binade]

theorem toNat_unpackExponent (b : BitVec 64) :
    (@unpackExponent Format.binary64 b).toNat = b.toNat / binade % 2048 := by
  simp [unpackExponent, binade, Nat.shiftRight_eq_div_pow]

theorem magnitude_eq (x : Float) :
    magnitude x = (@unpackExponent Format.binary64 x.toBits.toBitVec).toNat * binade +
      (@unpackMantissa Format.binary64 x.toBits.toBitVec).toNat := by
  rw [toNat_unpackExponent, toNat_unpackMantissa]
  unfold magnitude signBit binade
  change x.toBits.toNat % _ = x.toBits.toNat / 4503599627370496 % 2048 * 4503599627370496 +
    x.toBits.toNat % 4503599627370496
  omega

theorem isNumber_iff (x : Float) :
    isNumber x = true ↔ (@unpackExponent Format.binary64 x.toBits.toBitVec = -1#11 →
      @unpackMantissa Format.binary64 x.toBits.toBitVec = 0#52) := by
  have hmantissa := (@unpackMantissa Format.binary64 x.toBits.toBitVec).isLt
  have hexponent := (@unpackExponent Format.binary64 x.toBits.toBitVec).isLt
  simp only [isNumber, magnitude_eq, infinityMagnitude, binade, decide_eq_true_eq,
    ← BitVec.toNat_inj]
  simp only [BitVec.neg_one_eq_allOnes, BitVec.toNat_allOnes, BitVec.toNat_ofNat] at *
  omega

/-! ## Unpacked forms -/

/-- The unpacked form of a number. -/
def IsNumeric : UnpackedFloat → Prop
  | .notANumber => False
  | _ => True

theorem isNumeric_ite {p : Prop} [Decidable p] {u v : UnpackedFloat} (hu : IsNumeric u)
    (hv : IsNumeric v) : IsNumeric (if p then u else v) := by
  by_cases h : p
  · rwa [if_pos h]
  · rwa [if_neg h]

theorem isNumeric_dite {p : Prop} [Decidable p] {u : p → UnpackedFloat} {v : ¬ p → UnpackedFloat}
    (hu : ∀ h, IsNumeric (u h)) (hv : ∀ h, IsNumeric (v h)) :
    IsNumeric (if h : p then u h else v h) := by
  by_cases h : p
  · rw [dif_pos h]
    exact hu h
  · rw [dif_neg h]
    exact hv h

theorem isNumeric_unpack_iff (x : Float) : IsNumeric x.toModel.unpack ↔ isNumber x = true := by
  rw [isNumber_iff]
  change IsNumeric (UnpackedFloat.unpack Format.binary64 x.toBits.toBitVec) ↔ _
  unfold UnpackedFloat.unpack
  dsimp only
  by_cases hexponent : @unpackExponent Format.binary64 x.toBits.toBitVec = -1#11
  · rw [if_pos hexponent]
    by_cases hmantissa : @unpackMantissa Format.binary64 x.toBits.toBitVec = 0#52
    · rw [if_pos hmantissa]
      exact iff_of_true trivial fun _ => hmantissa
    · rw [if_neg hmantissa]
      exact iff_of_false id fun h => hmantissa (h hexponent)
  · refine iff_of_true ?_ fun h => absurd h hexponent
    rw [if_neg hexponent]
    exact isNumeric_ite (isNumeric_dite (fun _ => trivial) fun _ => trivial) trivial

/-- Packing makes numbers of the unpacked forms of numbers; what is too great becomes infinite. -/
theorem isNumber_pack {u : UnpackedFloat} (hu : IsNumeric u) :
    isNumber (.ofModel (.pack u)) = true := by
  rw [isNumber_iff]
  change unpackExponent (UnpackedFloat.pack Format.binary64 u) = _ →
    unpackMantissa (UnpackedFloat.pack Format.binary64 u) = _
  fun_cases UnpackedFloat.pack Format.binary64 u with
  | case1 => exact absurd hu (by simp [IsNumeric])
  | case2 s => simp [packedInfinity]
  | case3 s => simp [packedZero]
  | case4 s m e hm biased hlarge => simp [packedInfinity]
  | case5 s m e hm bits biased hsmall hnormal =>
    intro hexponent
    have hlt : biased + 1 < 2 ^ 11 := Nat.lt_of_not_le hsmall
    have hvalue := congrArg BitVec.toNat hexponent
    simp only [unpackExponent_packComponents, BitVec.toNat_ofNat, BitVec.neg_one_eq_allOnes,
      BitVec.toNat_allOnes] at hvalue
    omega
  | case6 s m e hm bits biased hsmall hsubnormal => simp

theorem isNumeric_roundWithAccuracy (s : Sign) (m : Nat) (e : Int) (a : Accuracy) :
    IsNumeric (roundWithAccuracy Format.binary64 s m e a) := by
  unfold roundWithAccuracy
  dsimp only
  exact isNumeric_dite (fun _ => trivial) fun _ => trivial

theorem isNumeric_normalize (m e : Int) (s : Sign) :
    IsNumeric (UnpackedFloat.normalize Format.binary64 m e s) := by
  unfold UnpackedFloat.normalize
  split
  · exact isNumeric_roundWithAccuracy ..
  · trivial
  · exact isNumeric_roundWithAccuracy ..

theorem isNumeric_mul_finite {u : UnpackedFloat} (hu : IsNumeric u) (s : Sign) (m : Nat) (e : Int)
    (hm : 0 < m) : IsNumeric (mul Format.binary64 u (.finite s m e hm)) := by
  cases u with
  | notANumber => exact absurd hu (by simp [IsNumeric])
  | infinity _ => trivial
  | zero _ => trivial
  | finite _ _ _ _ => exact isNumeric_roundWithAccuracy ..

theorem isNumeric_neg {u : UnpackedFloat} (hu : IsNumeric u) : IsNumeric u.neg := by
  cases u with
  | notANumber => exact absurd hu id
  | infinity _ => trivial
  | zero _ => trivial
  | finite _ _ _ _ => trivial

theorem isNumeric_ofScientific (m e : Nat) :
    IsNumeric (UnpackedFloat.ofScientific Format.binary64 m e) := by
  unfold UnpackedFloat.ofScientific
  refine isNumeric_dite (fun _ => trivial) fun _ => isNumeric_ite trivial (isNumeric_ite trivial ?_)
  rw [if_pos (Int.natCast_nonneg e)]
  exact isNumeric_mul_finite (u := .finite ..) trivial ..

/-! ## Whole numbers -/

theorem isNumber_toFloat (n : UInt64) : isNumber n.toFloat = true :=
  isNumber_pack (isNumeric_normalize ..)

theorem isNumber_ofNat (n : Nat) : isNumber (Float.ofNat n) = true := by
  change isNumber (Float.ofScientific n false 0) = true
  unfold Float.ofScientific
  split
  · -- an exact word times one
    change isNumber (.ofModel (.pack (mul Format.binary64 (UInt64.toFloat n.toUInt64).toModel.unpack
      (Float.ofBits 0x3FF0000000000000).toModel.unpack))) = true
    refine isNumber_pack ?_
    rw [show (Float.ofBits 0x3FF0000000000000).toModel.unpack =
      .finite .positive (2 ^ 52) (-52) (by decide) from rfl]
    exact isNumeric_mul_finite ((isNumeric_unpack_iff _).mpr (isNumber_toFloat _)) ..
  · exact isNumber_pack (isNumeric_ofScientific n 0)

theorem isNumber_ofInt (n : Int) : isNumber (Float.ofInt n) = true := by
  cases n with
  | ofNat n => exact isNumber_ofNat n
  | negSucc n =>
    change isNumber (.ofModel (.pack (Float.ofNat n.succ).toModel.unpack.neg)) = true
    exact isNumber_pack (isNumeric_neg ((isNumeric_unpack_iff _).mpr (isNumber_ofNat _)))

theorem compare?_isSome {x y : Float} (hx : isNumber x = true) (hy : isNumber y = true) :
    (compare? x y).isSome = true := by
  rw [compare?_eq_some hx hy]
  rfl

end EntityQuery.Binary64
