import EntityQuery.Proofs.Number.Binary64
import Mathlib.Algebra.Group.Nat.Defs

/-!
# Whole numbers as finite numbers

A whole number in the range of a machine word is rounded to a finite binary64 number, so nothing
that stems from it is lost where numbers that are not finite are written as null.

## Strategy

Only the exponent decides whether packing overflows, and the exponents of words are far from the
greatest one.  So coarse bounds will do: the exponent of an unpacked number and the number of digits
of its mantissa.  Rounding adds no more to the exponent than there are digits
(`shiftToTargetExponent_le`), a product adds exponents and digits (`isBounded_mul`), and packing and
unpacking leave both within the bounds of the format (`isBounded_unpack`).

## Main definitions

* `IsBounded` : the unpacked form of a finite number, with bounds for its mantissa and its exponent

## Main statements

* `isFinite_pack` : a number of bounded exponent is packed to a finite one
* `isFinite_ofInt` : a whole number of a word is rounded to a finite number
-/

namespace EntityQuery.Binary64

open Float.Model Float.Model.UnpackedFloat

theorem isFinite_iff (x : Float) :
    isFinite x = true ↔ @unpackExponent Format.binary64 x.toBits.toBitVec ≠ -1#11 := by
  have hmantissa := (@unpackMantissa Format.binary64 x.toBits.toBitVec).isLt
  have hexponent := (@unpackExponent Format.binary64 x.toBits.toBitVec).isLt
  simp only [isFinite, magnitude_eq, infinityMagnitude, binade, decide_eq_true_eq, ne_eq,
    ← BitVec.toNat_inj]
  simp only [BitVec.neg_one_eq_allOnes, BitVec.toNat_allOnes] at *
  omega

/-! ## Bounded numbers -/

/-- The unpacked form of a finite number whose mantissa has so many digits and whose exponent is
bounded. -/
def IsBounded (digits : Nat) (bound : Int) : UnpackedFloat → Prop
  | .zero _ => True
  | .finite _ m e _ => m < 2 ^ digits ∧ e ≤ bound
  | _ => False

variable {k l : Nat} {b d : Int} {u v : UnpackedFloat}

theorem IsBounded.mono (hu : IsBounded k b u) (hle : b ≤ d) : IsBounded k d u := by
  cases u with
  | notANumber => exact hu
  | infinity _ => exact hu
  | zero _ => trivial
  | finite _ _ _ _ => exact ⟨hu.1, Int.le_trans hu.2 hle⟩

theorem isBounded_neg (hu : IsBounded k b u) : IsBounded k b u.neg := by
  cases u with
  | notANumber => exact hu
  | infinity _ => exact hu
  | zero _ => trivial
  | finite _ _ _ _ => exact hu

theorem isBounded_dite {p : Prop} [Decidable p] {yes : p → UnpackedFloat} {no : ¬ p → UnpackedFloat}
    (hyes : ∀ h, IsBounded k b (yes h)) (hno : ∀ h, IsBounded k b (no h)) :
    IsBounded k b (if h : p then yes h else no h) := by
  by_cases h : p
  · rw [dif_pos h]
    exact hyes h
  · rw [dif_neg h]
    exact hno h

/-! ## Rounding -/

theorem mantissa_shiftRight_le (em : ExtendedMantissa) (n : Nat) :
    (em >>> n).mantissa ≤ em.mantissa := by
  change (n.repeat ExtendedMantissa.shiftRightOne em).mantissa ≤ _
  induction n with
  | zero => exact Nat.le_refl _
  | succ n ih => exact Nat.le_trans (Nat.div_le_self _ 2) ih

theorem mantissa_ofMantissaAndAccuracy (m : Nat) (a : Accuracy) :
    (ExtendedMantissa.ofMantissaAndAccuracy m a).mantissa = m := by
  unfold ExtendedMantissa.ofMantissaAndAccuracy
  split <;> rfl

theorem roundedMantissa_le (em : ExtendedMantissa) : em.roundedMantissa ≤ em.mantissa + 1 := by
  unfold ExtendedMantissa.roundedMantissa Accuracy.roundToNearestEven
  split <;> omega

theorem log2_le_of_lt {m : Nat} (hm : m < 2 ^ k) : m.log2 ≤ k := by
  by_cases hzero : m = 0
  · simp [hzero]
  · exact Nat.le_of_lt ((Nat.log2_lt hzero).mpr hm)

/-- Shifting to the exponent of the format adds no more to the exponent than there are digits. -/
theorem shiftToTargetExponent_le {m : Nat} (hm : m < 2 ^ k) {e : Int} (he : e ≤ b) (hb : -1074 ≤ b)
    (a : Accuracy) :
    (shiftToTargetExponent Format.binary64 m e a).1.mantissa ≤ m ∧
      (shiftToTargetExponent Format.binary64 m e a).2 ≤ b + k := by
  have hlog := log2_le_of_lt hm
  have hmin : Format.binary64.minExponent = -1074 := rfl
  have hbits : Format.binary64.mantissaBits = 53 := rfl
  constructor
  · refine Nat.le_trans (mantissa_shiftRight_le ..) ?_
    exact Nat.le_of_eq (mantissa_ofMantissaAndAccuracy m a)
  · change e +
      ((max (totalExponent m e - Format.binary64.mantissaBits)
        Format.binary64.minExponent - e).toNat : Int) ≤ _
    rw [hmin, hbits, totalExponent]
    omega

/-- Rounding shifts, rounds up by one at most, and shifts again. -/
theorem isBounded_roundWithAccuracy {m : Nat} (hm : m < 2 ^ k) {e : Int} (he : e ≤ b)
    (hb : -1074 ≤ b) (s : Sign) (a : Accuracy) :
    IsBounded (k + 1) (b + 2 * k + 1) (roundWithAccuracy Format.binary64 s m e a) := by
  obtain ⟨hmantissa, hexponent⟩ := shiftToTargetExponent_le hm he hb a
  unfold roundWithAccuracy
  dsimp only
  generalize shiftToTargetExponent Format.binary64 m e a = shifted at *
  have hrounded : shifted.1.roundedMantissa < 2 ^ (k + 1) := by
    have := roundedMantissa_le shifted.1
    rw [Nat.pow_succ]
    omega
  obtain ⟨hdigits, hfinal⟩ := shiftToTargetExponent_le hrounded hexponent (by omega) .exact
  refine isBounded_dite (fun _ => trivial) fun _ => ?_
  exact ⟨Nat.lt_of_le_of_lt hdigits hrounded, Int.le_trans hfinal (by omega)⟩

/-- A product has the sum of the exponents, and rounding adds no more than the digits of both. -/
theorem isBounded_mul (hu : IsBounded k b u) (hv : IsBounded l d v) (hsum : -1074 ≤ b + d) :
    IsBounded (k + l + 1) (b + d + 2 * (k + l) + 1) (mul Format.binary64 u v) := by
  cases u with
  | notANumber => exact absurd hu id
  | infinity _ => exact absurd hu id
  | zero _ =>
    cases v with
    | notANumber => exact absurd hv id
    | infinity _ => exact absurd hv id
    | zero _ => trivial
    | finite _ _ _ _ => trivial
  | finite s m e hm =>
    cases v with
    | notANumber => exact absurd hv id
    | infinity _ => exact absurd hv id
    | zero _ => trivial
    | finite s' m' e' hm' =>
      have hproduct : m * m' < 2 ^ (k + l) := by
        rw [Nat.pow_add]
        exact Nat.mul_lt_mul'' hu.1 hv.1
      have hrounded :=
        isBounded_roundWithAccuracy hproduct (Int.add_le_add hu.2 hv.2) hsum (s * s') .exact
      rwa [Int.natCast_add] at hrounded

/-! ## Packing -/

theorem toNat_unpackExponent_pack (hb : -1074 ≤ b) (hsmall : b ≤ 971) (hu : IsBounded k b u) :
    ((unpackExponent (UnpackedFloat.pack Format.binary64 u)).toNat : Int) ≤ b + 1075 := by
  fun_cases UnpackedFloat.pack Format.binary64 u with
  | case1 => exact absurd hu id
  | case2 s => exact absurd hu id
  | case3 s =>
    simp [packedZero]
    omega
  | case4 s m e hm biased hlarge =>
    have hlarge : 2 ^ 11 ≤ (e + 1023 + 52).toNat + 1 := hlarge
    have := hu.2
    omega
  | case5 s m e hm bits biased hnotlarge hnormal =>
    have hbiased : biased = (e + 1023 + 52).toNat := rfl
    have := hu.2
    simp only [unpackExponent_packComponents, BitVec.toNat_ofNat]
    omega
  | case6 s m e hm bits biased hnotlarge hsubnormal =>
    simp
    omega

/-- A number of bounded exponent is packed to a finite one. -/
theorem isFinite_pack (hb : -1074 ≤ b) (hsmall : b ≤ 971) (hu : IsBounded k b u) :
    isFinite (.ofModel (.pack u)) = true := by
  rw [isFinite_iff]
  change unpackExponent (UnpackedFloat.pack Format.binary64 u) ≠ _
  intro hexponent
  have hlt := toNat_unpackExponent_pack hb hsmall hu
  rw [hexponent] at hlt
  simp only [BitVec.neg_one_eq_allOnes, BitVec.toNat_allOnes] at hlt
  omega

/-- What has been packed is unpacked with the digits of the format, and with an exponent bounded as
before. -/
theorem isBounded_unpack (hb : -1074 ≤ b) (hsmall : b ≤ 971) (hu : IsBounded k b u) :
    IsBounded 53 b (Float.ofModel (.pack u)).toModel.unpack := by
  change IsBounded 53 b
    (UnpackedFloat.unpack Format.binary64 (UnpackedFloat.pack Format.binary64 u))
  have hexponent := toNat_unpackExponent_pack hb hsmall hu
  generalize UnpackedFloat.pack Format.binary64 u = word at *
  have hmantissa := (unpackMantissa word).isLt
  have hbias : Format.binary64.exponentBias = 1023 := rfl
  have hgreatest : unpackExponent word ≠ -1#11 := by
    intro hgreatest
    rw [hgreatest] at hexponent
    simp only [BitVec.neg_one_eq_allOnes, BitVec.toNat_allOnes] at hexponent
    omega
  unfold UnpackedFloat.unpack
  dsimp only
  rw [if_neg hgreatest]
  by_cases hzero : unpackExponent word = 0#11
  · rw [if_pos hzero]
    refine isBounded_dite (fun _ => trivial) fun _ => ?_
    refine ⟨Nat.lt_trans hmantissa (show 2 ^ 52 < 2 ^ 53 by decide), ?_⟩
    rw [hzero, hbias]
    simp
    omega
  · rw [if_neg hzero]
    refine ⟨(1#1 ++ unpackMantissa word).isLt, ?_⟩
    rw [hbias]
    omega

/-! ## Whole numbers of a word -/

variable {n : Nat} (hn : n < 2 ^ 64)
include hn

theorem isBounded_ofNat : IsBounded 118 235 (UnpackedFloat.ofNat Format.binary64 n) := by
  unfold UnpackedFloat.ofNat UnpackedFloat.ofInt UnpackedFloat.normalize UnpackedFloat.round
  split
  · next h =>
    have hneg : (n : Int) < 0 := Int.compare_eq_lt.mp h
    omega
  · trivial
  · rw [Int.toNat_natCast]
    unfold decreaseExponent
    dsimp only
    have hshift : (0 - Format.binary64.targetExponent (totalExponent n 0)).toNat ≤ 53 := by
      have hbits : Format.binary64.mantissaBits = 53 := rfl
      rw [Format.targetExponent, hbits, totalExponent]
      omega
    have hmantissa : n <<< (0 - Format.binary64.targetExponent (totalExponent n 0)).toNat <
        2 ^ 117 := by
      rw [Nat.shiftLeft_eq]
      calc n * 2 ^ _ < 2 ^ 64 * 2 ^ _ := Nat.mul_lt_mul_of_pos_right hn (Nat.two_pow_pos _)
        _ ≤ 2 ^ 64 * 2 ^ 53 := Nat.mul_le_mul_left _ (Nat.pow_le_pow_right (by omega) hshift)
        _ = 2 ^ 117 := by decide
    exact isBounded_roundWithAccuracy (e := 0 - _) (b := 0) hmantissa (by omega) (by omega) _ _

theorem isBounded_ofScientific :
    IsBounded 119 971 (UnpackedFloat.ofScientific Format.binary64 n 0) := by
  have hbits : Format.binary64.mantissaBits = 53 := rfl
  have hexponents : Format.binary64.exponentBits = 11 := rfl
  unfold UnpackedFloat.ofScientific
  refine isBounded_dite (fun _ => trivial) fun _ => ?_
  rw [if_neg (by simp), if_neg (by rw [hexponents]; omega), if_pos (by omega)]
  -- all digits of the format stand behind the word, and the power of ten is one
  generalize hword : UnpackedFloat.finite .positive (n <<< Format.binary64.mantissaBits)
    (-(Format.binary64.mantissaBits : Int)) _ = u
  generalize hten : UnpackedFloat.finite .positive (10 ^ (0 : Int).toNat) 0 _ = v
  have hu : IsBounded 117 (-53) u := by
    rw [← hword]
    have hshifted : n <<< Format.binary64.mantissaBits < 2 ^ 117 := by
      rw [Nat.shiftLeft_eq, hbits]
      omega
    have hexponent : -(Format.binary64.mantissaBits : Int) ≤ -53 := by omega
    exact ⟨hshifted, hexponent⟩
  have hv : IsBounded 1 0 v := by
    rw [← hten]
    exact ⟨by decide, by omega⟩
  exact (isBounded_mul hu hv (by omega)).mono (by decide)

/-- A natural number of a word is packed from a bounded number. -/
theorem exists_pack_ofNat : ∃ k u, IsBounded k 971 u ∧ Float.ofNat n = .ofModel (.pack u) := by
  change ∃ k u, IsBounded k 971 u ∧ Float.ofScientific n false 0 = .ofModel (.pack u)
  unfold Float.ofScientific
  split
  · -- an exact word times one
    have hone : IsBounded 53 (-52) (Float.ofBits 0x3FF0000000000000).toModel.unpack := by
      rw [show (Float.ofBits 0x3FF0000000000000).toModel.unpack =
        .finite .positive (2 ^ 52) (-52) (by decide) from rfl]
      exact ⟨by decide, by omega⟩
    have hword := isBounded_unpack (by omega) (by omega) (isBounded_ofNat n.toUInt64.toNat_lt)
    exact ⟨_, _, (isBounded_mul hword hone (by omega)).mono (by decide), rfl⟩
  · exact ⟨_, _, isBounded_ofScientific hn, rfl⟩

omit hn in
/-- A whole number of a word is rounded to a finite number. -/
theorem isFinite_ofInt {n : Int} (hn : n.natAbs < 2 ^ 64) : isFinite (Float.ofInt n) = true := by
  cases n with
  | ofNat n =>
    obtain ⟨k, u, hu, hpack⟩ := exists_pack_ofNat (n := n) hn
    change isFinite (Float.ofNat n) = true
    rw [hpack]
    exact isFinite_pack (by omega) (by omega) hu
  | negSucc n =>
    obtain ⟨k, u, hu, hpack⟩ := exists_pack_ofNat (n := n.succ) hn
    change isFinite (.ofModel (.pack (Float.ofNat n.succ).toModel.unpack.neg)) = true
    rw [hpack]
    exact isFinite_pack (by omega) (by omega)
      (isBounded_neg (isBounded_unpack (by omega) (by omega) hu))

end EntityQuery.Binary64
