import Mathlib

/-! # Floating-point numbers of at least one

Scaling a positive machine word by a factor greater than one and truncating the product gives a
positive word (`Binary64.one_le_toUInt64_mul`), while a factor that is not a number gives zero
(`Binary64.toUInt64_mul_of_isNaN`). Rounding, packing and multiplication keep numbers of at least
one in a form with 53 bits of mantissa (`Binary64.AtLeastOne`).
-/

namespace Binary64

open Float.Model Float.Model.UnpackedFloat BitVec Format

/-- The rounded numbers that are one or greater. -/
def AtLeastOne : UnpackedFloat → Prop
  | .infinity .positive => True
  | .finite .positive mantissa exponent _ =>
    2 ^ 52 ≤ mantissa ∧ mantissa < 2 ^ 53 ∧ -52 ≤ exponent
  | _ => False

variable {mantissa : ℕ} {exponent : ℤ} {sign : Sign} {number : UnpackedFloat}

section Rounding
variable (extended : ExtendedMantissa) (accuracy : Accuracy)

theorem mantissa_shiftRight (amount : ℕ) :
    (extended >>> amount).mantissa = extended.mantissa / 2 ^ amount := by
  induction amount with
  | zero => exact (Nat.div_one _).symm
  | succ amount ih =>
    change (extended >>> amount).mantissa / 2 = _
    rw [ih, Nat.div_div_eq_div_mul, Nat.pow_succ]

theorem le_roundedMantissa :
    extended.mantissa ≤ extended.roundedMantissa ∧
      extended.roundedMantissa ≤ extended.mantissa + 1 := by
  obtain ⟨mantissa, roundBit, stickyBit⟩ := extended
  cases roundBit <;> cases stickyBit <;>
    simp only [ExtendedMantissa.roundedMantissa, ExtendedMantissa.accuracy,
      Accuracy.roundToNearestEven] <;> omega

theorem mantissa_ofMantissaAndAccuracy (mantissa : ℕ) (accuracy : Accuracy) :
    (ExtendedMantissa.ofMantissaAndAccuracy mantissa accuracy).mantissa = mantissa := by
  cases accuracy with
  | exact => rfl
  | inexact order => cases order <;> rfl

theorem shiftToTargetExponent_large (large : 52 ≤ mantissa.log2)
    (whole : 0 ≤ mantissa.log2 + exponent) :
    (shiftToTargetExponent binary64 mantissa exponent accuracy).1.mantissa =
        mantissa / 2 ^ (mantissa.log2 - 52) ∧
      (shiftToTargetExponent binary64 mantissa exponent accuracy).2 =
        mantissa.log2 - 52 + exponent := by
  have target : binary64.targetExponent (totalExponent mantissa exponent) =
      mantissa.log2 - 52 + exponent := by
    simp only [targetExponent, totalExponent, mantissaBits, minExponent]
    omega
  have amount : (mantissa.log2 - 52 + exponent - exponent).toNat = mantissa.log2 - 52 := by omega
  constructor
  · simp only [shiftToTargetExponent, shiftToExponent, target, amount, mantissa_shiftRight,
      mantissa_ofMantissaAndAccuracy]
  · simp only [shiftToTargetExponent, shiftToExponent, target, amount]
    omega

theorem log2_eq_of_bounds (lower : 2 ^ 52 ≤ mantissa) (upper : mantissa < 2 ^ 53) :
    mantissa.log2 = 52 := by
  have positive : mantissa ≠ 0 := by omega
  have below := (Nat.log2_lt positive).mpr upper
  have above := (Nat.le_log2 positive).mpr lower
  omega

theorem shifted_bounds (large : 52 ≤ mantissa.log2) :
    2 ^ 52 ≤ mantissa / 2 ^ (mantissa.log2 - 52) ∧
      mantissa / 2 ^ (mantissa.log2 - 52) < 2 ^ 53 := by
  have positive : mantissa ≠ 0 := by
    rintro rfl
    simp at large
  constructor
  · apply (Nat.le_div_iff_mul_le (Nat.two_pow_pos _)).mpr
    rw [← Nat.pow_add, show 52 + (mantissa.log2 - 52) = mantissa.log2 by omega]
    exact Nat.log2_self_le positive
  · apply (Nat.div_lt_iff_lt_mul (Nat.two_pow_pos _)).mpr
    rw [← Nat.pow_add, show 53 + (mantissa.log2 - 52) = mantissa.log2 + 1 by omega]
    exact Nat.lt_log2_self

/-- Rounding a large enough number gives a number of at least one. -/
theorem atLeastOne_roundWithAccuracy (large : 52 ≤ mantissa.log2)
    (whole : 0 ≤ mantissa.log2 + exponent) :
    AtLeastOne (roundWithAccuracy binary64 .positive mantissa exponent accuracy) := by
  obtain ⟨first, shifted⟩ := shiftToTargetExponent_large accuracy large whole
  obtain ⟨lower, upper⟩ := shifted_bounds large
  unfold roundWithAccuracy
  generalize shiftToTargetExponent binary64 mantissa exponent accuracy = step
    at first shifted
  obtain ⟨extended, raised⟩ := step
  dsimp only at first shifted ⊢
  rw [← first] at lower upper
  obtain ⟨below, above⟩ := le_roundedMantissa extended
  generalize extended.roundedMantissa = rounded at below above
  have bits : rounded.log2 = 52 ∨ rounded.log2 = 53 ∧ rounded = 2 ^ 53 := by
    rcases Nat.lt_or_ge rounded (2 ^ 53) with small | full
    · exact .inl (log2_eq_of_bounds (lower.trans below) small)
    · have carried : rounded = 2 ^ 53 := by omega
      exact .inr ⟨by rw [carried, Nat.log2_two_pow], carried⟩
  obtain ⟨second, final⟩ := shiftToTargetExponent_large .exact
    (show 52 ≤ rounded.log2 by omega) (show 0 ≤ rounded.log2 + raised by omega)
  generalize shiftToTargetExponent binary64 rounded raised .exact = step at second final
  obtain ⟨extended', raised'⟩ := step
  dsimp only at second final ⊢
  have bounds : 2 ^ 52 ≤ extended'.mantissa ∧ extended'.mantissa < 2 ^ 53 := by
    rw [second]
    exact shifted_bounds (by omega)
  rw [dif_neg (by omega)]
  exact ⟨bounds.1, bounds.2, by omega⟩

end Rounding

theorem unpackSign_packComponents {spec : Format} {exponent : BitVec spec.exponentBits}
    {mantissa : BitVec spec.mantissaBitsWithoutImplicit} :
    unpackSign (packComponents spec sign exponent mantissa) = sign.toBitVec := by
  ext i inside
  obtain rfl : i = 0 := by omega
  simp [unpackSign, packComponents, getElem_append, getLsbD_append]

theorem unpack_packComponents {biased : ℕ} (nonzero : 0 < biased) (fits : biased < 2047)
    (lower : 2 ^ 52 ≤ mantissa) (upper : mantissa < 2 ^ 53) :
    UnpackedFloat.unpack binary64 (packComponents binary64 sign
        (BitVec.ofNat 11 biased) (BitVec.ofNat 52 mantissa)) =
      .finite sign mantissa (biased - 1075) (by omega) := by
  have word : (BitVec.ofNat 11 biased).toNat = biased := by
    rw [toNat_ofNat]
    exact Nat.mod_eq_of_lt (by omega)
  have notFull : BitVec.ofNat 11 biased ≠ -1#11 := by
    intro full
    have value : (BitVec.ofNat 11 biased).toNat = 2047 := congrArg BitVec.toNat full
    omega
  have notZero : BitVec.ofNat 11 biased ≠ 0#11 := by
    intro none_
    have value : (BitVec.ofNat 11 biased).toNat = 0 := congrArg BitVec.toNat none_
    omega
  have restored : (1#1 ++ BitVec.ofNat 52 mantissa).toNat = mantissa := by
    rw [BitVec.toNat_append, ← Nat.shiftLeft_add_eq_or_of_lt (BitVec.isLt _), Nat.shiftLeft_eq]
    simp only [toNat_ofNat]
    omega
  simp only [UnpackedFloat.unpack, unpackExponent_packComponents, unpackMantissa_packComponents,
    unpackSign_packComponents, if_neg notFull, if_neg notZero, word, restored]
  cases sign <;> rfl

theorem AtLeastOne.unpack_pack (large : AtLeastOne number) :
    AtLeastOne (Float.Model.pack number).unpack := by
  match number, large with
  | .infinity .positive, _ => exact trivial
  | .finite .positive mantissa exponent positive, ⟨lower, upper, whole⟩ =>
    have normal : mantissa.log2 + 1 = binary64.mantissaBits := by
      rw [log2_eq_of_bounds lower upper]
      rfl
    have bias : binary64.exponentBias = 1023 := rfl
    simp only [Float.Model.unpack, Float.Model.pack, UnpackedFloat.pack, if_pos normal, bias]
    split
    · exact trivial
    · rw [unpack_packComponents (by omega) (by omega) lower upper]
      exact ⟨lower, upper, by omega⟩

theorem atLeastOne_ofUInt64 {word : UInt64} (positive : 0 < word.toNat) :
    AtLeastOne (Float.Model.ofUInt64 word).unpack := by
  apply AtLeastOne.unpack_pack
  have nonzero : word.toNat ≠ 0 := positive.ne'
  simp only [UnpackedFloat.ofUInt64, UnpackedFloat.ofNat, UnpackedFloat.ofInt,
    UnpackedFloat.normalize]
  have greater : compare (word.toNat : ℤ) 0 = .gt := Int.compare_eq_gt.mpr (by omega)
  rw [greater]
  dsimp only
  rw [Int.toNat_natCast]
  unfold UnpackedFloat.round decreaseExponent
  dsimp only
  have target : binary64.targetExponent (totalExponent word.toNat 0) =
      word.toNat.log2 - 52 := by
    simp only [targetExponent, totalExponent, mantissaBits, minExponent]
    omega
  rw [target, Nat.shiftLeft_eq]
  generalize amount : (0 - ((word.toNat.log2 : ℤ) - 52)).toNat = shift
  have bits : word.toNat.log2 + shift ≤ (word.toNat * 2 ^ shift).log2 := by
    apply (Nat.le_log2 (Nat.mul_ne_zero nonzero (Nat.two_pow_pos _).ne')).mpr
    rw [Nat.pow_add]
    exact Nat.mul_le_mul_right _ (Nat.log2_self_le nonzero)
  exact atLeastOne_roundWithAccuracy .exact (by omega) (by omega)

/-- Finite numbers are normal or have the smallest exponent. -/
theorem unpack_eq_finite {number : Float.Model} {positive : 0 < mantissa}
    (finite : number.unpack = .finite sign mantissa exponent positive) :
    (2 ^ 52 ≤ mantissa ∧ mantissa < 2 ^ 53) ∨ exponent = -1074 := by
  unfold Float.Model.unpack UnpackedFloat.unpack at finite
  dsimp only at finite
  split at finite
  · split at finite <;> contradiction
  · split at finite
    · next subnormal =>
      split at finite
      · contradiction
      · obtain ⟨-, -, rfl⟩ := UnpackedFloat.finite.inj finite
        rw [subnormal]
        exact .inr rfl
    · obtain ⟨-, rfl, -⟩ := UnpackedFloat.finite.inj finite
      refine .inl ?_
      generalize unpackMantissa _ = fraction
      have bounded := fraction.isLt
      rw [BitVec.toNat_append, ← Nat.shiftLeft_add_eq_or_of_lt bounded, Nat.shiftLeft_eq]
      simp only [toNat_ofNat] at bounded ⊢
      omega

theorem atLeastOne_of_not_le {number : Float} (isNumber : number.isNaN = false)
    (above : ¬ number ≤ 1.0) : AtLeastOne number.toModel.unpack := by
  have one : (1.0 : Float).toModel.unpack = .finite .positive (2 ^ 52) (-52) (by decide) := rfl
  have greater :
      ¬ number.toModel.unpack.le (.finite .positive (2 ^ 52) (-52) (by decide)) = true := by
    rw [← one]
    exact fun below => above (decide_eq_true below)
  have isNumber' : number.toModel.unpack.isNaN = false := isNumber
  cases shape : number.toModel.unpack with
  | notANumber =>
    rw [shape] at isNumber'
    contradiction
  | infinity sign =>
    cases sign with
    | positive => trivial
    | negative =>
      rw [shape] at greater
      exact absurd rfl greater
  | zero sign =>
    rw [shape] at greater
    exact absurd rfl greater
  | finite sign mantissa exponent positive =>
    rw [shape] at greater
    cases sign with
    | negative => exact absurd rfl greater
    | positive =>
      simp only [UnpackedFloat.le, UnpackedFloat.compare, Option.any_some] at greater
      have whole : -52 ≤ exponent := by
        by_contra below
        rw [Int.compare_eq_lt.mpr (Int.lt_of_not_ge below)] at greater
        exact greater rfl
      rcases unpack_eq_finite shape with ⟨lower, upper⟩ | subnormal
      · exact ⟨lower, upper, whole⟩
      · omega

theorem AtLeastOne.mul {left right : UnpackedFloat} (leftLarge : AtLeastOne left)
    (rightLarge : AtLeastOne right) :
    AtLeastOne (UnpackedFloat.mul binary64 left right) := by
  match left, leftLarge, right, rightLarge with
  | .infinity .positive, _, .infinity .positive, _ => trivial
  | .infinity .positive, _, .finite .positive .., _ => trivial
  | .finite .positive .., _, .infinity .positive, _ => trivial
  | .finite .positive mantissa exponent _, ⟨lower, upper, whole⟩,
      .finite .positive mantissa' exponent' _, ⟨lower', upper', whole'⟩ =>
      have product : 2 ^ 104 ≤ mantissa * mantissa' := by
        rw [show 104 = 52 + 52 from rfl, Nat.pow_add]
        exact Nat.mul_le_mul lower lower'
      have bits : 104 ≤ (mantissa * mantissa').log2 :=
        (Nat.le_log2 (by omega)).mpr product
      exact atLeastOne_roundWithAccuracy .exact (by omega) (by omega)

theorem AtLeastOne.toUInt64 (large : AtLeastOne number) :
    1 ≤ number.toUInt64.toNat := by
  match number, large with
  | .infinity .positive, _ => decide
  | .finite .positive mantissa exponent positive, ⟨lower, upper, whole⟩ =>
    have truncated : 1 ≤ (roundToInt .positive mantissa exponent).toNat := by
      unfold roundToInt decreaseExponent shiftToExponent
      simp only [mantissa_shiftRight, mantissa_ofMantissaAndAccuracy, Sign.apply,
        Int.toNat_natCast, Nat.shiftLeft_eq]
      apply (Nat.one_le_div_iff (Nat.two_pow_pos _)).mpr
      calc 2 ^ (0 - (exponent - ((exponent - 0).toNat : ℤ))).toNat
          ≤ 2 ^ 52 := Nat.pow_le_pow_right (by decide) (by omega)
        _ ≤ mantissa := lower
        _ ≤ mantissa * 2 ^ (exponent - 0).toNat := Nat.le_mul_of_pos_right _ (Nat.two_pow_pos _)
    unfold UnpackedFloat.toUInt64 UInt64.ofNatClamp
    split
    · exact truncated
    · decide

variable {factor : Float}

/-- **Scaling up.** A positive word times a number above one is at least one. -/
theorem one_le_toUInt64_mul {word : UInt64} (positive : 0 < word.toNat)
    (isNumber : factor.isNaN = false) (above : ¬ factor ≤ 1.0) :
    1 ≤ (word.toFloat * factor).toUInt64.toNat := by
  have product := (atLeastOne_ofUInt64 positive).mul (atLeastOne_of_not_le isNumber above)
  exact product.unpack_pack.toUInt64

theorem toUInt64_mul_of_isNaN (word : UInt64) (noNumber : factor.isNaN = true) :
    (word.toFloat * factor).toUInt64 = 0 := by
  have shape : factor.toModel.unpack = .notANumber := by
    have noNumber' : factor.toModel.unpack.isNaN = true := noNumber
    cases shape : factor.toModel.unpack with
    | notANumber => rfl
    | infinity sign | zero sign | finite sign =>
      rw [shape] at noNumber'
      contradiction
  have product (number : UnpackedFloat) :
      UnpackedFloat.mul binary64 number .notANumber = .notANumber := by
    cases number <;> rfl
  change (Float.Model.pack (UnpackedFloat.mul binary64 _ factor.toModel.unpack)).toUInt64 = 0
  rw [shape, product]
  rfl

end Binary64
