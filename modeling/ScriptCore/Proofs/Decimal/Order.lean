import ScriptCore.Proofs.Decimal.Conversion

/-!
# How floats stand to each other

In the logic two floats are compared by what they are unpacked to, and `<` and `==` ask for one
answer each (`lt_iff_compare`, `beq_iff_compare`).  Exchanging the floats swaps the answer, and
there is none just if one of the floats is NaN.

An integer that is converted to a float may be rounded, but it is never converted to NaN
(`ofInt_ne_nan`): a float is packed as NaN only if it is none before (`unpack_pack_ne`), and neither
rounding nor multiplying by a finite float makes one.
-/

namespace ScriptCore.Decimal

open Float.Model Float.Model.UnpackedFloat

/-! ## Comparing -/

theorem compare_swap (a b : UnpackedFloat) : b.compare a = (a.compare b).map Ordering.swap := by
  fun_cases UnpackedFloat.compare a b with
  | case1 => cases b <;> rfl
  | case3 sign sign' => cases sign <;> cases sign' <;> rfl
  | _ => simp_all [UnpackedFloat.compare, Ordering.swap_then, Int.compare_swap, Nat.compare_swap]

theorem compare_eq_none_iff (a b : UnpackedFloat) :
    a.compare b = none ↔ a = .notANumber ∨ b = .notANumber := by
  fun_cases UnpackedFloat.compare a b <;> simp_all

theorem lt_iff_compare (x y : Float) :
    x < y ↔ x.toModel.unpack.compare y.toModel.unpack = some .lt := by
  change decide ((x.toModel.unpack.compare y.toModel.unpack == some .lt) = true) = true ↔ _
  simp

theorem beq_iff_compare (x y : Float) :
    (x == y) = true ↔ x.toModel.unpack.compare y.toModel.unpack = some .eq := by
  change (x.toModel.unpack.compare y.toModel.unpack == some .eq) = true ↔ _
  simp

theorem unpack_eq_notANumber_iff (x : Float) :
    x.toModel.unpack = .notANumber ↔ x = Float.nan := by
  have hnan : x.toModel.unpack.isNaN = decide (x = Float.nan) := Float.isNaN_eq_decide_eq_nan
  rw [← UnpackedFloat.isNaN_iff, hnan, decide_eq_true_iff]

/-! ## Integers as floats -/

/-- Only the greatest exponent with a fraction is the pattern of NaN. -/
theorem unpack_packComponents_ne {sign : Sign} {exponent : BitVec Format.binary64.exponentBits}
    {fraction : BitVec Format.binary64.mantissaBitsWithoutImplicit}
    (hregular : exponent ≠ -1 ∨ fraction = 0) :
    UnpackedFloat.unpack .binary64 (packComponents .binary64 sign exponent fraction) ≠
      .notANumber := by
  unfold UnpackedFloat.unpack
  simp only [unpackExponent_packComponents, unpackMantissa_packComponents,
    unpackSign_packComponents]
  split_ifs with hexponent hfraction
  · simp
  · rcases hregular with hother | hzero
    · exact absurd hexponent hother
    · exact absurd hzero hfraction
  all_goals simp

/-- Packing makes no NaN of anything else. -/
theorem unpack_pack_ne {a : UnpackedFloat} (ha : a ≠ .notANumber) :
    (Float.Model.pack a).unpack ≠ .notANumber := by
  change UnpackedFloat.unpack .binary64 (UnpackedFloat.pack .binary64 a) ≠ _
  fun_cases UnpackedFloat.pack .binary64 a with
  | case1 => exact absurd rfl ha
  | case2 sign => exact unpack_packComponents_ne (.inr rfl)
  | case3 sign => exact unpack_packComponents_ne (.inr rfl)
  | case4 sign m e hm biased hlarge => exact unpack_packComponents_ne (.inr rfl)
  | case5 sign m e hm bits biased hlarge hnormal =>
      refine unpack_packComponents_ne (.inl fun hgreatest => hlarge ?_)
      have hnumber := congrArg BitVec.toNat hgreatest
      change biased % 2 ^ 11 = 2 ^ 11 - 1 at hnumber
      change 2 ^ 11 ≤ biased + 1
      omega
  | case6 sign m e hm bits biased hlarge hnormal =>
      exact unpack_packComponents_ne (.inl (by decide))

theorem roundWithAccuracy_ne (sign : Sign) (m : ℕ) (e : ℤ) (accuracy : Accuracy) :
    roundWithAccuracy .binary64 sign m e accuracy ≠ .notANumber := by
  unfold roundWithAccuracy
  dsimp only
  split_ifs <;> simp

theorem unpacked_ofNat_ne (n : ℕ) : UnpackedFloat.ofNat .binary64 n ≠ .notANumber := by
  unfold UnpackedFloat.ofNat UnpackedFloat.ofInt UnpackedFloat.normalize
  split
  · exact roundWithAccuracy_ne _ _ _ _
  · simp
  · exact roundWithAccuracy_ne _ _ _ _

/-- Multiplying by a finite float other than zero makes no NaN. -/
theorem mul_finite_ne {a : UnpackedFloat} (ha : a ≠ .notANumber) (sign : Sign) (m : ℕ) (e : ℤ)
    (hm : 0 < m) : UnpackedFloat.mul .binary64 a (.finite sign m e hm) ≠ .notANumber := by
  cases a with
  | notANumber => exact absurd rfl ha
  | infinity sign' => simp [UnpackedFloat.mul]
  | zero sign' => simp [UnpackedFloat.mul]
  | finite sign' m' e' hm' =>
      rw [UnpackedFloat.mul]
      exact roundWithAccuracy_ne _ _ _ _

theorem ofNat_ne_nan (n : ℕ) : Float.ofNat n ≠ Float.nan := by
  rw [ne_eq, ← unpack_eq_notANumber_iff]
  change (Float.ofScientific n false 0).toModel.unpack ≠ _
  unfold Float.ofScientific
  split
  · -- What is converted exactly is still multiplied by one.
    have hconverted : n.toUInt64.toFloat.toModel.unpack ≠ .notANumber :=
      unpack_pack_ne (unpacked_ofNat_ne _)
    have hone : Float.exactlyRepresentablePowersOfTen[0].toModel.unpack =
        .finite .positive (2 ^ 52) (-52) (by norm_num) := rfl
    have hproduct := mul_finite_ne hconverted .positive (2 ^ 52) (-52) (by norm_num)
    rw [← hone] at hproduct
    dsimp only
    rw [if_neg (by decide)]
    exact unpack_pack_ne hproduct
  · change (Float.Model.pack (UnpackedFloat.ofScientific .binary64 n 0)).unpack ≠ _
    refine unpack_pack_ne ?_
    unfold UnpackedFloat.ofScientific
    split_ifs with hzero hlarge hsmall hnonneg
    · simp
    · simp
    · simp
    · exact mul_finite_ne (by simp) _ _ _ _
    · exact absurd (le_refl (0 : ℤ)) hnonneg

/-- An integer is never converted to NaN. -/
theorem ofInt_ne_nan (i : ℤ) : Float.ofInt i ≠ Float.nan := by
  cases i with
  | ofNat n => exact ofNat_ne_nan n
  | negSucc n =>
      have hpositive := ofNat_ne_nan (n + 1)
      rw [ne_eq, ← unpack_eq_notANumber_iff] at hpositive ⊢
      refine unpack_pack_ne ?_
      change (Float.ofNat (n + 1)).toModel.unpack.neg ≠ _
      cases hunpacked : (Float.ofNat (n + 1)).toModel.unpack with
      | notANumber => exact absurd hunpacked hpositive
      | _ => simp [UnpackedFloat.neg]

end ScriptCore.Decimal
