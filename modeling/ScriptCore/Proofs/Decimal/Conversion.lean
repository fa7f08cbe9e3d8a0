import ScriptCore.Proofs.Decimal.Comparison

/-!
# Converting integers to floats

An integer that is the exact value of a float is converted to that float.

The conversion of the logic takes one of two ways.  A number below `2 ^ 53` is shifted until it
fills the significand, and is multiplied by one; if the number is the value of a float, its
significand is the number shifted just so far (`significand_eq`).  A larger number goes through the
reading of decimals, where it is shifted by 53 bits and rounded.  To round what is the magnitude of
a float already changes nothing, however far it was shifted (`Canonical.roundWithAccuracy_eq`).
-/

namespace ScriptCore.Decimal

open Float.Model Float.Model.UnpackedFloat

/-! ## Rounding what is exact -/

theorem shiftRight_mul_two_pow (m k : ℕ) :
    (ExtendedMantissa.mk (m * 2 ^ k) false false) >>> k = ⟨m, false, false⟩ := by
  change Nat.repeat ExtendedMantissa.shiftRightOne k _ = _
  induction k generalizing m with
  | zero => simp [Nat.repeat]
  | succ k ih =>
      have hshift : m * 2 ^ (k + 1) = 2 * m * 2 ^ k := by ring
      rw [Nat.repeat, hshift, ih (2 * m)]
      simp [ExtendedMantissa.shiftRightOne]

theorem log2_mul_two_pow {m : ℕ} (hm : m ≠ 0) (k : ℕ) : (m * 2 ^ k).log2 = m.log2 + k := by
  induction k with
  | zero => simp
  | succ k ih =>
      have hdouble : m * 2 ^ (k + 1) = 2 * (m * 2 ^ k) := by ring
      rw [hdouble, Nat.log2_two_mul (by positivity), ih]
      omega

theorem Dyadic.Canonical.targetExponent_eq {x : Dyadic} (hx : x.Canonical)
    (hpos : 0 < x.significand) (k : ℕ) :
    Format.binary64.targetExponent (totalExponent (x.significand * 2 ^ k) (x.exponent - k)) =
      x.exponent := by
  have hlt : x.significand.log2 < 53 := (Nat.log2_lt hpos.ne').2 hx.significand_lt
  have hle := hx.le_exponent
  have hnormal : -1074 < x.exponent → 52 ≤ x.significand.log2 := fun hlt' =>
    (Nat.le_log2 hpos.ne').2 (hx.le_significand hlt')
  simp only [Format.targetExponent, totalExponent, Format.minExponent, Format.mantissaBits,
    log2_mul_two_pow hpos.ne']
  norm_num
  omega

/-- A magnitude of a float is not changed by rounding, with whatever exponent it is given. -/
theorem Dyadic.Canonical.roundWithAccuracy_eq {x : Dyadic} (hx : x.Canonical)
    (hpos : 0 < x.significand) (sign : Sign) (k : ℕ) :
    roundWithAccuracy .binary64 sign (x.significand * 2 ^ k) (x.exponent - k) .exact =
      .finite sign x.significand x.exponent hpos := by
  have hshift : ∀ k : ℕ, shiftToTargetExponent .binary64 (x.significand * 2 ^ k) (x.exponent - k)
      .exact = (⟨x.significand, false, false⟩, x.exponent) := by
    intro k
    have hamount : (x.exponent - (x.exponent - k)).toNat = k := by omega
    simp only [shiftToTargetExponent, hx.targetExponent_eq hpos, shiftToExponent, hamount,
      ExtendedMantissa.ofMantissaAndAccuracy, shiftRight_mul_two_pow, Int.sub_add_cancel]
  have hagain := hshift 0
  rw [pow_zero, mul_one, Nat.cast_zero, sub_zero] at hagain
  unfold roundWithAccuracy
  rw [hshift k]
  simp only [ExtendedMantissa.roundedMantissa, ExtendedMantissa.accuracy,
    Accuracy.roundToNearestEven, hagain]
  rw [dif_neg hpos.ne']

/-! ## Packing with another sign -/

theorem unpack_packComponents {b : BitVec 64} {sign : Sign} {m : ℕ} {e : ℤ} {hm : 0 < m}
    (hunpack : UnpackedFloat.unpack .binary64 b = .finite sign m e hm) (sign' : Sign) :
    UnpackedFloat.unpack .binary64 (packComponents .binary64 sign'
      (@unpackExponent .binary64 b) (@unpackMantissa .binary64 b)) =
      .finite sign' m e hm := by
  unfold UnpackedFloat.unpack at hunpack ⊢
  simp only [unpackExponent_packComponents, unpackMantissa_packComponents,
    unpackSign_packComponents, Sign.ofBitVec_toBitVec]
  split_ifs at hunpack ⊢ <;> simp_all

/-- The magnitude of a float is packed without loss, with either sign. -/
theorem unpack_pack {x : Float} {sign : Sign} {m : ℕ} {e : ℤ} {hm : 0 < m}
    (hunpack : x.toModel.unpack = .finite sign m e hm) (sign' : Sign) :
    (Float.Model.pack (.finite sign' m e hm)).unpack = .finite sign' m e hm := by
  have hother := unpack_packComponents hunpack sign'
  change UnpackedFloat.unpack .binary64 (UnpackedFloat.pack .binary64 _) = _
  rw [← hother, UnpackedFloat.pack_unpack]
  split_ifs with hnan
  · simp only [isNaNBits, decide_eq_true_eq] at hnan
    rw [UnpackedFloat.unpack, if_pos hnan.1, if_neg hnan.2] at hother
    simp at hother
  · rfl

/-- A magnitude of a float times the float one is rounded to that magnitude. -/
theorem mul_one_of_canonical {a : Dyadic} (ha : a.Canonical) (hpos : 0 < a.significand) :
    UnpackedFloat.mul .binary64 (.finite .positive a.significand a.exponent hpos)
        Float.exactlyRepresentablePowersOfTen[0].toModel.unpack =
      .finite .positive a.significand a.exponent hpos := by
  have hone : Float.exactlyRepresentablePowersOfTen[0].toModel.unpack =
      .finite .positive (2 ^ 52) (-52) (by norm_num) := rfl
  rw [hone]
  change roundWithAccuracy .binary64 .positive (a.significand * 2 ^ 52) (a.exponent - 52) .exact = _
  exact ha.roundWithAccuracy_eq hpos .positive 52

/-- A float is the packed form of what it is unpacked to. -/
theorem pack_unpack_toModel (x : Float) :
    Float.ofModel (Float.Model.pack x.toModel.unpack) = x := by
  apply Float.toBits_inj.1
  apply UInt64.toBitVec_inj.1
  exact pack_unpack_of_valid x.toModel.valid

/-! ## Natural numbers -/

section

variable {a : Dyadic} {n : ℕ} (ha : a.Canonical) (hvalue : a.value = n) (hpos : 0 < a.significand)

include hvalue in
theorem natCast_mul_eq : n * 2 ^ (-a.exponent).toNat = a.significand * 2 ^ a.exponent.toNat := by
  have hmul := a.value_mul_denominator
  rw [hvalue, Dyadic.denominator, Dyadic.numerator, Nat.shiftLeft_eq, Nat.shiftLeft_eq,
    one_mul] at hmul
  exact_mod_cast hmul

include ha hvalue in
theorem exponent_nonpos (hlt : n < 2 ^ 53) : a.exponent ≤ 0 := by
  have hmul := natCast_mul_eq hvalue
  by_contra hgt
  obtain ⟨k, hk⟩ := Int.eq_ofNat_of_zero_le (show 0 ≤ a.exponent - 1 by omega)
  have hexponent : a.exponent = (k + 1 : ℕ) := by omega
  rw [hexponent, Int.toNat_natCast, Int.toNat_neg_natCast, pow_zero, mul_one, pow_succ] at hmul
  have hlarge := ha.le_significand (by omega)
  have hone : 1 ≤ 2 ^ k := Nat.one_le_two_pow
  nlinarith

include ha hvalue in
theorem exponent_nonneg (hge : 2 ^ 53 ≤ n) : 0 ≤ a.exponent := by
  have hmul := natCast_mul_eq hvalue
  by_contra hneg
  rw [Int.toNat_of_nonpos (show a.exponent ≤ 0 by omega), pow_zero, mul_one] at hmul
  have hone : 1 ≤ 2 ^ (-a.exponent).toNat := Nat.one_le_two_pow
  have hlt := ha.significand_lt
  nlinarith

include ha hvalue hpos

/-- A natural number of at most 53 bits has so many bits more as a significand as its exponent is
below zero. -/
theorem significand_eq (hlt : n < 2 ^ 53) :
    ∃ k : ℕ, a.exponent = -(k : ℤ) ∧ a.significand = n * 2 ^ k ∧ n.log2 + k = 52 := by
  have hmul := natCast_mul_eq hvalue
  have hle := exponent_nonpos ha hvalue hlt
  obtain ⟨k, hk⟩ := Int.eq_ofNat_of_zero_le (show 0 ≤ -a.exponent by omega)
  have hexponent : a.exponent = -(k : ℤ) := by omega
  rw [hexponent, neg_neg, Int.toNat_natCast, Int.toNat_neg_natCast, pow_zero, mul_one] at hmul
  have hn : n ≠ 0 := by
    rintro rfl
    omega
  -- Were the significand short, its exponent would be the least one, and the number far too small.
  have hnormal : 2 ^ 52 ≤ a.significand := by
    refine ha.le_significand ?_
    by_contra hleast
    have hk' : k = 53 + (k - 53) := by
      have := ha.le_exponent
      omega
    have hone : 1 ≤ 2 ^ (k - 53) := Nat.one_le_two_pow
    have hlarge : 2 ^ 53 ≤ n * 2 ^ k := by
      rw [hk', pow_add]
      have : 1 ≤ n := Nat.one_le_iff_ne_zero.2 hn
      nlinarith
    have := ha.significand_lt
    omega
  have hlog : (n * 2 ^ k).log2 = 52 := by
    rw [hmul]
    exact (Nat.log2_eq_iff hpos.ne').2 ⟨hnormal, ha.significand_lt⟩
  rw [log2_mul_two_pow hn] at hlog
  exact ⟨k, hexponent, hmul.symm, hlog⟩

theorem unpacked_ofNat_eq (hlt : n < 2 ^ 53) :
    UnpackedFloat.ofNat .binary64 n = .finite .positive a.significand a.exponent hpos := by
  obtain ⟨k, hexponent, hsignificand, hlog⟩ := significand_eq ha hvalue hpos hlt
  have htarget : Format.binary64.targetExponent (totalExponent n 0) = a.exponent := by
    simp only [Format.targetExponent, totalExponent, Format.minExponent, Format.mantissaBits]
    norm_num
    omega
  have hn : 0 < (n : ℤ) := by
    have : n ≠ 0 := by
      rintro rfl
      omega
    omega
  have hdecrease : decreaseExponent n 0 a.exponent = (a.significand, a.exponent) := by
    have hamount : (0 - a.exponent).toNat = k := by omega
    simp only [decreaseExponent, hamount, Nat.shiftLeft_eq, hsignificand, Prod.mk.injEq, true_and]
    omega
  have hround := ha.roundWithAccuracy_eq hpos .positive 0
  rw [pow_zero, mul_one, Nat.cast_zero, sub_zero] at hround
  simp only [UnpackedFloat.ofNat, UnpackedFloat.ofInt, UnpackedFloat.normalize,
    compare_gt_iff_gt.2 hn, Int.toNat_natCast, UnpackedFloat.round, htarget, hdecrease, hround]

/-- A natural number of more than 53 bits is converted with 53 bits appended, which rounding takes
away again. -/
theorem unpacked_ofScientific_eq (hge : 2 ^ 53 ≤ n) :
    UnpackedFloat.ofScientific .binary64 n 0 =
      .finite .positive a.significand a.exponent hpos := by
  have hmul := natCast_mul_eq hvalue
  obtain ⟨k, hk⟩ := Int.eq_ofNat_of_zero_le (exponent_nonneg ha hvalue hge)
  rw [hk, Int.toNat_natCast, Int.toNat_neg_natCast, pow_zero, mul_one] at hmul
  have hshift : n <<< 53 = a.significand * 2 ^ (k + 53) := by
    rw [Nat.shiftLeft_eq, hmul, pow_add, mul_assoc]
  have hexponent : (-53 : ℤ) = a.exponent - (k + 53 : ℕ) := by
    rw [hk]
    push_cast
    omega
  have hround := ha.roundWithAccuracy_eq hpos .positive (k + 53)
  rw [← hshift, ← hexponent] at hround
  have hn : n ≠ 0 := by omega
  unfold UnpackedFloat.ofScientific
  have hsmall : ¬ (0 : ℤ) < -(2 ^ Format.binary64.exponentBits + (n.log2 : ℤ)) := by
    have hpow : (0 : ℤ) ≤ 2 ^ Format.binary64.exponentBits := by positivity
    omega
  rw [dif_neg hn, if_neg (by norm_num), if_neg hsmall, if_pos le_rfl]
  change roundWithAccuracy .binary64 .positive (n <<< 53 * 1) (-53 + 0) .exact = _
  rw [mul_one, add_zero, hround]

end

/-! ## Integers -/

theorem unpack_of_shape {x : Float} {negative : Bool} {a : Dyadic}
    (hshape : shape x = .finite negative a) (hpos : 0 < a.significand) :
    x.toModel.unpack =
      .finite (if negative then .negative else .positive) a.significand a.exponent hpos := by
  rw [shape_eq] at hshape
  cases hunpack : x.toModel.unpack with
  | finite sign m e hm =>
      rw [hunpack, Shape.ofUnpacked] at hshape
      obtain ⟨rfl, rfl⟩ := Shape.finite.inj hshape
      cases sign <;> rfl
  | zero sign =>
      rw [hunpack, Shape.ofUnpacked] at hshape
      obtain ⟨-, rfl⟩ := Shape.finite.inj hshape
      simp at hpos
  | infinity sign => simp [hunpack, Shape.ofUnpacked] at hshape
  | notANumber => simp [hunpack, Shape.ofUnpacked] at hshape

/-- A natural number that is the magnitude of a float is converted to that magnitude. -/
theorem ofNat_eq {x : Float} {negative : Bool} {a : Dyadic} {n : ℕ}
    (hshape : shape x = .finite negative a) (hvalue : a.value = n) (hpos : 0 < a.significand) :
    Float.ofNat n =
      .ofModel (Float.Model.pack (.finite .positive a.significand a.exponent hpos)) := by
  have ha := canonical_of_shape hshape
  have hpack := unpack_pack (unpack_of_shape hshape hpos) .positive
  change Float.ofScientific n false 0 = _
  unfold Float.ofScientific
  rcases lt_or_ge n (2 ^ 53) with hlt | hge
  · rw [dif_pos ⟨hlt, by norm_num⟩]
    have hconverted : n.toUInt64.toFloat =
        .ofModel (Float.Model.pack (.finite .positive a.significand a.exponent hpos)) := by
      have hword : n.toUInt64.toNat = n := Nat.mod_eq_of_lt (hlt.trans (by norm_num))
      change Float.ofModel (Float.Model.pack (UnpackedFloat.ofNat _ n.toUInt64.toNat)) = _
      rw [hword, unpacked_ofNat_eq ha hvalue hpos hlt]
    -- What is left to do is to multiply by one, which rounds a second time.
    dsimp only
    rw [if_neg (by decide), hconverted]
    change Float.ofModel (Float.Model.pack (UnpackedFloat.mul .binary64
      (Float.Model.pack (.finite .positive a.significand a.exponent hpos)).unpack
      Float.exactlyRepresentablePowersOfTen[0].toModel.unpack)) = _
    rw [hpack, mul_one_of_canonical ha hpos]
  · rw [dif_neg (by omega)]
    change Float.ofModel (Float.Model.pack (UnpackedFloat.ofScientific .binary64 n 0)) = _
    rw [unpacked_ofScientific_eq ha hvalue hpos hge]

/-- An integer that is the exact value of a float, and is not zero, is converted to the float. -/
theorem ofInt_eq {x : Float} {i : ℤ} (hvalue : value? x = some (i : ℚ)) (hi : i ≠ 0) :
    Float.ofInt i = x := by
  obtain ⟨negative, a, hshape, hsigned⟩ := value?_eq_some_iff.1 hvalue
  have hmagnitude : a.value = i.natAbs := by
    rw [Nat.cast_natAbs, Int.cast_abs, hsigned, abs_signed, abs_of_nonneg a.value_nonneg]
  have hpos : 0 < a.significand := by
    by_contra hzero
    obtain hzero : a.significand = 0 := by omega
    rw [Dyadic.value, hzero, Nat.cast_zero, zero_mul] at hmagnitude
    exact hi (Int.natAbs_eq_zero.1 (mod_cast hmagnitude.symm))
  have hunpack := unpack_of_shape hshape hpos
  have hnatural := ofNat_eq hshape hmagnitude hpos
  rw [hmagnitude] at hsigned
  rw [← pack_unpack_toModel x, hunpack]
  -- A negative integer is converted by negating what its absolute value is converted to.
  cases negative with
  | false =>
      have hi' : i = i.natAbs := by
        apply Int.cast_injective (α := ℚ)
        rw [Int.cast_natCast]
        exact hsigned
      rw [hi']
      exact hnatural
  | true =>
      obtain ⟨k, hk⟩ : ∃ k, i.natAbs = k + 1 := Nat.exists_eq_succ_of_ne_zero (by omega)
      have hi' : i = Int.negSucc k := by
        have hneg : i = -(i.natAbs : ℤ) := by
          apply Int.cast_injective (α := ℚ)
          rw [Int.cast_neg, Int.cast_natCast]
          exact hsigned
        omega
      rw [hk] at hnatural
      rw [hi']
      change (Float.ofNat (k + 1)).neg = _
      rw [hnatural]
      change Float.ofModel (Float.Model.pack (UnpackedFloat.neg
        (Float.Model.pack (.finite .positive a.significand a.exponent hpos)).unpack)) = _
      rw [unpack_pack hunpack .positive]
      rfl

/-- An integer that is the exact value of a float is converted to an equal float. -/
theorem ofInt_beq {x : Float} {i : ℤ} (hvalue : value? x = some (i : ℚ)) :
    (Float.ofInt i == x) = true := by
  by_cases hi : i = 0
  · subst hi
    have hzero : value? (Float.ofInt 0) = some 0 := by
      change value? 0 = some 0
      simp [value?, shape_zero, signed, Dyadic.value]
    exact (beq_iff_value?_eq hzero).2 (by simpa using hvalue)
  · rw [ofInt_eq hvalue hi]
    exact (beq_iff_value?_eq hvalue).2 hvalue

end ScriptCore.Decimal
