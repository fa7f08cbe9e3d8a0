import ScriptCore.Proofs.Decimal.Shape

/-!
# The values of floats

A finite float stands for a rational number, and so does a decimal.  A float is keyed as an integer
if its value is one of less than 63 bits: `smallWhole?_eq_some_iff`.

`value?` gives the number of a float and nothing for infinities and NaN.  It goes by the shape of
the float, so each statement about it comes down to one about a sign and a magnitude, where a
magnitude is a whole number times a power of two.
-/

namespace ScriptCore.Decimal

/-- The number that a dyadic number is. -/
def Dyadic.value (x : Dyadic) : ℚ :=
  x.significand * 2 ^ x.exponent

/-- The number that a decimal is. -/
def Scaled.value (d : Scaled) : ℚ :=
  d.digits * 10 ^ d.exponent

/-- A number with a sign. -/
def signed (negative : Bool) (v : ℚ) : ℚ :=
  if negative then -v else v

theorem abs_signed (negative : Bool) (v : ℚ) : |signed negative v| = |v| := by
  cases negative <;> simp [signed]

theorem eq_of_signed_eq {negative negative' : Bool} {v : ℚ} (hv : v ≠ 0)
    (hsigned : signed negative v = signed negative' v) : negative = negative' := by
  cases negative <;> cases negative' <;> simp_all [signed, eq_neg_iff_add_eq_zero,
    neg_eq_iff_add_eq_zero]

/-- The exact value of a float, unless it is infinite or NaN. -/
def value? (x : Float) : Option ℚ :=
  match shape x with
  | .finite negative magnitude => some (signed negative magnitude.value)
  | _ => none

theorem pow_toNat_neg_mul_zpow {b : ℚ} (hb : b ≠ 0) (n : ℤ) :
    b ^ (-n).toNat * b ^ n = b ^ n.toNat := by
  rcases Int.le_total 0 n with hn | hn
  · obtain ⟨k, rfl⟩ := Int.eq_ofNat_of_zero_le hn
    simp
  · obtain ⟨k, hk⟩ := Int.eq_ofNat_of_zero_le (Int.neg_nonneg.2 hn)
    obtain rfl : n = -(k : ℤ) := by omega
    simp [hb]

theorem value?_eq_some_iff {x : Float} {v : ℚ} :
    value? x = some v ↔ ∃ negative magnitude, shape x = .finite negative magnitude ∧
      v = signed negative magnitude.value := by
  unfold value?
  cases shape x <;> simp [eq_comm]

theorem Scaled.value_nonneg (d : Scaled) : 0 ≤ d.value := by
  unfold value
  positivity

/-! ## Whole numbers -/

namespace Dyadic

variable {x : Dyadic}

theorem value_nonneg (x : Dyadic) : 0 ≤ x.value := by
  unfold value
  positivity

theorem denominator_pos (x : Dyadic) : 0 < x.denominator := by
  simp [denominator, Nat.shiftLeft_eq]

theorem value_mul_denominator (x : Dyadic) : x.value * x.denominator = x.numerator := by
  have htwo := pow_toNat_neg_mul_zpow (b := 2) (by norm_num) x.exponent
  simp only [value, denominator, numerator, Nat.shiftLeft_eq]
  push_cast
  rw [← htwo]
  ring

theorem isWhole_iff {n : ℕ} : x.isWhole = true ∧ x.floor = n ↔ x.value = n := by
  have hpos : (0 : ℚ) < x.denominator := mod_cast x.denominator_pos
  have hvalue : x.value = n ↔ n * x.denominator = x.numerator := by
    rw [← mul_right_cancel_iff_of_pos hpos, value_mul_denominator, eq_comm]
    exact mod_cast Iff.rfl
  rw [hvalue, isWhole, beq_iff_eq, floor]
  constructor
  · rintro ⟨hmod, rfl⟩
    exact Nat.div_mul_cancel (Nat.dvd_of_mod_eq_zero hmod)
  · intro hnumerator
    rw [← hnumerator]
    exact ⟨Nat.mul_mod_left .., Nat.mul_div_cancel _ x.denominator_pos⟩

end Dyadic

theorem smallWhole?_eq_some_iff {x : Float} {i : ℤ} :
    smallWhole? x = some i ↔ value? x = some (i : ℚ) ∧ i.natAbs < 2 ^ 63 := by
  unfold smallWhole? value?
  cases hshape : shape x with
  | notANumber => simp
  | infinite negative => simp
  | finite negative magnitude =>
      have hnonneg : 0 ≤ magnitude.value := magnitude.value_nonneg
      simp only [Option.some.injEq]
      constructor
      · intro hsmall
        -- An integer is given only if the magnitude is whole and below `2 ^ 63`.
        have hwhole : magnitude.isWhole = true ∧ magnitude.floor < 0x8000000000000000 := by
          by_contra hnot
          simp [hnot] at hsmall
        have hvalue : magnitude.value = magnitude.floor := Dyadic.isWhole_iff.1 ⟨hwhole.1, rfl⟩
        rw [if_pos hwhole] at hsmall
        obtain rfl := Option.some.inj hsmall
        rw [hvalue]
        cases negative <;> simp [signed, hwhole.2]
      · rintro ⟨hsigned, hlt⟩
        have hvalue : magnitude.value = i.natAbs := by
          rw [Nat.cast_natAbs, Int.cast_abs, ← hsigned, abs_signed, abs_of_nonneg hnonneg]
        obtain ⟨hwhole, hfloor⟩ := Dyadic.isWhole_iff.2 hvalue
        rw [if_pos ⟨hwhole, hfloor ▸ hlt⟩, hfloor]
        rw [hvalue] at hsigned
        congr 1
        qify
        rw [← hsigned]
        cases negative <;> simp [signed]

end ScriptCore.Decimal
