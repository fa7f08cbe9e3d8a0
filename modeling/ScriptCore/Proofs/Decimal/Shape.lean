import Mathlib
import ScriptCore.Decimal.Positional

/-!
# What a float stands for determines the float

`shape` takes a float apart by its bits.  In the logic, floats are taken apart by
`Float.Model.unpack`; `shape_eq` says that both give the same, so that `shape` is injective
(`shape_injective`), because a NaN has but one pattern of bits.

Not every dyadic number is the magnitude of a float.  Those that are have 53 bits, or fewer bits and
the least exponent: `Dyadic.Canonical`.

The lemmas about the bits of a float (`unpackMantissa_def`, `unpack_inj_of_valid`) and about the
equality of floats stand in the library beside Mathlib and in no part of Mathlib that can be
imported alone, so here Mathlib is imported whole.  The modules on decimals that follow get them
from this one.
-/

namespace ScriptCore.Decimal

open Float.Model Float.Model.UnpackedFloat

/-! ## The fields of a float -/

theorem toNat_unpackMantissa (b : BitVec 64) :
    (@unpackMantissa .binary64 b).toNat = b.toNat % 2 ^ 52 := by
  simp [unpackMantissa_def]

theorem toNat_unpackExponent (b : BitVec 64) :
    (@unpackExponent .binary64 b).toNat = b.toNat / 2 ^ 52 % 2 ^ 11 := by
  simp [unpackExponent_def, Nat.shiftRight_eq_div_pow]

theorem toNat_unpackSign (b : BitVec 64) :
    (@unpackSign .binary64 b).toNat = b.toNat / 2 ^ 63 % 2 := by
  simp [unpackSign_def, Nat.shiftRight_eq_div_pow]

theorem ofBitVec_beq_negative (sign : BitVec 1) :
    (Sign.ofBitVec sign == .negative) = decide (sign.toNat = 1) := by
  revert sign
  decide

theorem toNat_fraction (bits : UInt64) :
    (bits &&& 0xFFFFFFFFFFFFF).toNat = bits.toNat % 2 ^ 52 := by
  rw [UInt64.toNat_and]
  exact Nat.and_two_pow_sub_one_eq_mod _ 52

theorem toNat_biased (bits : UInt64) :
    ((bits >>> 52) &&& 0x7FF).toNat = bits.toNat / 2 ^ 52 % 2 ^ 11 := by
  rw [UInt64.toNat_and, UInt64.toNat_shiftRight, Nat.shiftRight_eq_div_pow]
  exact Nat.and_two_pow_sub_one_eq_mod _ 11

theorem topBit_eq (bits : UInt64) :
    (bits >>> 63 == 1) = decide (bits.toNat / 2 ^ 63 % 2 = 1) := by
  have hlt := bits.toNat_lt
  have hshift : (bits >>> 63).toNat = bits.toNat / 2 ^ 63 := by
    rw [UInt64.toNat_shiftRight, Nat.shiftRight_eq_div_pow]
    rfl
  rw [Bool.eq_iff_iff, beq_iff_eq, decide_eq_true_iff, ← UInt64.toNat_inj, hshift]
  change bits.toNat / 2 ^ 63 = 1 ↔ _
  omega

/-! ## Two ways to take a float apart -/

/-- The shape of a float that is unpacked. -/
def Shape.ofUnpacked : UnpackedFloat → Shape
  | .notANumber => .notANumber
  | .infinity sign => .infinite (sign == .negative)
  | .zero sign => .finite (sign == .negative) ⟨0, -1074, false⟩
  | .finite sign mantissa exponent _ =>
    .finite (sign == .negative) ⟨mantissa, exponent, mantissa = 2 ^ 52 ∧ -1074 < exponent⟩

theorem ofUnpacked_unpack (b : BitVec 64) :
    .ofUnpacked (UnpackedFloat.unpack .binary64 b) =
      let negative := Sign.ofBitVec (@unpackSign .binary64 b) == .negative
      let biased := (@unpackExponent .binary64 b).toNat
      let fraction := (@unpackMantissa .binary64 b).toNat
      if biased = 0x7FF then
        if fraction = 0 then Shape.infinite negative else .notANumber
      else if biased = 0 then .finite negative ⟨fraction, -1074, false⟩
      else .finite negative
        ⟨0x10000000000000 + fraction, biased - 1075, fraction = 0 ∧ 1 < biased⟩ := by
  have hgreatest : @unpackExponent .binary64 b = -1#11 ↔
      (@unpackExponent .binary64 b).toNat = 0x7FF := by
    rw [← BitVec.toNat_inj]
    rfl
  have hleast : @unpackExponent .binary64 b = 0#11 ↔
      (@unpackExponent .binary64 b).toNat = 0 := by
    rw [← BitVec.toNat_inj]
    rfl
  have hzero : @unpackMantissa .binary64 b = 0#52 ↔
      (@unpackMantissa .binary64 b).toNat = 0 := by
    rw [← BitVec.toNat_inj]
    rfl
  -- Before the fraction stands a bit that is not written, of the value `2 ^ 52`.
  have hhidden : (1#1 ++ @unpackMantissa .binary64 b).toNat =
      0x10000000000000 + (@unpackMantissa .binary64 b).toNat := by
    have hor := Nat.two_pow_add_eq_or_of_lt (@unpackMantissa .binary64 b).isLt 1
    rw [BitVec.toNat_append]
    simpa using hor.symm
  unfold UnpackedFloat.unpack
  simp only [hgreatest, hleast, hzero]
  split_ifs with hbiased hfraction hsmall hfraction
  · rfl
  · rfl
  · simp [Shape.ofUnpacked, hfraction]
  · simp [Shape.ofUnpacked, hsmall, Format.exponentBias]
  · simp only [Shape.ofUnpacked, hhidden, Format.exponentBias]
    congr 2
    rw [Bool.eq_iff_iff]
    simp
    omega

theorem shape_eq (x : Float) : shape x = .ofUnpacked x.toModel.unpack := by
  have hbits : x.toBits.toNat = x.toModel.toBits.toBitVec.toNat := rfl
  unfold shape
  simp only [toNat_fraction, toNat_biased, topBit_eq]
  rw [hbits, ← toNat_unpackMantissa, ← toNat_unpackExponent, ← toNat_unpackSign,
    ← ofBitVec_beq_negative]
  exact (ofUnpacked_unpack _).symm

theorem ofUnpacked_injective : Function.Injective Shape.ofUnpacked := by
  have hsign : ∀ {s t : Sign}, (s == Sign.negative) = (t == Sign.negative) → s = t := by
    rintro (_ | _) (_ | _) heq <;> simp_all
  intro u v heq
  cases u <;> cases v <;> simp only [Shape.ofUnpacked, reduceCtorEq, Shape.infinite.injEq,
    Shape.finite.injEq, Dyadic.mk.injEq] at heq
  case infinity.infinity => rw [hsign heq]
  case notANumber.notANumber => rfl
  case zero.zero => rw [hsign heq.1]
  case zero.finite hpos => omega
  case finite.zero hpos => omega
  case finite.finite =>
    obtain ⟨hs, rfl, rfl, -⟩ := heq
    rw [hsign hs]

theorem shape_injective : Function.Injective shape := by
  intro x y heq
  rw [shape_eq, shape_eq] at heq
  have hunpack := ofUnpacked_injective heq
  have hbits := (unpack_inj_of_valid x.toModel.valid y.toModel.valid).1 hunpack
  exact Float.toBits_inj.1 (UInt64.toBitVec_inj.1 hbits)

/-! ## Canonical magnitudes -/

/-- The dyadic numbers that are magnitudes of floats, each in one form: with 53 bits, or with fewer
bits and the least exponent. -/
structure Dyadic.Canonical (x : Dyadic) : Prop where
  significand_lt : x.significand < 2 ^ 53
  le_exponent : -1074 ≤ x.exponent
  le_significand : -1074 < x.exponent → 2 ^ 52 ≤ x.significand
  narrowBelow_iff : x.narrowBelow = true ↔ x.significand = 2 ^ 52 ∧ -1074 < x.exponent

theorem canonical_of_shape {x : Float} {negative : Bool} {magnitude : Dyadic}
    (hshape : shape x = .finite negative magnitude) : magnitude.Canonical := by
  unfold shape at hshape
  simp only [toNat_fraction, toNat_biased] at hshape
  have hfraction : x.toBits.toNat % 2 ^ 52 < 2 ^ 52 := Nat.mod_lt _ (by norm_num)
  split_ifs at hshape with hgreatest hzero hleast
  · obtain ⟨-, rfl⟩ := Shape.finite.inj hshape
    exact ⟨by dsimp only; omega, le_refl _, fun hlt => absurd hlt (lt_irrefl _), by simp⟩
  · obtain ⟨-, rfl⟩ := Shape.finite.inj hshape
    exact ⟨by dsimp only; omega, by dsimp only; omega, fun _ => by dsimp only; omega,
      by simp; omega⟩

end ScriptCore.Decimal
