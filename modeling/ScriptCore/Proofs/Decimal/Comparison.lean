import ScriptCore.Proofs.Decimal.Rounding

/-!
# Equal floats are those of one exact value

The exact values of floats tell all floats apart but the two zeros, which are equal:
`beq_iff_value?_eq`.

The exact value of a float is a rational number, and infinities and NaN have none.  Two floats of
one value have the same magnitude, because a magnitude is in one form only (`Dyadic.Canonical`), and
the same sign unless the magnitude is zero.
-/

namespace ScriptCore.Decimal

variable {x y : Float} {v : ℚ}

theorem shape_zero : shape 0 = .finite false ⟨0, -1074, false⟩ := by decide +kernel

theorem shape_neg_zero : shape (-0) = .finite true ⟨0, -1074, false⟩ := by decide +kernel

theorem shape_nan : shape Float.nan = .notANumber := by decide +kernel

theorem value?_nan : value? Float.nan = none := by
  simp [value?, shape_nan]

/-- Two magnitudes of floats of one value are the same. -/
theorem Dyadic.Canonical.eq_of_value_eq {a b : Dyadic} (ha : a.Canonical)
    (hb : b.Canonical) (hvalue : a.value = b.value) : a = b :=
  ha.eq_of_covers hb (a.covers_value) (hvalue ▸ b.covers_value)

/-- A magnitude without value is that of zero. -/
theorem Dyadic.Canonical.eq_zero {a : Dyadic} (ha : a.Canonical) (hzero : a.value = 0) :
    a = ⟨0, -1074, false⟩ :=
  ha.eq_of_value_eq (canonical_of_shape shape_zero) (by rw [hzero]; simp [Dyadic.value])

/-- Two floats have one exact value just if they are the same or are the two zeros. -/
theorem shape_eq_or_of_value?_eq (hx : value? x = some v) (hy : value? y = some v) :
    x = y ∨ x = 0 ∧ y = -0 ∨ x = -0 ∧ y = 0 := by
  obtain ⟨negative, a, hxshape, hxvalue⟩ := value?_eq_some_iff.1 hx
  obtain ⟨negative', b, hyshape, hyvalue⟩ := value?_eq_some_iff.1 hy
  have ha := canonical_of_shape hxshape
  have hb := canonical_of_shape hyshape
  -- One value, so one absolute value, and the magnitudes are the same.
  have habs : a.value = b.value := by
    have heq := congrArg abs (hxvalue.symm.trans hyvalue)
    rwa [abs_signed, abs_signed, abs_of_nonneg a.value_nonneg, abs_of_nonneg b.value_nonneg] at heq
  obtain rfl : a = b := ha.eq_of_value_eq hb habs
  by_cases hzero : a.value = 0
  · obtain rfl := ha.eq_zero hzero
    have hsame : ∀ {z : Float} {negative : Bool}, shape z = .finite negative ⟨0, -1074, false⟩ →
        z = if negative then -0 else 0 := by
      intro z negative hz
      apply shape_injective
      cases negative
      · exact hz.trans shape_zero.symm
      · exact hz.trans shape_neg_zero.symm
    rw [hsame hxshape, hsame hyshape]
    cases negative <;> cases negative' <;> simp
  · left
    apply shape_injective
    rw [hxshape, hyshape, eq_of_signed_eq hzero (hxvalue.symm.trans hyvalue)]

/-- Floats are equal just if they have the same exact value. -/
theorem beq_iff_value?_eq (hx : value? x = some v) : (x == y) = true ↔ value? y = some v := by
  have hzeros : value? 0 = value? (-0) := by
    simp [value?, shape_zero, shape_neg_zero, signed, Dyadic.value]
  rw [Float.beq_iff_ne_nan_and_eq]
  constructor
  · rintro ⟨-, -, rfl | ⟨rfl, rfl⟩ | ⟨rfl, rfl⟩⟩
    · exact hx
    · exact hzeros ▸ hx
    · exact hzeros ▸ hx
  · intro hy
    refine ⟨?_, ?_, shape_eq_or_of_value?_eq hx hy⟩
    · rintro rfl
      simp [value?_nan] at hx
    · rintro rfl
      simp [value?_nan] at hy

end ScriptCore.Decimal
