import ScriptCore.Proofs.Decimal.Value

/-!
# The reals that round to a float

The digits that are written for a float are those of a number that rounds to it (`covers_shortest`),
and no number rounds to two floats (`Canonical.eq_of_covers`): where the intervals of neighbours
meet, the point between them belongs to the one with the even significand.

So the value of what is written for a float says which float it is.

The interval of a float is measured in quarters of the last place of its significand, which makes
the ends whole numbers: a float reaches half a place to either side, and a quarter below if it is
the first one with its exponent (`Dyadic.narrowBelow`).
-/

namespace ScriptCore.Decimal

namespace Dyadic

/-- A number lies between the ends of the rounding interval, or at one of them if they belong to
the interval. -/
def Covers (x : Dyadic) (v : ℚ) : Prop :=
  if x.significand % 2 = 0 then
    x.lowerEnd * 2 ^ (x.exponent - 2) ≤ v ∧ v ≤ x.upperEnd * 2 ^ (x.exponent - 2)
  else x.lowerEnd * 2 ^ (x.exponent - 2) < v ∧ v < x.upperEnd * 2 ^ (x.exponent - 2)

variable {x y : Dyadic} {v : ℚ}

/-! ## What is written for a float rounds to it -/

/-- The scale and the step of a grid stand to each other as a quarter of the unit to the distance
of two points of the grid. -/
theorem quarterOnGrid_spec (x : Dyadic) (grid : ℤ) :
    ((x.quarterOnGrid grid).1 : ℚ) * 10 ^ grid =
      (x.quarterOnGrid grid).2 * 2 ^ (x.exponent - 2) := by
  have hten := pow_toNat_neg_mul_zpow (b := 10) (by norm_num) grid
  have htwo := pow_toNat_neg_mul_zpow (b := 2) (by norm_num) (x.exponent - 2)
  simp only [quarterOnGrid, Nat.shiftLeft_eq, Nat.pow_eq]
  push_cast
  rw [← hten, ← htwo]
  ring

theorem step_pos (x : Dyadic) (grid : ℤ) : (0 : ℚ) < (x.quarterOnGrid grid).2 := by
  simp only [quarterOnGrid, Nat.shiftLeft_eq, Nat.pow_eq]
  positivity

/-- Comparing with a point of a grid by cross-multiplication. -/
theorem mul_scale_le_iff (x : Dyadic) (grid : ℤ) (quarters digits : ℕ) :
    (quarters * (x.quarterOnGrid grid).1 ≤ digits * (x.quarterOnGrid grid).2 ↔
      quarters * (2 : ℚ) ^ (x.exponent - 2) ≤ digits * 10 ^ grid) ∧
    (digits * (x.quarterOnGrid grid).2 ≤ quarters * (x.quarterOnGrid grid).1 ↔
      digits * (10 : ℚ) ^ grid ≤ quarters * 2 ^ (x.exponent - 2)) := by
  have hten : (0 : ℚ) < 10 ^ grid := by positivity
  have hscale : (quarters * (x.quarterOnGrid grid).1 : ℚ) * 10 ^ grid =
      quarters * 2 ^ (x.exponent - 2) * (x.quarterOnGrid grid).2 := by
    rw [mul_assoc, quarterOnGrid_spec]
    ring
  have hstep : (digits * (x.quarterOnGrid grid).2 : ℚ) * 10 ^ grid =
      digits * 10 ^ grid * (x.quarterOnGrid grid).2 := by
    ring
  constructor <;>
    rw [← Nat.cast_le (α := ℚ), Nat.cast_mul, Nat.cast_mul, ← mul_le_mul_iff_of_pos_right hten,
      hscale, hstep, mul_le_mul_iff_of_pos_right (step_pos x grid)]

theorem readsBack_iff (x : Dyadic) (digits : ℕ) (grid : ℤ) :
    x.readsBack digits grid = true ↔ x.Covers (Scaled.value ⟨digits, grid⟩) := by
  obtain ⟨hlower, hlower'⟩ := mul_scale_le_iff x grid x.lowerEnd digits
  obtain ⟨hupper, hupper'⟩ := mul_scale_le_iff x grid x.upperEnd digits
  unfold readsBack Covers Scaled.value
  by_cases heven : x.significand % 2 = 0
  · simp only [heven, if_true, decide_eq_true_iff]
    rw [hlower, hupper']
  · simp only [heven, if_false, decide_eq_true_iff]
    rw [← not_le, hlower', ← not_le, hupper, not_le, not_le]

theorem covers_value (x : Dyadic) : x.Covers x.value := by
  have hunit : (0 : ℚ) < 2 ^ (x.exponent - 2) := by positivity
  have hvalue : x.value = (x.quarters : ℚ) * 2 ^ (x.exponent - 2) := by
    rw [zpow_sub₀ (by norm_num), value, quarters]
    push_cast
    ring
  -- In quarters of a unit of the last place, the number lies between the ends of its interval.
  have hends : x.lowerEnd ≤ x.quarters ∧ x.quarters < x.upperEnd ∧
      (x.significand % 2 ≠ 0 → x.lowerEnd < x.quarters) := by
    unfold lowerEnd upperEnd quarters
    split_ifs <;> omega
  obtain ⟨hlower, hupper, hlower'⟩ := hends
  unfold Covers
  rw [hvalue]
  split_ifs with heven
  · exact ⟨mul_le_mul_of_nonneg_right (mod_cast hlower) hunit.le,
      mul_le_mul_of_nonneg_right (mod_cast hupper.le) hunit.le⟩
  · exact ⟨mul_lt_mul_of_pos_right (mod_cast hlower' heven) hunit,
      mul_lt_mul_of_pos_right (mod_cast hupper) hunit⟩

theorem value_exactDecimal (x : Dyadic) : x.exactDecimal.value = x.value := by
  unfold exactDecimal Scaled.value value
  split_ifs with hneg
  · obtain ⟨k, hk⟩ := Int.eq_ofNat_of_zero_le (show 0 ≤ -x.exponent by omega)
    obtain hexponent : x.exponent = -(k : ℤ) := by omega
    rw [hexponent]
    have hten : (10 : ℚ) ^ k = 2 ^ k * 5 ^ k := by
      rw [← mul_pow]
      norm_num
    simp only [neg_neg, Int.toNat_natCast, Nat.pow_eq, Nat.cast_mul, Nat.cast_pow, zpow_neg,
      zpow_natCast, hten]
    push_cast
    field_simp
  · obtain ⟨k, hk⟩ := Int.eq_ofNat_of_zero_le (show 0 ≤ x.exponent by omega)
    rw [hk]
    simp [Nat.shiftLeft_eq]

theorem covers_of_onGrid? {grid : ℤ} {d : Scaled} (hgrid : x.onGrid? grid = some d) :
    x.Covers d.value := by
  unfold onGrid? at hgrid
  dsimp only at hgrid
  split at hgrid <;> rename_i hbelow habove
  · split_ifs at hgrid <;> obtain rfl := Option.some.inj hgrid
    · exact (readsBack_iff ..).1 hbelow
    · exact (readsBack_iff ..).1 habove
  · obtain rfl := Option.some.inj hgrid
    exact (readsBack_iff ..).1 hbelow
  · obtain rfl := Option.some.inj hgrid
    exact (readsBack_iff ..).1 habove
  · simp at hgrid

/-- The shortest digits are those of a number that rounds to the float. -/
theorem covers_shortest (x : Dyadic) : x.Covers x.shortest.value := by
  unfold shortest
  split_ifs with hzero
  · have hvalue : Scaled.value ⟨0, 0⟩ = x.value := by simp [Scaled.value, value, hzero]
    rw [hvalue]
    exact covers_value x
  · dsimp only
    cases hfound : (List.range 17).findSome? fun n : ℕ =>
        x.onGrid? (x.leastPowerAbove - (n + 1)) with
    | none =>
        rw [Option.getD_none, value_exactDecimal]
        exact covers_value x
    | some d =>
        obtain ⟨n, -, hgrid⟩ := List.exists_of_findSome?_eq_some hfound
        exact covers_of_onGrid? hgrid

/-! ## No number rounds to two floats -/

theorem Covers.lower_le (hcovers : x.Covers v) :
    x.lowerEnd * 2 ^ (x.exponent - 2) ≤ v ∧
      (x.significand % 2 ≠ 0 → x.lowerEnd * 2 ^ (x.exponent - 2) < v) := by
  unfold Covers at hcovers
  split_ifs at hcovers with heven
  · exact ⟨hcovers.1, fun hodd => absurd heven hodd⟩
  · exact ⟨hcovers.1.le, fun _ => hcovers.1⟩

theorem Covers.le_upper (hcovers : x.Covers v) :
    v ≤ x.upperEnd * 2 ^ (x.exponent - 2) ∧
      (x.significand % 2 ≠ 0 → v < x.upperEnd * 2 ^ (x.exponent - 2)) := by
  unfold Covers at hcovers
  split_ifs at hcovers with heven
  · exact ⟨hcovers.2, fun hodd => absurd heven hodd⟩
  · exact ⟨hcovers.2.le, fun _ => hcovers.2⟩

/-- Two intervals of which one ends where the other begins, or before, have no point in common,
unless both ends belong to them. -/
theorem not_covers_of_upper_le
    (hle : (x.upperEnd : ℚ) * 2 ^ (x.exponent - 2) ≤ y.lowerEnd * 2 ^ (y.exponent - 2))
    (hlt : x.significand % 2 = 0 → y.significand % 2 = 0 →
      (x.upperEnd : ℚ) * 2 ^ (x.exponent - 2) < y.lowerEnd * 2 ^ (y.exponent - 2))
    (hx : x.Covers v) : ¬ y.Covers v := by
  intro hy
  obtain ⟨hupper, hupper'⟩ := hx.le_upper
  obtain ⟨hlower, hlower'⟩ := hy.lower_le
  by_cases hxodd : x.significand % 2 = 0
  · by_cases hyodd : y.significand % 2 = 0
    · linarith [hlt hxodd hyodd]
    · linarith [hlower' hyodd]
  · linarith [hupper' hxodd]

/-- Of two floats of one exponent, the smaller one and the greater one. -/
theorem not_covers_of_significand_lt
    (hexponent : x.exponent = y.exponent) (hlt : x.significand < y.significand)
    (hcovers : x.Covers v) : ¬ y.Covers v := by
  have hunit : (0 : ℚ) < 2 ^ (y.exponent - 2) := by positivity
  have hends : x.upperEnd ≤ y.lowerEnd ∧
      (x.significand % 2 = 0 → y.significand % 2 = 0 → x.upperEnd < y.lowerEnd) := by
    unfold upperEnd lowerEnd quarters
    split_ifs <;> omega
  refine not_covers_of_upper_le ?_ (fun hxeven hyeven => ?_) hcovers
  · rw [hexponent]
    exact mul_le_mul_of_nonneg_right (mod_cast hends.1) hunit.le
  · rw [hexponent]
    exact mul_lt_mul_of_pos_right (mod_cast hends.2 hxeven hyeven) hunit

/-- Of two floats of different exponents, the smaller one and the greater one. -/
theorem Canonical.not_covers_of_exponent_lt (hx : x.Canonical) (hy : y.Canonical)
    (hexponent : x.exponent < y.exponent) (hcovers : x.Covers v) : ¬ y.Covers v := by
  have hunit : (0 : ℚ) < 2 ^ (x.exponent - 2) := by positivity
  have hdouble : (2 : ℚ) * 2 ^ (x.exponent - 2) ≤ 2 ^ (y.exponent - 2) := by
    rw [← zpow_one_add₀ (by norm_num)]
    exact zpow_le_zpow_right₀ (by norm_num) (by omega)
  -- In quarters of the smaller unit, all 53 bits set and a half come to the same as the least
  -- number with 53 bits, less a quarter, in the greater unit.
  have hends : x.upperEnd ≤ 2 * y.lowerEnd ∧
      (x.significand % 2 = 0 → x.upperEnd < 2 * y.lowerEnd) := by
    have hxlt := hx.significand_lt
    have hyle := hy.le_significand (by have := hx.le_exponent; omega)
    have hynarrow := hy.narrowBelow_iff
    unfold upperEnd lowerEnd quarters
    split_ifs with hnarrow
    · omega
    · have hne : y.significand ≠ 2 ^ 52 := fun heq =>
        hnarrow (hynarrow.2 ⟨heq, by have := hx.le_exponent; omega⟩)
      omega
  have hlower : ((2 * y.lowerEnd : ℕ) : ℚ) * 2 ^ (x.exponent - 2) ≤
      y.lowerEnd * 2 ^ (y.exponent - 2) := by
    push_cast
    nlinarith [mul_le_mul_of_nonneg_left hdouble (Nat.cast_nonneg (α := ℚ) y.lowerEnd)]
  refine not_covers_of_upper_le ?_ (fun hxeven _ => ?_) hcovers
  · exact (mul_le_mul_of_nonneg_right (mod_cast hends.1) hunit.le).trans hlower
  · exact (mul_lt_mul_of_pos_right (mod_cast hends.2 hxeven) hunit).trans_le hlower

/-- A number rounds to at most one float. -/
theorem Canonical.eq_of_covers (hx : x.Canonical) (hy : y.Canonical) (hvx : x.Covers v)
    (hvy : y.Covers v) : x = y := by
  rcases lt_trichotomy x.exponent y.exponent with hlt | heq | hgt
  · exact absurd hvy (hx.not_covers_of_exponent_lt hy hlt hvx)
  · rcases lt_trichotomy x.significand y.significand with hless | hsame | hmore
    · exact absurd hvy (not_covers_of_significand_lt heq hless hvx)
    · have hnarrow : x.narrowBelow = y.narrowBelow := by
        rw [Bool.eq_iff_iff, hx.narrowBelow_iff, hy.narrowBelow_iff, heq, hsame]
      obtain ⟨m, e, narrow⟩ := x
      obtain ⟨n, f, narrow'⟩ := y
      simp_all
    · exact absurd hvx (not_covers_of_significand_lt heq.symm hmore hvy)
  · exact absurd hvx (hy.not_covers_of_exponent_lt hx hgt hvy)

/-! ## Whole numbers that round to a float -/

theorem Covers.pos (hpos : 0 < x.significand) (hcovers : x.Covers v) : 0 < v := by
  have hends : 0 < x.lowerEnd := by
    unfold lowerEnd quarters
    split_ifs <;> omega
  have hlower : (0 : ℚ) < x.lowerEnd * 2 ^ (x.exponent - 2) := by positivity
  exact hlower.trans_le hcovers.lower_le.1

theorem Covers.between {u w : ℚ} (hu : x.Covers u) (hw : x.Covers w) (huv : u ≤ v) (hvw : v ≤ w) :
    x.Covers v := by
  unfold Covers at hu hw ⊢
  split_ifs at hu hw ⊢
  · exact ⟨hu.1.trans huv, hvw.trans hw.2⟩
  · exact ⟨hu.1.trans_le huv, hvw.trans_lt hw.2⟩

/-- No whole number but itself rounds to a float with a unit of less than one. -/
theorem Covers.value_eq_natCast {n : ℕ} (hexponent : x.exponent < 0) (hcovers : x.Covers n) :
    x.value = n := by
  have hunit : (0 : ℚ) < 2 ^ (x.exponent - 2) := by positivity
  -- The whole number is so many units.
  obtain ⟨k, hk⟩ := Int.eq_ofNat_of_zero_le (show 0 ≤ -x.exponent by omega)
  have hunits : (n : ℚ) = (n * 2 ^ k : ℕ) * 2 ^ x.exponent := by
    rw [show x.exponent = -(k : ℤ) by omega]
    push_cast
    rw [mul_assoc, zpow_neg, zpow_natCast, mul_inv_cancel₀ (by positivity), mul_one]
  have hquarters : (n : ℚ) = (4 * (n * 2 ^ k) : ℕ) * 2 ^ (x.exponent - 2) := by
    rw [zpow_sub₀ (by norm_num)]
    rw [hunits]
    push_cast
    ring
  have hlower := hcovers.lower_le.1
  have hupper := hcovers.le_upper.1
  rw [hquarters, mul_le_mul_iff_of_pos_right hunit, Nat.cast_le] at hlower hupper
  have hsignificand : x.significand = n * 2 ^ k := by
    unfold lowerEnd quarters at hlower
    unfold upperEnd quarters at hupper
    split_ifs at hlower <;> omega
  rw [value, hsignificand, ← hunits]

/-- Only a whole float is one that a whole number rounds to. -/
theorem Covers.exists_value_eq {n : ℕ} (hcovers : x.Covers n) : ∃ m : ℕ, x.value = m := by
  rcases lt_or_ge x.exponent 0 with hneg | hnonneg
  · exact ⟨n, hcovers.value_eq_natCast hneg⟩
  · obtain ⟨k, hk⟩ := Int.eq_ofNat_of_zero_le hnonneg
    exact ⟨x.significand * 2 ^ k, by simp [value, hk]⟩

/-- The least magnitude that is not one of 63 bits. -/
def boundary : Dyadic :=
  ⟨2 ^ 52, 11, true⟩

theorem canonical_boundary : boundary.Canonical :=
  ⟨by decide, by decide, by decide, by decide⟩

theorem value_boundary : boundary.value = 2 ^ 63 := by
  norm_num [boundary, value]

/-- What is written for a number of more than 63 bits is greater than any of 63 bits, and this is so
at the boundary too. -/
theorem Canonical.lt_value_shortest (hx : x.Canonical) (hlarge : 2 ^ 63 ≤ x.value) :
    2 ^ 63 < x.shortest.value := by
  by_contra hle
  have hcovers : x.Covers (2 ^ 63) :=
    (covers_shortest x).between (covers_value x) (not_lt.1 hle) hlarge
  have hboundary : boundary.Covers (2 ^ 63) := by
    rw [← value_boundary]
    exact covers_value boundary
  obtain rfl : x = boundary := hx.eq_of_covers canonical_boundary hcovers hboundary
  have hshortest : boundary.shortest = ⟨9223372036854776, 3⟩ := by decide +kernel
  rw [hshortest] at hle
  norm_num [Scaled.value] at hle

end Dyadic

end ScriptCore.Decimal
