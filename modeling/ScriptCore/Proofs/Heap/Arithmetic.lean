import Mathlib.Data.Int.ModEq
import Mathlib.Tactic.FinCases
import ScriptCore.Operation

/-!
# Arithmetic of integers

Sums, differences, products and negations of integers are the mathematical ones, reduced to 64 bits
by taking away a multiple of `2 ^ 64`; only a division by zero fails (`integer_arithmetic`).

Quotient and remainder are computed apart from each other.  That they belong together is `DivMod`:
the remainder is exact and has the sign of the dividend, and the quotient is truncated toward zero.
The one quotient that does not fit in 64 bits is that of the least integer by `-1`; reduced, it is
the least integer again, which is off by `2 ^ 64`, so that quotient and remainder give back the
dividend only up to such multiples.
-/

namespace ScriptCore.Heap

variable {l r : Int64}

/-- An operator gives an integer for two integers, and leaves the heap as it is. -/
def Computes (h : Heap) (operator : BinaryOperator) (l r result : Int64) : Prop :=
  (applyBinary operator (.integer l) (.integer r)).on h = (.ok (.integer result), h)

/-- An operator refuses to divide an integer by another one, and leaves the heap as it is. -/
def RefusesToDivide (h : Heap) (operator : BinaryOperator) (l r : Int64) : Prop :=
  (applyBinary operator (.integer l) (.integer r)).on h =
    (.error (.divisionByZero operator.symbol), h)

/-- Quotient and remainder belong to a division that truncates toward zero, as far as 64 bits can
hold the quotient. -/
structure DivMod (l r quotient remainder : Int64) : Prop where
  together : quotient.toInt * r.toInt + remainder.toInt ≡ l.toInt [ZMOD 2 ^ 64]
  remainder_lt : |remainder.toInt| < |r.toInt|
  remainder_sign : remainder.toInt = 0 ∨ remainder.toInt.sign = l.toInt.sign
  truncated :
    if l = Int64.minValue ∧ r = -1 then quotient = Int64.minValue ∧ remainder = 0
    else quotient.toInt = l.toInt.tdiv r.toInt

/-! ## Division -/

theorem toInt_ne_zero (hr : r ≠ 0) : r.toInt ≠ 0 := by
  rwa [ne_eq, ← Int64.toInt_zero, Int64.toInt_inj]

/-- The quotient is reduced, but a multiple of what was taken away is one of `2 ^ 64` too. -/
theorem div_mul_add_mod_modEq (l r : Int64) :
    (l / r).toInt * r.toInt + (l % r).toInt ≡ l.toInt [ZMOD 2 ^ 64] := by
  have hquotient : (l / r).toInt ≡ l.toInt.tdiv r.toInt [ZMOD 2 ^ 64] := by
    rw [Int64.toInt_div]
    exact Int.bmod_emod
  calc (l / r).toInt * r.toInt + (l % r).toInt
      ≡ l.toInt.tdiv r.toInt * r.toInt + (l % r).toInt [ZMOD 2 ^ 64] :=
        (hquotient.mul_right _).add_right _
    _ = l.toInt := by rw [Int64.toInt_mod, Int.tdiv_mul_add_tmod]

theorem abs_toInt_mod_lt (l : Int64) (hr : r ≠ 0) : |(l % r).toInt| < |r.toInt| := by
  rw [Int64.toInt_mod, Int.abs_eq_natAbs, Int.abs_eq_natAbs, Int.natAbs_tmod, Int.ofNat_lt]
  exact Nat.mod_lt _ (Int.natAbs_pos.2 (toInt_ne_zero hr))

theorem sign_toInt_mod (l r : Int64) :
    (l % r).toInt = 0 ∨ (l % r).toInt.sign = l.toInt.sign := by
  rw [Int64.toInt_mod, Int.sign_tmod]
  split
  · rename_i hdvd
    exact .inl (Int.tmod_eq_zero_of_dvd hdvd)
  · exact .inr rfl

/-- The operators on integers divide as they should. -/
theorem divMod_of_ne_zero (l : Int64) (hr : r ≠ 0) : DivMod l r (l / r) (l % r) where
  together := div_mul_add_mod_modEq l r
  remainder_lt := abs_toInt_mod_lt l hr
  remainder_sign := sign_toInt_mod l r
  truncated := by
    split
    · rename_i hoverflow
      rw [hoverflow.1, hoverflow.2]
      decide
    · rename_i hfits
      rcases not_and_or.1 hfits with hleast | hminusOne
      · exact Int64.toInt_div_of_ne_left l r hleast
      · exact Int64.toInt_div_of_ne_right l r hminusOne

/-! ## The operators -/

theorem computes_of_onIntegers {h : Heap} {operator : BinaryOperator} {result : Int64}
    (harithmetic : operator ∈ [.add, .subtract, .multiply, .divide, .modulo])
    (hresult : operator.onIntegers l r = .ok result) : h.Computes operator l r result := by
  have happly : (applyBinary operator (.integer l) (.integer r)).on h =
      ((operator.onIntegers l r).map .integer, h) := by
    fin_cases harithmetic <;> rfl
  rw [Computes, happly, hresult]
  rfl

/-- **Integers are computed with modulo `2 ^ 64`, and only a division by zero fails.**  Quotient and
remainder by any other integer belong together. -/
theorem integer_arithmetic (h : Heap) (l r : Int64) :
    (∃ sum, h.Computes .add l r sum ∧ sum.toInt = (l.toInt + r.toInt).bmod (2 ^ 64)) ∧
    (∃ difference, h.Computes .subtract l r difference ∧
      difference.toInt = (l.toInt - r.toInt).bmod (2 ^ 64)) ∧
    (∃ product, h.Computes .multiply l r product ∧
      product.toInt = (l.toInt * r.toInt).bmod (2 ^ 64)) ∧
    (∃ negation, h.applyUnary .negate (.integer l) = .ok (.integer negation) ∧
      negation.toInt = (-l.toInt).bmod (2 ^ 64)) ∧
    (r = 0 → h.RefusesToDivide .divide l r ∧ h.RefusesToDivide .modulo l r) ∧
    (r ≠ 0 → ∃ quotient remainder,
      h.Computes .divide l r quotient ∧ h.Computes .modulo l r remainder ∧
      DivMod l r quotient remainder) := by
  refine ⟨⟨l + r, rfl, Int64.toInt_add l r⟩, ⟨l - r, rfl, Int64.toInt_sub l r⟩,
    ⟨l * r, rfl, Int64.toInt_mul l r⟩, ⟨-l, rfl, Int64.toInt_neg l⟩, ?_, fun hr => ?_⟩
  · rintro rfl
    exact ⟨rfl, rfl⟩
  · exact ⟨l / r, l % r, computes_of_onIntegers (by simp) (if_neg hr),
      computes_of_onIntegers (by simp) (if_neg hr), divMod_of_ne_zero l hr⟩

end ScriptCore.Heap
