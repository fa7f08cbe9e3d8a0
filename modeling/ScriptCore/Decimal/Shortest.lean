import ScriptCore.Decimal.Dyadic

/-!
# Shortest digits

The shortest decimal that reads back as a given float.  The reals that round to a float form an
interval: from halfway to the float below to halfway to the float above, with both ends when the
significand is even.  Among the decimals in that interval those with the fewest digits are
shortest, and of these the one nearest to the float is chosen; of two that are equally near, the
greater.

The search takes the grids of one digit, two digits and so on.  If a grid meets the interval
then one of the two points of the grid around the float does, so two candidates a grid are
enough.  All comparisons are made by cross-multiplying natural numbers.
-/

namespace ScriptCore.Decimal

/-- The decimal `digits * 10 ^ exponent`. -/
structure Scaled where
  digits : Nat
  exponent : Int
  deriving DecidableEq, Repr

namespace Dyadic

/-- Four times the significand: in quarters, both ends of the rounding interval are whole. -/
def quarters (x : Dyadic) : Nat :=
  4 * x.significand

/-- The lower end of the rounding interval, in quarters. -/
def lowerEnd (x : Dyadic) : Nat :=
  if x.narrowBelow then x.quarters - 1 else x.quarters - 2

/-- The upper end of the rounding interval, in quarters. -/
def upperEnd (x : Dyadic) : Nat :=
  x.quarters + 2

/-- A quarter of the unit of `x`, divided by `10 ^ grid`, as a numerator and a denominator. -/
def quarterOnGrid (x : Dyadic) (grid : Int) : Nat × Nat :=
  let unit := x.exponent - 2
  (Nat.pow 10 (-grid).toNat <<< unit.toNat, Nat.pow 10 grid.toNat <<< (-unit).toNat)

/-- Whether the point `digits * 10 ^ grid` rounds to `x`. -/
def readsBack (x : Dyadic) (digits : Nat) (grid : Int) : Bool :=
  let (scale, step) := x.quarterOnGrid grid
  let point := digits * step
  if x.significand % 2 = 0 then x.lowerEnd * scale ≤ point ∧ point ≤ x.upperEnd * scale
  else x.lowerEnd * scale < point ∧ point < x.upperEnd * scale

/-- The point of a grid that stands for `x`: of the two points around `x` the one that reads back,
or the nearer if both do, or the greater if both are equally near. -/
def onGrid? (x : Dyadic) (grid : Int) : Option Scaled :=
  let (scale, step) := x.quarterOnGrid grid
  let below := x.quarters * scale / step
  let above := below + 1
  match x.readsBack below grid, x.readsBack above grid with
  | true, true =>
    if 2 * x.quarters * scale < (below + above) * step then some ⟨below, grid⟩
    else some ⟨above, grid⟩
  | true, false => some ⟨below, grid⟩
  | false, true => some ⟨above, grid⟩
  | false, false => none

/-- Whether `x` is less than `10 ^ power`. -/
def isBelowPower (x : Dyadic) (power : Int) : Bool :=
  x.numerator * Nat.pow 10 (-power).toNat < x.denominator * Nat.pow 10 power.toNat

/-- The least power of ten above `x`.  The binary logarithm, turned into a decimal one, is at
most two below it. -/
def leastPowerAbove (x : Dyadic) : Int :=
  let estimate := ((x.significand.log2 : Int) + x.exponent) * 30103 / 100000
  if x.isBelowPower estimate then estimate
  else if x.isBelowPower (estimate + 1) then estimate + 1
  else estimate + 2

/-- The exact decimal of `x`. -/
def exactDecimal (x : Dyadic) : Scaled :=
  if x.exponent < 0 then ⟨x.significand * Nat.pow 5 (-x.exponent).toNat, x.exponent⟩
  else ⟨x.significand <<< x.exponent.toNat, 0⟩

/-- The shortest decimal that reads back as `x`; seventeen digits are always enough. -/
def shortest (x : Dyadic) : Scaled :=
  if x.significand = 0 then ⟨0, 0⟩
  else
    let power := x.leastPowerAbove
    ((List.range 17).findSome? fun (n : Nat) => x.onGrid? (power - (n + 1))).getD x.exactDecimal

end Dyadic

end ScriptCore.Decimal
