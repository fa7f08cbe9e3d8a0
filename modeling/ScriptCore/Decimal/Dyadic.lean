/-!
# Floats as exact numbers

A finite float is a natural number times a power of two.  This module decodes the bits of a
float into that form, so that digits and remainders can be computed in exact arithmetic.
-/

namespace ScriptCore.Decimal

/-- The number `significand * 2 ^ exponent`, as the magnitude of a float.  The gap to the next
smaller float is half the gap to the next larger one when `narrowBelow` is set, which is the case
at powers of two. -/
structure Dyadic where
  significand : Nat
  exponent : Int
  narrowBelow : Bool
  deriving DecidableEq, Repr

/-- What a float stands for. -/
inductive Shape
  | notANumber
  | infinite (negative : Bool)
  | finite (negative : Bool) (magnitude : Dyadic)
  deriving DecidableEq, Repr

/-- Reads the fields of a float of 64 bits: a sign, eleven bits of exponent and 52 bits of
fraction.  The least exponent has no hidden bit, the greatest marks infinities and NaN. -/
def shape (x : Float) : Shape :=
  let bits := x.toBits
  let negative := bits >>> 63 == 1
  let biased := ((bits >>> 52) &&& 0x7FF).toNat
  let fraction := (bits &&& 0xFFFFFFFFFFFFF).toNat
  if biased = 0x7FF then
    if fraction = 0 then .infinite negative else .notANumber
  else if biased = 0 then .finite negative ⟨fraction, -1074, false⟩
  else .finite negative ⟨0x10000000000000 + fraction, biased - 1075, fraction = 0 ∧ 1 < biased⟩

namespace Dyadic

/-- The denominator of the number when it is written over a power of two. -/
def denominator (x : Dyadic) : Nat :=
  1 <<< (-x.exponent).toNat

/-- The numerator over that denominator. -/
def numerator (x : Dyadic) : Nat :=
  x.significand <<< x.exponent.toNat

/-- Whether the number is whole. -/
def isWhole (x : Dyadic) : Bool :=
  x.numerator % x.denominator == 0

/-- The whole part of the number. -/
def floor (x : Dyadic) : Nat :=
  x.numerator / x.denominator

/-- The float nearest to `significand * 2 ^ exponent`, by way of a decimal: a negative power of
two is a power of five over a power of ten. -/
def toFloat (significand : Nat) (exponent : Int) : Float :=
  if exponent < 0 then
    .ofScientific (significand * Nat.pow 5 (-exponent).toNat) true (-exponent).toNat
  else .ofScientific (significand <<< exponent.toNat) false 0

end Dyadic

/-- The remainder of the division of two floats that truncates toward zero: it has the sign of the
dividend and is computed exactly.  There is none for an infinite dividend or a zero divisor. -/
def remainder (x y : Float) : Float :=
  match shape x, shape y with
  | .finite negative a, .finite _ b =>
    if b.significand = 0 then 0.0 / 0.0
    else
      let exponent := min a.exponent b.exponent
      let dividend := a.significand <<< (a.exponent - exponent).toNat
      let divisor := b.significand <<< (b.exponent - exponent).toNat
      let rest := Dyadic.toFloat (dividend % divisor) exponent
      if negative then -rest else rest
  | .finite _ _, .infinite _ => x
  | _, _ => 0.0 / 0.0

end ScriptCore.Decimal
