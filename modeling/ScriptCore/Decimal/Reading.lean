/-!
# Reading floats and integers

The texts of numbers: an optional sign and then, for an integer, digits; for a float, digits with
a point among them or at one end, followed by an exponent if there is one, or the name of an
infinity or of NaN.  A decimal is rounded to the nearest float.
-/

namespace ScriptCore.Decimal

/-- Splits a leading sign off a text: whether it is a minus, and what follows. -/
def splitSign : List Char → Bool × List Char
  | '-' :: rest => (true, rest)
  | '+' :: rest => (false, rest)
  | text => (false, text)

/-- Whether a character is one of the ten digits. -/
def isDigit (c : Char) : Bool :=
  '0' ≤ c ∧ c ≤ '9'

/-- The number that a row of digits writes. -/
def digitsValue (digits : List Char) : Nat :=
  digits.foldl (fun value c => value * 10 + (c.toNat - '0'.toNat)) 0

/-- The number that a text of digits writes, if it is not empty and holds nothing else. -/
def natural? (text : List Char) : Option Nat :=
  if text.isEmpty ∨ !text.all isDigit then none else some (digitsValue text)

/-- The number that a text of digits with an optional sign writes. -/
def integer? (text : String) : Option Int :=
  let (negative, digits) := splitSign text.toList
  (natural? digits).map fun value => if negative then -(value : Int) else value

/-- Reads the exponent of a decimal; there may be none. -/
def exponent? : List Char → Option Int
  | [] => some 0
  | c :: rest =>
    if c = 'e' ∨ c = 'E' then
      let (negative, digits) := splitSign rest
      (natural? digits).map fun value => if negative then -(value : Int) else value
    else none

/-- The float nearest to `digits * 10 ^ exponent`. -/
def ofDecimal (digits : Nat) (exponent : Int) : Float :=
  .ofScientific digits (exponent < 0) exponent.natAbs

/-- Reads a decimal without a sign. -/
def magnitude? (text : List Char) : Option Float :=
  let whole := text.takeWhile isDigit
  let (places, rest) :=
    match text.dropWhile isDigit with
    | '.' :: rest => (rest.takeWhile isDigit, rest.dropWhile isDigit)
    | rest => ([], rest)
  if whole.isEmpty ∧ places.isEmpty then none
  else
    (exponent? rest).map fun exponent =>
      ofDecimal (digitsValue (whole ++ places)) (exponent - places.length)

/-- Reads a float. -/
def float? (text : String) : Option Float :=
  let (negative, rest) := splitSign text.toList
  let magnitude :=
    match (String.ofList rest).toLower with
    | "inf" | "infinity" => some (1.0 / 0.0)
    | "nan" => some (0.0 / 0.0)
    | _ => magnitude? rest
  magnitude.map fun x => if negative then -x else x

end ScriptCore.Decimal
