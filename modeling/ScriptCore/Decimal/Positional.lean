import ScriptCore.Decimal.Shortest

/-!
# Float text

Floats are always written out in full, never with an exponent.  There are two forms.

* `floatText`, the display form: a whole float is written with all digits of its exact value and
  a final `.0`; any other float with its shortest digits.
* `plainText`, the form inside keys: the shortest digits, filled up with zeros where they end
  left of the point, and no point for a whole float.
-/

namespace ScriptCore.Decimal

/-- So many zeros. -/
def zeros (count : Nat) : String :=
  String.ofList (List.replicate count '0')

namespace Scaled

/-- Drops zeros at the end of a text of digits, giving what is left and their number. -/
def dropZeros (digits : List Char) : List Char × Nat :=
  let kept := (digits.reverse.dropWhile (· == '0')).reverse
  (kept, digits.length - kept.length)

/-- The digits of the decimal written out: filled up with zeros left of the point, or with a point
inside, or behind `0.` and zeros. -/
def positional (d : Scaled) : String :=
  if d.digits = 0 then "0"
  else
    let (digits, dropped) := dropZeros (Nat.repr d.digits).toList
    let exponent := d.exponent + dropped
    if 0 ≤ exponent then String.ofList digits ++ zeros exponent.toNat
    else
      let places := (-exponent).toNat
      if places < digits.length then
        let whole := digits.length - places
        String.ofList (digits.take whole) ++ "." ++ String.ofList (digits.drop whole)
      else "0." ++ zeros (places - digits.length) ++ String.ofList digits

end Scaled

/-- The sign in front of a number. -/
def signText (negative : Bool) : String :=
  if negative then "-" else ""

/-- The display form of a float. -/
def floatText (x : Float) : String :=
  match shape x with
  | .notANumber => "NaN"
  | .infinite negative => signText negative ++ "inf"
  | .finite negative magnitude =>
    signText negative ++
      if magnitude.isWhole then Nat.repr magnitude.floor ++ ".0"
      else magnitude.shortest.positional

/-- The form of a float with nothing but its shortest digits. -/
def plainText (x : Float) : String :=
  match shape x with
  | .notANumber => "NaN"
  | .infinite negative => signText negative ++ "inf"
  | .finite negative magnitude => signText negative ++ magnitude.shortest.positional

/-- The value of a float that is a whole number of less than 63 bits. -/
def smallWhole? (x : Float) : Option Int :=
  match shape x with
  | .finite negative magnitude =>
    if magnitude.isWhole ∧ magnitude.floor < 0x8000000000000000 then
      some (if negative then -(magnitude.floor : Int) else magnitude.floor)
    else none
  | _ => none

end ScriptCore.Decimal
