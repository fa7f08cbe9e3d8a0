import ScriptCore.Decimal.Positional
import ScriptCore.Heap

/-!
# Keys of values

The key of a value is what a dict tells its entries apart by.  Integers and floats share one
namespace, so that a whole float has the key of the integer; modules and functions are keyed by
identity.  Lists, dicts and structs can change and therefore have no key.
-/

namespace ScriptCore

/-- An address in hexadecimal. -/
def addressText (address : Address) : String :=
  "0x" ++ String.ofList (Nat.toDigits 16 address)

/-- The number that a float is keyed by: an integer where it is one of less than 63 bits. -/
def floatKeyText (number : Float) : String :=
  match Decimal.smallWhole? number with
  | some whole => toString whole
  | none => Decimal.plainText number

namespace Heap

/-- The text of the key of a value, if it has one. -/
def keyText? (h : Heap) : Value → Option String
  | .integer number => some ("n:" ++ toString number.toInt)
  | .float number => some ("n:" ++ floatKeyText number)
  | .string text => some ("s:" ++ text)
  | .boolean truth => some ("b:" ++ if truth then "true" else "false")
  | .null => some "null"
  | .datetime instant => some ("d:" ++ instant.text)
  | .error label message => some ("e:" ++ label ++ ":" ++ message)
  | .module address =>
    some ("m:" ++ (h.module address).name ++ "#" ++ addressText address)
  | .function address =>
    some ("f:" ++ (h.function address).name ++ "#" ++ addressText address)
  | .list _ => none
  | .dict _ => none
  | .struct _ => none

/-- The key of a value, or the error that it has none. -/
def key (h : Heap) (value : Value) : Except RuntimeError Key :=
  match h.keyText? value with
  | some text => .ok (.ofText text)
  | none => .error (.typeMismatch "hash" "a hashable value" value.tag)

end Heap

end ScriptCore
