import ScriptCore.Decimal.Dyadic
import ScriptCore.Equality
import ScriptCore.Capability

/-!
# Operators

What the operators do to values that are already evaluated.

* Integers are computed with in 64 bits and wrap around; only a division by zero fails.  As soon as
  one operand is a float, both are.  `+` also joins strings and lists.
* Numbers, strings and instants are ordered; strings by the code points of their characters.  NaN
  is neither less nor greater than anything.
* `==` and `!=` take any two values.
-/

namespace ScriptCore

namespace Value

/-- A number as a float; integers are rounded. -/
def toFloat? : Value → Option Float
  | integer number => some (Float.ofInt number.toInt)
  | float number => some number
  | _ => none

end Value

namespace BinaryOperator

/-- The operator on integers; the operators that are none of arithmetic count as `%`. -/
def onIntegers (operator : BinaryOperator) (left right : Int64) : Except RuntimeError Int64 :=
  match operator with
  | add => .ok (left + right)
  | subtract => .ok (left - right)
  | multiply => .ok (left * right)
  | divide => if right = 0 then .error (.divisionByZero operator.symbol) else .ok (left / right)
  | _ => if right = 0 then .error (.divisionByZero operator.symbol) else .ok (left % right)

/-- The operator on floats; the operators that are none of arithmetic count as `%`. -/
def onFloats (operator : BinaryOperator) (left right : Float) : Float :=
  match operator with
  | add => left + right
  | subtract => left - right
  | multiply => left * right
  | divide => left / right
  | _ => Decimal.remainder left right

/-- The order that operands count as standing in if they stand in none. -/
def orderOfUnordered (operator : BinaryOperator) : Ordering :=
  match operator with
  | less | lessEqual => .gt
  | _ => .lt

/-- Whether an operator of order holds, given how the operands stand to each other; of operands
that stand in no order none holds. -/
def holdsFor (operator : BinaryOperator) (order : Option Ordering) : Bool :=
  let order := order.getD operator.orderOfUnordered
  match operator with
  | less => order = .lt
  | lessEqual => order ≠ .gt
  | greater => order = .gt
  | _ => order ≠ .lt

end BinaryOperator

/-- How two floats stand to each other; NaN stands in no order to anything. -/
def compareFloats (left right : Float) : Option Ordering :=
  if left < right then some .lt
  else if right < left then some .gt
  else if left == right then some .eq
  else none

/-- How two strings stand to each other. -/
def compareStrings (left right : String) : Ordering :=
  if left < right then .lt else if left = right then .eq else .gt

/-- How two integers stand to each other. -/
def compareIntegers (left right : Int64) : Ordering :=
  if left < right then .lt else if left = right then .eq else .gt

/-- How two values stand to each other, if their types have an order. -/
def compareValues (left right : Value) : Option (Option Ordering) :=
  match left, right with
  | .integer l, .integer r => some (some (compareIntegers l r))
  | .string l, .string r => some (some (compareStrings l r))
  | .datetime l, .datetime r => some (some (l.order r))
  | _, _ =>
    match left.toFloat?, right.toFloat? with
    | some l, some r => some (compareFloats l r)
    | _, _ => none

namespace Heap

/-- The arithmetic operators. -/
def arithmetic (operator : BinaryOperator) (left right : Value) : Attempt Heap Value := fun h =>
  match left, right with
  | .integer l, .integer r => ((operator.onIntegers l r).map .integer, h)
  | _, _ =>
    match left.toFloat?, right.toFloat? with
    | some l, some r => (.ok (.float (operator.onFloats l r)), h)
    | _, _ =>
      match operator, left, right with
      | .add, .string l, .string r => (.ok (.string (l ++ r)), h)
      | .add, .list l, .list r =>
        let (value, h) := h.newList ((h.list l).toList ++ (h.list r).toList)
        (.ok value, h)
      | _, _, _ =>
        (.error (.typeMismatch operator.symbol ("operands compatible with " ++ left.tag.name)
          right.tag), h)

/-- The operators of order. -/
def ordering (operator : BinaryOperator) (left right : Value) : Except RuntimeError Bool :=
  match compareValues left right with
  | some order => .ok (operator.holdsFor order)
  | none =>
    .error (.typeMismatch operator.symbol ("value comparable with " ++ left.tag.name) right.tag)

/-- Applies an operator to two values. -/
def applyBinary (operator : BinaryOperator) (left right : Value) : Attempt Heap Value :=
  match operator with
  | .equal => .reading fun h => .ok (.boolean (h.equals left right))
  | .notEqual => .reading fun h => .ok (.boolean (!h.equals left right))
  | .less | .lessEqual | .greater | .greaterEqual =>
    .reading fun _ => (ordering operator left right).map .boolean
  | .and => .reading fun h => .ok (.boolean (h.isTruthy left && h.isTruthy right))
  | .or => .reading fun h => .ok (.boolean (h.isTruthy left || h.isTruthy right))
  | .add | .subtract | .multiply | .divide | .modulo => arithmetic operator left right

/-- Applies an operator to one value. -/
def applyUnary (h : Heap) (operator : UnaryOperator) (operand : Value) :
    Except RuntimeError Value :=
  match operator, operand with
  | .not, value => .ok (.boolean (!h.isTruthy value))
  | .negate, .integer number => .ok (.integer (-number))
  | .negate, .float number => .ok (.float (-number))
  | .negate, other => .error (.typeMismatch "-" "number" other.tag)

end Heap

end ScriptCore
