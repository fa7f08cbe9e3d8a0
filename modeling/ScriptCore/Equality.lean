import ScriptCore.Heap

/-!
# Equality of values

Numbers are equal when their values are, whatever their type; containers are equal when they have
the same shape and equal contents; modules and functions are equal only to themselves.

Equality of containers is a matter of what can be told apart from outside: two values differ if
some path of matching positions leads to two values that differ at the head.  So a pair of
containers that is met again while it is being compared counts as equal, and comparing cyclic
values ends.
-/

namespace ScriptCore.Heap

/-- Whether an integer and a float are the same number, the integer being rounded to a float. -/
def sameNumber (integer : Int64) (float : Float) : Bool :=
  Float.ofInt integer.toInt == float

/-- Whether two values are the same container. -/
def sameContainer : Value → Value → Bool
  | .list left, .list right => left == right
  | .dict left, .dict right => left == right
  | .struct left, .struct right => left == right
  | _, _ => false

/-- The values of two tables that stand under the same keys, if every key of the first is in the
second. -/
def matchingValues {κ : Type} (left right : HashTable κ Value) : Option (List (Value × Value)) :=
  left.indexed.mapM fun (key, hash, value) =>
    (right.find? key hash).map fun entry => (value, entry.value)

/-- Compares two values without looking into containers.  If they agree so far, the answer lists
the pairs of values at matching positions, which have to be equal as well; otherwise there is
none. -/
def compareHeads (h : Heap) : Value → Value → Option (List (Value × Value))
  | .integer left, .integer right => if left == right then some [] else none
  | .float left, .float right => if left == right then some [] else none
  | .integer left, .float right => if sameNumber left right then some [] else none
  | .float left, .integer right => if sameNumber right left then some [] else none
  | .string left, .string right => if left == right then some [] else none
  | .boolean left, .boolean right => if left == right then some [] else none
  | .null, .null => some []
  | .datetime left, .datetime right => if left == right then some [] else none
  | .error leftLabel leftMessage, .error rightLabel rightMessage =>
    if leftLabel == rightLabel ∧ leftMessage == rightMessage then some [] else none
  | .list left, .list right =>
    let (left, right) := (h.list left, h.list right)
    if left.count == right.count then some (left.toList.zip right.toList) else none
  | .dict left, .dict right =>
    let (left, right) := (h.dict left, h.dict right)
    if left.count == right.count then matchingValues left right else none
  | .struct left, .struct right =>
    let (left, right) := (h.struct left, h.struct right)
    if left.kind == right.kind ∧ left.fields.count == right.fields.count then
      matchingValues left.fields.table right.fields.table
    else none
  | .module left, .module right => if left == right then some [] else none
  | .function left, .function right => if left == right then some [] else none
  | _, _ => none

/-- Whether no difference shows within the given number of levels; the pairs that are being
compared already count as equal. -/
def equalsWithin (h : Heap) : Nat → List (Value × Value) → Value → Value → Bool
  | 0, _, _, _ => true
  | levels + 1, comparing, left, right =>
    if sameContainer left right then true
    else if (left, right) ∈ comparing then true
    else
      match h.compareHeads left right with
      | none => false
      | some pairs =>
        pairs.all fun (left', right') =>
          h.equalsWithin levels ((left, right) :: comparing) left' right'

/-- A number of levels within which every difference shows: one for each pair of containers of a
kind and two more. -/
def comparisonLevels (h : Heap) : Nat :=
  h.lists.size * h.lists.size + h.dicts.size * h.dicts.size + h.structs.size * h.structs.size + 2

/-- Whether two values are equal. -/
def equals (h : Heap) (left right : Value) : Bool :=
  h.equalsWithin h.comparisonLevels [] left right

end ScriptCore.Heap
