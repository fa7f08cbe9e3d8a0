import ScriptCore.Equality

/-!
# Methods of lists

Each method takes exactly as many positional arguments as it has parameters; named arguments are
not looked at.
-/

namespace ScriptCore

namespace Heap

/-- Takes a step on the list at an address. -/
def onList {α : Type} (address : Address)
    (step : ResizableArray Value → Except RuntimeError α × ResizableArray Value) :
    Attempt Heap α := fun h =>
  let (outcome, items) := step (h.list address)
  (outcome, h.setList address items)

/-- The position of the first element of a list that equals a value. -/
def indexOf? (h : Heap) (address : Address) (needle : Value) : Option Nat :=
  (h.list address).findIndex? fun item => h.equals item needle

end Heap

namespace ListMethod

/-- What a method does to the list at an address, once its arguments have been counted. -/
def perform (method : ListMethod) (receiver : Address) (arguments : Arguments) :
    Attempt Heap Value :=
  match method with
  | append => do
    Heap.onList receiver fun items => (.ok (), items.append (arguments.nth 0))
    return .null
  | pop => Heap.onList receiver (·.pop)
  | insert => do
    let index ← liftExcept ((arguments.nth 0).asInteger method.qualifiedName)
    Heap.onList receiver (·.insert index.toInt (arguments.nth 1))
    return .null
  | removeAt => do
    let index ← liftExcept ((arguments.nth 0).asInteger method.qualifiedName)
    Heap.onList receiver (·.removeAt index.toInt)
  | get => do
    let index ← liftExcept ((arguments.nth 0).asInteger method.qualifiedName)
    .reading fun h => (h.list receiver).get index.toInt
  | set => do
    let index ← liftExcept ((arguments.nth 0).asInteger method.qualifiedName)
    Heap.onList receiver (·.overwrite index.toInt (arguments.nth 1))
    return .null
  | length => .reading fun h => .ok (.integer (.ofNat (h.list receiver).count))
  | contains => .reading fun h =>
    .ok (.boolean (h.indexOf? receiver (arguments.nth 0)).isSome)
  | indexOf => .reading fun h =>
    match h.indexOf? receiver (arguments.nth 0) with
    | some position => .ok (.integer (.ofNat position))
    | none => .ok .null
  | clear => do
    Heap.onList receiver fun items => (.ok (), items.clear)
    return .null
where
  /-- An outcome that does not depend on the heap. -/
  liftExcept {α : Type} (outcome : Except RuntimeError α) : Attempt Heap α :=
    .reading fun _ => outcome

/-- Calls a method of the list at an address. -/
def call (method : ListMethod) (receiver : Address) (arguments : Arguments) :
    Attempt Heap Value := do
  let taken := method.parameterNames.length
  .reading fun _ => arguments.checkCount method.qualifiedName taken taken
  method.perform receiver arguments

end ListMethod

end ScriptCore
