import ScriptCore.Dict

/-!
# Methods of dicts

Each method takes as many positional arguments as it has required parameters, up to the number of
all its parameters; named arguments are not looked at.
-/

namespace ScriptCore

namespace Heap

/-- Makes a list of pairs, each pair being a list itself. -/
def makePairs (pairs : List (Value × Value)) : Attempt Heap Value := do
  makeList (← pairs.mapM fun (first, second) => makeList [first, second])

end Heap

namespace DictMethod

/-- What a method does to the dict at an address, once its arguments have been counted. -/
def perform (method : DictMethod) (receiver : Address) (arguments : Arguments) :
    Attempt Heap Value :=
  match method with
  | get => .reading fun h => do
    let table := h.dict receiver
    let key := arguments.nth 0
    match arguments.positional[1]? with
    | none => h.lookupEntry table key
    | some fallback => if ← h.hasEntry table key then h.lookupEntry table key else .ok fallback
  | set => fun h =>
    match h.insertEntry (h.dict receiver) (arguments.nth 0) (arguments.nth 1) with
    | .error err => (.error err, h)
    | .ok table => (.ok .null, h.setDict receiver table)
  | remove => fun h =>
    let (outcome, table) := h.removeEntry (h.dict receiver) (arguments.nth 0)
    (outcome, h.setDict receiver table)
  | has => .reading fun h => (h.hasEntry (h.dict receiver) (arguments.nth 0)).map .boolean
  | keys => fun h => Heap.makeList (h.dict receiver).rawKeys.toList h
  | values => fun h => Heap.makeList (h.dict receiver).values.toList h
  | items => fun h => Heap.makePairs (h.dict receiver).entries h
  | length => .reading fun h => .ok (.integer (.ofNat (h.dict receiver).count))
  | clear => fun h => (.ok .null, h.setDict receiver (h.dict receiver).clear)

/-- Calls a method of the dict at an address. -/
def call (method : DictMethod) (receiver : Address) (arguments : Arguments) :
    Attempt Heap Value := do
  let least := method.requiredNames.length
  .reading fun _ =>
    arguments.checkCount method.qualifiedName least (least + method.optionalNames.length)
  method.perform receiver arguments

end DictMethod

end ScriptCore
