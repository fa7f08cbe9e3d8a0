import ScriptCore.Dict
import ScriptCore.Rendering

/-!
# Capabilities of values

What can be asked of a value whatever its type: its truth, its length, its attributes, its
documentation, whether and with how many parameters it can be called.  A type that lacks a
capability says so with an error.

Looking up a method on a list or a dict makes a new function that is bound to the container, so
reading an attribute can change the heap.
-/

namespace ScriptCore.Heap

/-- Null, false, zero, the empty string and empty lists and dicts are false; all else is true. -/
def isTruthy (h : Heap) : Value → Bool
  | .null => false
  | .boolean truth => truth
  | .integer number => number != 0
  | .float number => number != 0.0
  | .string text => !text.isEmpty
  | .list address => !(h.list address).isEmpty
  | .dict address => !(h.dict address).isEmpty
  | _ => true

/-- The number of characters, elements, entries, attributes or fields. -/
def length (h : Heap) : Value → Except RuntimeError Nat
  | .string text => .ok text.length
  | .list address => .ok (h.list address).count
  | .dict address => .ok (h.dict address).count
  | .module address => .ok (h.module address).attributes.count
  | .struct address => .ok (h.struct address).fields.count
  | other => .error (.unsupported other.tag.name "length")

/-! ## Attributes -/

/-- The error that a value of some type lacks an attribute. -/
def missingAttribute (value : Value) (name : String) : RuntimeError :=
  .noAttribute value.tag.name name

/-- The attribute of a module. -/
def moduleAttribute (h : Heap) (address : Address) (name : String) : Except RuntimeError Value :=
  match (h.module address).attributes.find? name with
  | some value => .ok value
  | none => .error (.noAttribute ("module " ++ (h.module address).name) name)

/-- The field of an instance of a struct. -/
def structField (h : Heap) (address : Address) (name : String) : Except RuntimeError Value :=
  match (h.struct address).fields.find? name with
  | some value => .ok value
  | none => .error (.noAttribute ("struct " ++ h.structName address) name)

/-- What a function tells about itself. -/
def functionAttribute (function : Function) (name : String) : Option Value :=
  match name with
  | "name" => some (.string function.name)
  | "doc" => some (function.doc.elim .null .string)
  | "arity" => some (.integer (.ofNat function.parameters.count))
  | "tail_call_optimized" => some (.boolean function.tailCallOptimized)
  | _ => none

/-- What an error tells about itself. -/
def errorAttribute (label message name : String) : Option Value :=
  match name with
  | "kind" => some (.string label)
  | "message" => some (.string message)
  | _ => none

/-- Makes a method that is bound to a container. -/
def boundMethod (name : String) (parameters : Parameters) (callable : Callable) :
    Attempt Heap Value := fun h =>
  let (value, h) := h.newFunction name parameters callable
  (.ok value, h)

/-- Reads an attribute of a value.  Modules and structs have attributes of their own; lists and
dicts have their methods; errors and functions tell about themselves. -/
def getAttribute (value : Value) (name : String) : Attempt Heap Value :=
  match value with
  | .module address => .reading fun h => h.moduleAttribute address name
  | .struct address => .reading fun h => h.structField address name
  | .list address =>
    match ListMethod.ofName? name with
    | some method =>
      boundMethod method.qualifiedName method.parameters (.listMethod method address)
    | none => throw (missingAttribute value name)
  | .dict address =>
    match DictMethod.ofName? name with
    | some method =>
      boundMethod method.qualifiedName method.parameters (.dictMethod method address)
    | none => throw (missingAttribute value name)
  | .error label message =>
    match errorAttribute label message name with
    | some found => return found
    | none => throw (missingAttribute value name)
  | .function address => .reading fun h =>
    match functionAttribute (h.function address) name with
    | some found => .ok found
    | none => .error (missingAttribute value name)
  | _ => throw (missingAttribute value name)

/-- Writes an attribute.  Modules take any attribute; structs take new values for the fields they
have. -/
def setAttribute (target : Value) (name : String) (value : Value) : Attempt Heap Unit :=
  match target with
  | .module address => fun h =>
    let owner := h.module address
    (.ok (), h.setModule address { owner with attributes := owner.attributes.set name value })
  | .struct address => fun h =>
    let owner := h.struct address
    if owner.fields.contains name then
      (.ok (), h.setStruct address { owner with fields := owner.fields.set name value })
    else (.error (.noAttribute ("struct " ++ h.structName address) name), h)
  | other => throw (.unsupported other.tag.name "attribute assignment")

/-- Removes an attribute of a module and gives back its value. -/
def removeAttribute (address : Address) (name : String) : Attempt Heap Value := fun h =>
  let owner := h.module address
  if owner.attributes.contains name then
    let (outcome, attributes) := owner.attributes.remove name
    (outcome, h.setModule address { owner with attributes })
  else (.error (.noAttribute ("module " ++ owner.name) name), h)

/-! ## Documentation -/

/-- The documentation of a function or a module. -/
def doc (h : Heap) : Value → Except RuntimeError (Option String)
  | .function address => .ok (h.function address).doc
  | .module address => .ok (h.module address).doc
  | other => .error (.unsupported other.tag.name "documentation")

/-- Documents a function or a module. -/
def setDoc (target : Value) (text : String) : Attempt Heap Unit :=
  match target with
  | .function address => fun h =>
    (.ok (), h.setFunction address { h.function address with doc := some text })
  | .module address => fun h =>
    (.ok (), h.setModule address { h.module address with doc := some text })
  | other => throw (.unsupported other.tag.name "documentation")

/-! ## Calling -/

/-- Whether a value can be called: functions can, and modules that make structs. -/
def isCallable (h : Heap) : Value → Bool
  | .function _ => true
  | .module address => (h.module address).template.isSome
  | _ => false

/-- The number of declared parameters of a value that can be called. -/
def arity (h : Heap) (value : Value) : Except RuntimeError Nat :=
  match value with
  | .function address => .ok (h.function address).parameters.count
  | .module address =>
    match (h.module address).template with
    | some template => .ok template.count
    | none => .error (.unsupported value.tag.name "call")
  | other => .error (.unsupported other.tag.name "call")

end ScriptCore.Heap
