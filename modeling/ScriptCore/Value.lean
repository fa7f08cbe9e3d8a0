import ScriptCore.Error
import ScriptCore.Instant

/-!
# Values

A value is either data that is held in place or the address of something shared: a list, a dict,
a module, an instance of a struct or a function.  Copying a value copies the address, so two
copies name the same container; what stands at an address is the heap's business.

`Container` names the four kinds of things that can hold values and so take part in cycles.
-/

namespace ScriptCore

/-- Where a shared thing stands in the heap, among the things of its kind. -/
abbrev Address := Nat

/-- The values of the language. -/
inductive Value
  | null
  | boolean (truth : Bool)
  | integer (number : Int64)
  | float (number : Float)
  | string (text : String)
  | datetime (instant : Instant)
  | error (label message : String)
  | list (address : Address)
  | dict (address : Address)
  | module (address : Address)
  | struct (address : Address)
  | function (address : Address)
  deriving DecidableEq

instance : Inhabited Value := ⟨.null⟩

/-- The shared things that hold values. -/
inductive Container
  | list (address : Address)
  | dict (address : Address)
  | module (address : Address)
  | struct (address : Address)
  deriving DecidableEq, Repr

namespace Value

/-- The type of a value. -/
def tag : Value → TypeTag
  | null => .null
  | boolean _ => .boolean
  | integer _ => .integer
  | float _ => .float
  | string _ => .string
  | datetime _ => .datetime
  | error .. => .error
  | list _ => .list
  | dict _ => .dict
  | module _ => .module
  | struct _ => .module
  | function _ => .function

/-- The value that a handler sees of an error.  An error that the program raised keeps its category
and message; of any other error the category's name and the whole message are kept. -/
def ofError : RuntimeError → Value
  | .raised label message => error label message
  | err => error err.kind.text err.message

/-- The number of an integer value. -/
def asInteger (value : Value) (operation : String) : Except RuntimeError Int64 :=
  match value with
  | integer number => .ok number
  | other => .error (.typeMismatch operation "integer" other.tag)

/-- The text of a string value. -/
def asString (value : Value) (operation : String) : Except RuntimeError String :=
  match value with
  | string text => .ok text
  | other => .error (.typeMismatch operation "string" other.tag)

end Value

end ScriptCore
