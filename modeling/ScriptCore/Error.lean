import ScriptCore.TypeTag

/-!
# Runtime errors

Every violated precondition of the runtime is one `RuntimeError`, which says what went wrong;
`RuntimeError.message` words it and `RuntimeError.kind` gives the category a handler can tell
apart.  Containers, scopes and the call stack never recover on their own: they report the error
to whoever called them.

`Attempt σ α` is a computation on a state that may fail.  What it did to the state before it
failed stays done.
-/

namespace ScriptCore

/-- The categories of errors; `raised` holds the category that a program chose for its own error. -/
inductive ErrorKind
  | bounds
  | empty
  | key
  | name
  | member
  | overflow
  | type
  | arithmetic
  | internal
  | raised (label : String)
  deriving DecidableEq, Repr

/-- The name under which a program sees the category. -/
def ErrorKind.text : ErrorKind → String
  | bounds => "bounds"
  | empty => "empty"
  | key => "key"
  | name => "name"
  | member => "attribute"
  | overflow => "overflow"
  | type => "type"
  | arithmetic => "arithmetic"
  | internal => "internal"
  | raised label => label

/-- The ways in which the arguments of a call can miss the declared parameters. -/
inductive ArityFault
  /-- More positional arguments than parameters. -/
  | surplus (declared given : Nat)
  /-- A named argument that names no parameter. -/
  | unexpected (name : String)
  /-- A parameter that gets two arguments. -/
  | repeated (name : String)
  /-- A required parameter without an argument. -/
  | missing (name : String)
  /-- A count of positional arguments outside the range a native function takes. -/
  | outsideRange (least most given : Nat)
  deriving DecidableEq, Repr

/-- The wording of a fault.  A range of one count is written as that count. -/
def ArityFault.message : ArityFault → String
  | surplus declared given => s!"takes at most {declared} arguments, got {given}"
  | unexpected name => s!"unexpected argument '{name}'"
  | repeated name => s!"argument '{name}' given more than once"
  | missing name => s!"missing required argument '{name}'"
  | outsideRange least most given =>
    if least = most then s!"expected {least} arguments, got {given}"
    else s!"expected {least}..{most} arguments, got {given}"

/-- What can go wrong at run time. -/
inductive RuntimeError
  /-- An index that names no element of an array. -/
  | outOfBounds (operation : String) (index : Int) (length : Nat)
  /-- Taking an element from an array that has none. -/
  | emptyArray (operation : String)
  /-- A key that a table does not hold. -/
  | keyNotFound (key : String)
  /-- A name that is not bound in a scope. -/
  | undefinedName (name : String)
  /-- An attribute that its owner does not have. -/
  | noAttribute (owner name : String)
  /-- A scope that would make the call stack longer than allowed. -/
  | depthExceeded (limit : Nat) (function : String)
  /-- An operand of the wrong type. -/
  | typeMismatch (operation expected : String) (got : TypeTag)
  /-- A capability that a type does not have. -/
  | unsupported (owner capability : String)
  /-- Arguments that do not fit the callee. -/
  | arity (function : String) (fault : ArityFault)
  /-- An integer divided by zero. -/
  | divisionByZero (operation : String)
  /-- A handle to a scope that has been reclaimed. -/
  | deadRecord (index : Nat)
  /-- An error that the program raised. -/
  | raised (label message : String)
  deriving DecidableEq, Repr

namespace RuntimeError

/-- The category of an error. -/
def kind : RuntimeError → ErrorKind
  | outOfBounds .. => .bounds
  | emptyArray .. => .empty
  | keyNotFound .. => .key
  | undefinedName .. => .name
  | noAttribute .. => .member
  | depthExceeded .. => .overflow
  | typeMismatch .. => .type
  | unsupported .. => .type
  | arity .. => .type
  | divisionByZero .. => .arithmetic
  | deadRecord .. => .internal
  | raised label _ => .raised label

/-- The wording of an error. -/
def message : RuntimeError → String
  | outOfBounds operation index length =>
    s!"{operation}: index {index} out of bounds for length {length}"
  | emptyArray operation => s!"{operation} on empty array"
  | keyNotFound key => s!"key not found: {key}"
  | undefinedName name => s!"name '{name}' is not defined"
  | noAttribute owner name => s!"{owner} has no attribute '{name}'"
  | depthExceeded limit function =>
    s!"maximum call depth {limit} exceeded while calling '{function}'"
  | typeMismatch operation expected got => s!"{operation} expected {expected}, got {got.name}"
  | unsupported owner capability => s!"{owner} does not support {capability}"
  | arity function fault => s!"{function}: {fault.message}"
  | divisionByZero operation => s!"{operation}: division by zero"
  | deadRecord index => s!"record #{index} is no longer live"
  | raised label message => s!"{label}: {message}"

end RuntimeError

/-- A computation on a state `σ` that yields an `α` or fails; either way the state it reached is
kept. -/
abbrev Attempt (σ α : Type) : Type := ExceptT RuntimeError (StateM σ) α

namespace Attempt

/-- Runs a computation on a state, giving its outcome and the state it leaves. -/
@[inline] def on {σ α : Type} (attempt : Attempt σ α) (state : σ) : Except RuntimeError α × σ :=
  attempt state

/-- The computation that takes one step of the given form. -/
@[inline] def ofStep {σ α : Type} (step : σ → Except RuntimeError α × σ) : Attempt σ α :=
  step

/-- Reads the state in a way that may fail, and leaves it as it is. -/
@[inline] def reading {σ α : Type} (read : σ → Except RuntimeError α) : Attempt σ α :=
  fun state => (read state, state)

end Attempt

end ScriptCore
