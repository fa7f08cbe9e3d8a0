import ScriptCore.Decimal.Positional
import ScriptCore.Heap

/-!
# Display text

The text in which a value is shown.  Lists, dicts and structs are shown with their contents; a
container that is met again inside itself is shown by a placeholder instead, so the text of a
cyclic value is finite.  A container that is only shared is shown in full each time.

The rendering carries the containers it is inside of.  They are pairwise different, so no more
levels than containers are needed.
-/

namespace ScriptCore.Heap

/-- How a function is shown: natives by that word, others with their mark. -/
def functionText (function : Function) : String :=
  if function.callable.isNative then "<native function " ++ function.name ++ ">"
  else if function.tailCallOptimized then
    "<function " ++ function.name ++ " (tail-call optimized)>"
  else "<function " ++ function.name ++ ">"

/-- The name of the module that made a struct. -/
def structName (h : Heap) (address : Address) : String :=
  (h.module (h.struct address).kind).name

/-- The text of a value whose contents are not shown: of a container, its placeholder. -/
def shallowText (h : Heap) : Value → String
  | .null => "null"
  | .boolean truth => if truth then "true" else "false"
  | .integer number => toString number.toInt
  | .float number => Decimal.floatText number
  | .string text => "\"" ++ text ++ "\""
  | .datetime instant => instant.text
  | .error label message => "<error " ++ label ++ ": " ++ message ++ ">"
  | .list _ => "[...]"
  | .dict _ => "\x7b...\x7d"
  | .module address => "<module " ++ (h.module address).name ++ ">"
  | .struct address => h.structName address ++ "(...)"
  | .function address => functionText (h.function address)

/-- The container whose contents are part of the text of a value. -/
def shown? : Value → Option Container
  | .list address => some (.list address)
  | .dict address => some (.dict address)
  | .struct address => some (.struct address)
  | _ => none

/-- The text of a container, given the texts of the values in it. -/
def contentText (h : Heap) (container : Container) (text : Value → String) : String :=
  match container with
  | .list address =>
    "[" ++ ", ".intercalate ((h.list address).toList.map text) ++ "]"
  | .dict address =>
    "\x7b" ++ ", ".intercalate
      ((h.dict address).entries.map fun (key, value) => text key ++ ": " ++ text value) ++ "\x7d"
  | .struct address =>
    h.structName address ++ "(" ++ ", ".intercalate
      ((h.struct address).fields.entries.map fun (name, value) => name ++ "=" ++ text value) ++ ")"
  | .module address => "<module " ++ (h.module address).name ++ ">"

/-- The text of a value inside the given containers, to at most the given number of levels. -/
def renderWithin (h : Heap) : Nat → List Container → Value → String
  | 0, _, value => h.shallowText value
  | levels + 1, enclosing, value =>
    match shown? value with
    | none => h.shallowText value
    | some container =>
      if container ∈ enclosing then h.shallowText value
      else h.contentText container (h.renderWithin levels (container :: enclosing))

/-- The display text of a value. -/
def render (h : Heap) (value : Value) : String :=
  h.renderWithin (h.containerCount + 1) [] value

/-! ## Functions in texts -/

/-- The values in a container that its text is made of. -/
def shownContents (h : Heap) : Container → List Value
  | .list address => (h.list address).toList
  | .dict address => (h.dict address).entries.flatMap fun (key, value) => [key, value]
  | .struct address => (h.struct address).fields.entries.map (·.2)
  | .module _ => []

/-- Whether a function is shown in the text of a value inside the given containers. -/
def showsWithin (h : Heap) : Nat → List Container → Value → Bool
  | 0, _, value => value.tag == .function
  | levels + 1, enclosing, value =>
    match shown? value with
    | none => value.tag == .function
    | some container =>
      decide (container ∉ enclosing) &&
        (h.shownContents container).any (h.showsWithin levels (container :: enclosing))

/-- Whether the display text of a value shows a function. -/
def showsFunction (h : Heap) (value : Value) : Bool :=
  h.showsWithin (h.containerCount + 1) [] value

/-- The text of a value as a string: strings are taken as they are, without quotes. -/
def plainText (h : Heap) : Value → String
  | .string text => text
  | value => h.render value

end ScriptCore.Heap
