import ScriptCore.Rendering
import ScriptCore.Text.Quoted

/-!
# Summaries

The developer's view of values, functions and modules.
-/

namespace ScriptCore

/-- The word for a truth value. -/
def truthText (truth : Bool) : String :=
  if truth then "true" else "false"

/-- The name, the number of parameters and the nature of a function. -/
def Function.summary (f : Function) : String :=
  "Function \x7b name: " ++ Text.quoted f.name ++ s!", parameters: {f.parameters.count}" ++
    ", native: " ++ truthText f.callable.isNative ++ " \x7d"

/-- The name and the number of attributes of a module, and whether it makes structs. -/
def Module.summary (m : Module) : String :=
  "Module \x7b name: " ++ Text.quoted m.name ++ s!", attributes: {m.attributes.count}" ++
    ", struct_factory: " ++ truthText m.template.isSome ++ " \x7d"

/-- The type and the display text of a value. -/
def Heap.summary (h : Heap) (value : Value) : String :=
  "Flow::" ++ value.tag.name ++ "(" ++ h.render value ++ ")"

end ScriptCore
