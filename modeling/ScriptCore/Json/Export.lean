import ScriptCore.Json.Tree
import ScriptCore.Rendering

/-!
# Writing values as JSON

Data has a form in JSON: the simple values, lists as arrays and dicts as objects, whose keys are
the texts of the dict's keys.  Instants become strings and errors objects of two members.
Modules, structs, functions, infinite floats, NaN and containers that contain themselves have no
such form.

The export carries the containers it is inside of.  They are pairwise different, so no more
levels than containers are needed.
-/

namespace ScriptCore.Heap

/-- The error that a value has no form in JSON. -/
def notExportable (expected : String) (value : Value) : RuntimeError :=
  .typeMismatch "to_json" expected value.tag

/-- Writes a value that stands inside the given containers, to at most the given number of
levels. -/
def exportWithin (h : Heap) (levels : Nat) (enclosing : List Container) (value : Value) :
    Except RuntimeError JsonTree :=
  match levels, value with
  | _, .null => .ok .null
  | _, .boolean truth => .ok (.boolean truth)
  | _, .integer number => .ok (.integer number.toInt)
  | _, .float number =>
    if number.isFinite then .ok (.float number) else .error (notExportable "finite float" value)
  | _, .string text => .ok (.string text)
  | _, .datetime instant => .ok (.string instant.text)
  | _, .error label message =>
    .ok (.object [("kind", .string label), ("message", .string message)])
  | _, .module _ => .error (notExportable "data value" value)
  | _, .struct _ => .error (notExportable "data value" value)
  | _, .function _ => .error (notExportable "data value" value)
  | 0, .list _ => .error (notExportable "acyclic value" value)
  | 0, .dict _ => .error (notExportable "acyclic value" value)
  | levels + 1, .list address =>
    if .list address ∈ enclosing then .error (notExportable "acyclic value" value)
    else do
      let items ← (h.list address).toList.mapM
        (h.exportWithin levels (.list address :: enclosing))
      return .array items
  | levels + 1, .dict address =>
    if .dict address ∈ enclosing then .error (notExportable "acyclic value" value)
    else do
      let members ← (h.dict address).entries.mapM fun (key, item) => do
        return (h.plainText key, ← h.exportWithin levels (.dict address :: enclosing) item)
      return .ofMembers members

/-- The form of a value in JSON. -/
def toJson (h : Heap) (value : Value) : Except RuntimeError JsonTree :=
  h.exportWithin (h.containerCount + 1) [] value

end ScriptCore.Heap
