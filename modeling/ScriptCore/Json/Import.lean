import ScriptCore.Json.Tree
import ScriptCore.Key

/-!
# Reading values from JSON

Arrays become lists and objects become dicts with string keys.  A whole number that does not fit
into an integer becomes a float.
-/

namespace ScriptCore.Heap

/-- The number of a JSON document as a value. -/
def importNumber (number : Int) : Value :=
  if Int64.minValue.toInt ≤ number ∧ number ≤ Int64.maxValue.toInt then .integer (.ofInt number)
  else .float (.ofInt number)

/-- Writes an entry under a string. -/
def insertNamed (table : DictTable) (name : String) (value : Value) : DictTable :=
  let key := Key.ofName name
  table.append (.string name) key.hash key.text value

mutual

/-- Builds the value of a JSON document. -/
def ofJson (h : Heap) : JsonTree → Value × Heap
  | .null => (.null, h)
  | .boolean truth => (.boolean truth, h)
  | .integer number => (importNumber number, h)
  | .float number => (.float number, h)
  | .string text => (.string text, h)
  | .array items =>
    let (values, h) := h.ofJsonItems items
    h.newList values
  | .object members =>
    let (table, h) := h.ofJsonMembers .empty members
    h.newDict table

/-- Builds the values of a row of documents. -/
def ofJsonItems (h : Heap) : List JsonTree → List Value × Heap
  | [] => ([], h)
  | item :: rest =>
    let (value, h) := h.ofJson item
    let (values, h) := h.ofJsonItems rest
    (value :: values, h)

/-- Writes the members of an object into a table. -/
def ofJsonMembers (h : Heap) (table : DictTable) : List (String × JsonTree) → DictTable × Heap
  | [] => (table, h)
  | (name, item) :: rest =>
    let (value, h) := h.ofJson item
    h.ofJsonMembers (insertNamed table name value) rest

end

end ScriptCore.Heap
