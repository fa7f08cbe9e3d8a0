import ScriptCore.ValueKey

/-!
# Dicts

A dict holds values under the keys of values.  Each operation first finds the key of the value it
is given, so an unhashable value is an error before anything else happens.
-/

namespace ScriptCore.Heap

/-- Writes an entry into a table. -/
def insertEntry (h : Heap) (table : DictTable) (key value : Value) :
    Except RuntimeError DictTable := do
  let k ← h.key key
  return table.append key k.hash k.text value

/-- The value under a key. -/
def lookupEntry (h : Heap) (table : DictTable) (key : Value) : Except RuntimeError Value := do
  let k ← h.key key
  table.search k.text k.hash

/-- Whether there is an entry under a key. -/
def hasEntry (h : Heap) (table : DictTable) (key : Value) : Except RuntimeError Bool := do
  let k ← h.key key
  return table.contains k.text k.hash

/-- Removes the entry under a key and gives back its value. -/
def removeEntry (h : Heap) (table : DictTable) (key : Value) :
    Except RuntimeError Value × DictTable :=
  match h.key key with
  | .error err => (.error err, table)
  | .ok k => table.remove k.text k.hash

/-- The table with the given entries, the last of equal keys winning. -/
def tableOf (h : Heap) (entries : List (Value × Value)) : Except RuntimeError DictTable :=
  entries.foldlM (fun table (key, value) => h.insertEntry table key value) .empty

/-- Makes a dict with the given entries. -/
def dictOf (entries : List (Value × Value)) : Attempt Heap Value := fun h =>
  match h.tableOf entries with
  | .error err => (.error err, h)
  | .ok table =>
    let (value, h) := h.newDict table
    (.ok value, h)

end ScriptCore.Heap
