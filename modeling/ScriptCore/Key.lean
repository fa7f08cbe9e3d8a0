import ScriptCore.HashTable

/-!
# Keys

A key is the text by which a table tells its entries apart, together with the hash of that text.
The hash is a function of the text, so one text always belongs in one bucket.

Names of variables, attributes and parameters are keyed like strings; `NameTable` is the table
that is keyed by names.
-/

namespace ScriptCore

/-- The hash of a text: its characters as the digits of a number, reduced to 32 bits at each
step. -/
def hashText (text : String) : UInt64 :=
  (text.toList.foldl (fun (sum : UInt32) c => sum * 31 + c.val) 7).toUInt64

/-- A key text with its hash. -/
structure Key where
  text : String
  hash : UInt64
  deriving DecidableEq, Repr

namespace Key

/-- The key with a given text. -/
def ofText (text : String) : Key :=
  { text, hash := hashText text }

/-- The key of a name. -/
def ofName (name : String) : Key :=
  ofText ("s:" ++ name)

end Key

/-- A hash table keyed by names. -/
structure NameTable (ν : Type) where
  table : HashTable String ν

namespace NameTable

variable {ν : Type}

/-- The table without names. -/
def empty : NameTable ν := ⟨.empty⟩

instance : Inhabited (NameTable ν) := ⟨empty⟩

/-- How many names are bound. -/
def count (t : NameTable ν) : Nat :=
  t.table.count

/-- Whether no name is bound. -/
def isEmpty (t : NameTable ν) : Bool :=
  t.table.isEmpty

/-- Whether a name is bound. -/
def contains (t : NameTable ν) (name : String) : Bool :=
  let key := Key.ofName name
  t.table.contains key.text key.hash

/-- What a name is bound to. -/
def find? (t : NameTable ν) (name : String) : Option ν :=
  let key := Key.ofName name
  (t.table.find? key.text key.hash).map (·.value)

/-- Binds a name and moves it to the end. -/
def set (t : NameTable ν) (name : String) (value : ν) : NameTable ν :=
  let key := Key.ofName name
  ⟨t.table.append name key.hash key.text value⟩

/-- Removes a name and gives back what it was bound to. -/
def remove (t : NameTable ν) (name : String) : Except RuntimeError ν × NameTable ν :=
  let key := Key.ofName name
  let (outcome, table) := t.table.remove key.text key.hash
  (outcome, ⟨table⟩)

/-- The bound names, in order of last binding. -/
def names (t : NameTable ν) : List String :=
  t.table.rawKeys.toList

/-- What the names are bound to, in the same order. -/
def values (t : NameTable ν) : List ν :=
  t.table.values.toList

/-- The names with what they are bound to. -/
def entries (t : NameTable ν) : List (String × ν) :=
  t.table.entries

/-- The table that binds the given names in order. -/
def ofList (bindings : List (String × ν)) : NameTable ν :=
  bindings.foldl (fun table (name, value) => table.set name value) empty

end NameTable

end ScriptCore
