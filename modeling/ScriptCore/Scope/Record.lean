import ScriptCore.Key
import ScriptCore.Scope.RecordId
import ScriptCore.Value

/-!
# Scope records

A record is one lexical scope: a table of names, each bound to a value or linked to the record
that owns the name.  A record only knows its own table; links are followed by the arena, which
holds all records.
-/

namespace ScriptCore

/-- What a scope is opened for. -/
inductive RecordKind
  | program
  | function
  | handler
  deriving DecidableEq, Repr

/-- How the kind of a scope is shown. -/
def RecordKind.text : RecordKind → String
  | program => "PROGRAM"
  | function => "FUNCTION"
  | handler => "CATCH"

/-- What a name stands for in a scope: a value, or whatever it stands for in another record. -/
inductive Binding
  | value (value : Value)
  | link (owner : RecordId)
  deriving DecidableEq

instance : Inhabited Binding := ⟨.value .null⟩

/-- The record to which a binding links. -/
def Binding.link? : Binding → Option RecordId
  | value _ => none
  | link owner => some owner

/-- A scope.  Its level is the number of records below it on the call stack; a locked scope takes
no assignments; a captured one is held by a function that was defined in it or in a scope that
links to it. -/
structure Record where
  name : String
  kind : RecordKind
  level : Nat
  locked : Bool
  captured : Bool
  members : NameTable Binding

namespace Record

/-- A scope in which nothing is bound. -/
def fresh (name : String) (kind : RecordKind) : Record :=
  { name, kind, level := 0, locked := false, captured := false, members := .empty }

/-- What a name stands for. -/
def member? (r : Record) (name : String) : Option Binding :=
  r.members.find? name

/-- Binds a name, whatever it stood for before. -/
def bind (r : Record) (name : String) (binding : Binding) : Record :=
  { r with members := r.members.set name binding }

/-- The records to which names are linked, in order of binding. -/
def links (r : Record) : List RecordId :=
  r.members.values.filterMap Binding.link?

end Record

end ScriptCore
