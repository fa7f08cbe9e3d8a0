import ScriptCore.Expr
import ScriptCore.HostRoutine
import ScriptCore.Method
import ScriptCore.Scope.RecordId

/-!
# The heap

Everything that values share stands in the heap: lists, dicts, modules, instances of structs and
functions, each kind in a store of its own, addressed by number.  Nothing is ever taken out, so
the size of a store is the number of things of its kind that were made.

Reading is total: at an address that was never given out stands an empty thing of the kind.
-/

namespace ScriptCore

/-- A dict is a table whose raw keys are values. -/
abbrev DictTable : Type := HashTable Value Value

/-- A bag of attributes under a name.  With a template it also makes structs. -/
structure Module where
  name : String
  attributes : NameTable Value
  template : Option Parameters
  doc : Option String

/-- An instance of a struct: the module that made it and its fields. -/
structure StructInstance where
  kind : Address
  fields : NameTable Value

/-- What a function does when it is called. -/
inductive Callable
  /-- A method bound to the list it was looked up on. -/
  | listMethod (method : ListMethod) (receiver : Address)
  /-- A method bound to the dict it was looked up on. -/
  | dictMethod (method : DictMethod) (receiver : Address)
  /-- A native function of the host. -/
  | host (routine : HostRoutine)
  /-- A body evaluated in the scope where the function was defined. -/
  | closure (scope : RecordId) (body : Expr)

namespace Callable

/-- Whether the callable runs without evaluating an expression. -/
def isNative : Callable → Bool
  | closure .. => false
  | _ => true

/-- The scope in which a closure was defined. -/
def scope? : Callable → Option RecordId
  | closure scope _ => some scope
  | _ => none

/-- The container to which a method is bound. -/
def receiver? : Callable → Option Value
  | listMethod _ receiver => some (.list receiver)
  | dictMethod _ receiver => some (.dict receiver)
  | _ => none

end Callable

/-- A function.  The mark is set once a run of the function has gone on by deferred calls. -/
structure Function where
  name : String
  parameters : Parameters
  callable : Callable
  doc : Option String
  tailCallOptimized : Bool

instance : Inhabited Module := ⟨⟨"", .empty, none, none⟩⟩
instance : Inhabited StructInstance := ⟨⟨0, .empty⟩⟩
instance : Inhabited Callable := ⟨.host .count⟩
instance : Inhabited Function := ⟨⟨"", .empty, default, none, false⟩⟩

/-- The shared things, by kind. -/
structure Heap where
  lists : Array (ResizableArray Value)
  dicts : Array DictTable
  modules : Array Module
  structs : Array StructInstance
  functions : Array Function

namespace Heap

/-- The heap in which nothing was made. -/
def empty : Heap :=
  { lists := #[], dicts := #[], modules := #[], structs := #[], functions := #[] }

instance : Inhabited Heap := ⟨empty⟩

/-! ## Reading and writing -/

/-- The list at an address. -/
def list (h : Heap) (address : Address) : ResizableArray Value :=
  h.lists.getD address .empty

/-- The dict at an address. -/
def dict (h : Heap) (address : Address) : DictTable :=
  h.dicts.getD address .empty

/-- The module at an address. -/
def module (h : Heap) (address : Address) : Module :=
  h.modules.getD address default

/-- The instance at an address. -/
def struct (h : Heap) (address : Address) : StructInstance :=
  h.structs.getD address default

/-- The function at an address. -/
def function (h : Heap) (address : Address) : Function :=
  h.functions.getD address default

/-- The heap with another list at an address. -/
def setList (h : Heap) (address : Address) (items : ResizableArray Value) : Heap :=
  { h with lists := h.lists.setIfInBounds address items }

/-- The heap with another dict at an address. -/
def setDict (h : Heap) (address : Address) (table : DictTable) : Heap :=
  { h with dicts := h.dicts.setIfInBounds address table }

/-- The heap with another module at an address. -/
def setModule (h : Heap) (address : Address) (content : Module) : Heap :=
  { h with modules := h.modules.setIfInBounds address content }

/-- The heap with another instance at an address. -/
def setStruct (h : Heap) (address : Address) (content : StructInstance) : Heap :=
  { h with structs := h.structs.setIfInBounds address content }

/-- The heap with another function at an address. -/
def setFunction (h : Heap) (address : Address) (content : Function) : Heap :=
  { h with functions := h.functions.setIfInBounds address content }

/-! ## Making things -/

/-- Makes a list of the given elements. -/
def newList (h : Heap) (items : List Value) : Value × Heap :=
  (.list h.lists.size, { h with lists := h.lists.push (.ofList items) })

/-- Makes a dict from a table. -/
def newDict (h : Heap) (table : DictTable) : Value × Heap :=
  (.dict h.dicts.size, { h with dicts := h.dicts.push table })

/-- Makes a module; with a template it makes structs. -/
def newModule (h : Heap) (name : String) (template : Option Parameters) : Value × Heap :=
  (.module h.modules.size,
    { h with modules := h.modules.push { name, attributes := .empty, template, doc := none } })

/-- Makes an instance of a struct. -/
def newStruct (h : Heap) (content : StructInstance) : Value × Heap :=
  (.struct h.structs.size, { h with structs := h.structs.push content })

/-- Makes a function without documentation. -/
def newFunction (h : Heap) (name : String) (parameters : Parameters) (callable : Callable) :
    Value × Heap :=
  (.function h.functions.size, { h with
    functions := h.functions.push
      { name, parameters, callable, doc := none, tailCallOptimized := false } })

/-- Makes a list, as a step of a computation. -/
def makeList (items : List Value) : Attempt Heap Value := fun h =>
  let (value, h) := h.newList items
  (.ok value, h)

/-- How many containers there are. -/
def containerCount (h : Heap) : Nat :=
  h.lists.size + h.dicts.size + h.modules.size + h.structs.size

end Heap

end ScriptCore
