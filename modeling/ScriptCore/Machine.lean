import ScriptCore.Config
import ScriptCore.Operation
import ScriptCore.Scope.CallStack
import ScriptCore.Scope.Collector
import ScriptCore.Struct

/-!
# The machine

The state in which programs run: the heap, the arena of scopes and the stack of open ones.  The
scope of the program stands at the bottom of the stack and is never closed.

The operations here open and close scopes, bind and look up names in the current scope and define
functions.  Evaluating expressions is told in `ScriptCore.Evaluation`.
-/

namespace ScriptCore

/-- The state of a run. -/
structure Machine where
  config : Config
  heap : Heap
  arena : ScopeArena
  stack : CallStack
  program : RecordId

namespace Machine

/-- The name of the scope of the program. -/
def programName : String := "<program>"

/-- The machine before anything has run.  The stack always has room for the program. -/
def start (config : Config) : Machine :=
  let (program, arena) := ScopeArena.empty.alloc (.fresh programName .program)
  { config
    heap := .empty
    arena
    stack := .withBase (max config.maxDepth 1) program
    program }

/-- Works on the heap of the machine. -/
def onHeap {α : Type} (attempt : Attempt Heap α) : Attempt Machine α
  | ⟨config, heap, arena, stack, program⟩ =>
    let (outcome, heap) := attempt heap
    (outcome, ⟨config, heap, arena, stack, program⟩)

/-- Works on the arena of the machine. -/
def onArena {α : Type} (attempt : Attempt ScopeArena α) : Attempt Machine α
  | ⟨config, heap, arena, stack, program⟩ =>
    let (outcome, arena) := attempt arena
    (outcome, ⟨config, heap, arena, stack, program⟩)

/-- Works on the stack of the machine. -/
def onStack {α : Type} (attempt : Attempt CallStack α) : Attempt Machine α
  | ⟨config, heap, arena, stack, program⟩ =>
    let (outcome, stack) := attempt stack
    (outcome, ⟨config, heap, arena, stack, program⟩)

/-! ## The current scope -/

/-- The scope on top of the stack. -/
def currentRecord (m : Machine) : RecordId :=
  m.stack.top?.getD m.program

/-- The name of the scope on top of the stack. -/
def currentName (m : Machine) : Except RuntimeError String :=
  (m.arena.get m.currentRecord).map (·.name)

/-- Gives the number of open scopes.  Not inlined, so that the number is there at once and the
machine is not held until it is used. -/
@[noinline] def depth : Attempt Machine Nat := fun m =>
  (.ok m.stack.depth, m)

/-- The value of a name in the current scope. -/
def lookup (m : Machine) (name : String) : Except RuntimeError Value :=
  m.arena.lookup m.currentRecord name

/-- Assigns to a name in the current scope. -/
def assign (name : String) (value : Value) : Attempt Machine Unit := do
  let current := (← get).currentRecord
  onArena fun a => a.assign current name value

/-- Binds a name in the current scope itself. -/
def define (name : String) (value : Value) : Attempt Machine Unit := do
  let current := (← get).currentRecord
  onArena fun a => a.define current name value

/-! ## Opening and closing scopes -/

/-- Frees a record unless it is captured. -/
def releaseRecord (id : RecordId) : Attempt Machine Bool :=
  onArena fun a => a.release id

/-- Puts a record on top of the stack. -/
def pushOnStack (id : RecordId) : Attempt Machine Unit
  | ⟨config, heap, arena, stack, program⟩ =>
    let (outcome, stack, arena) := stack.push arena id
    (outcome, ⟨config, heap, arena, stack, program⟩)

/-- Makes a record, sets it up and opens it; a record that cannot be opened is released. -/
def openRecord (record : Record) (setUp : RecordId → Attempt ScopeArena Unit) :
    Attempt Machine RecordId := do
  let id ← onArena fun a =>
    let (id, a) := a.alloc record
    (.ok id, a)
  try
    onArena (setUp id)
    pushOnStack id
  catch err =>
    discard <| releaseRecord id
    throw err
  return id

/-- Opens a scope that sees what the current one sees. -/
def pushRecord (name : String) (kind : RecordKind) : Attempt Machine RecordId := do
  let enclosing := (← get).currentRecord
  openRecord (.fresh name kind) fun id a => a.appendRecords id enclosing

/-- Sets up the scope of a call: it sees what the function's scope sees, and the parameters. -/
def setUpCall (scope : RecordId) (bound : List (String × Value)) (id : RecordId) :
    Attempt ScopeArena Unit := do
  .ofStep fun a => a.appendRecords id scope
  bound.forM fun (parameter, value) => .ofStep fun a => a.define id parameter value

/-- Opens the scope of a call. -/
def openFunctionRecord (name : String) (scope : RecordId) (bound : List (String × Value)) :
    Attempt Machine Unit := do
  discard <| openRecord (.fresh name .function) (setUpCall scope bound)

/-- Closes the scope on top and frees it unless it is captured. -/
def closeTop : Attempt Machine Unit := do
  let id ← onStack fun s => s.pop
  discard <| releaseRecord id

/-- Closes the given number of scopes. -/
def closeScopes : Nat → Attempt Machine Unit
  | 0 => return
  | count + 1 => do
    closeTop
    closeScopes count

/-- Closes every scope above the given depth, but never the one of the program. -/
def unwindTo (depth : Nat) : Attempt Machine Unit := do
  closeScopes ((← get).stack.depth - max depth 1)

/-- Closes a scope and every scope above it. -/
def popRecord (id : RecordId) : Attempt Machine Unit := do
  match (← get).stack.positionOf? id with
  | some position => unwindTo position
  | none => return

/-! ## Functions and reclamation -/

/-- Defines a function over the current scope, which is captured, and binds its name there. -/
def defineFunction (name : String) (parameters : Parameters) (body : Expr) :
    Attempt Machine Value := do
  let scope := (← get).currentRecord
  onArena fun a => a.capture scope
  let function ← onHeap fun h =>
    let (function, h) := h.newFunction name parameters (.closure scope body)
    (.ok function, h)
  define name function
  return function

/-- Puts a routine of the host at the program's disposal under a name of the current scope. -/
def defineHost (name : String) (routine : HostRoutine) : Attempt Machine Value := do
  let function ← onHeap fun h =>
    let (function, h) := h.newFunction name routine.parameters (.host routine)
    (.ok function, h)
  define name function
  return function

/-- Marks a function as one that has gone on by deferred calls. -/
def markOptimized (address : Address) : Attempt Machine Unit :=
  onHeap fun h =>
    (.ok (), h.setFunction address { h.function address with tailCallOptimized := true })

/-- Frees the captured records that neither the open scopes nor the given values reach, and gives
their number. -/
def collect (roots : List Value) : Attempt Machine Nat
  | ⟨config, heap, arena, stack, program⟩ =>
    let (freed, arena) := arena.collect heap stack.records.toList roots
    (.ok freed, ⟨config, heap, arena, stack, program⟩)

end Machine

end ScriptCore
