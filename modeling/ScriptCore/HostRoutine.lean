import ScriptCore.Expr
import ScriptCore.Parameters
import ScriptCore.Scope.Record

/-!
# Host routines

Besides the methods of containers a program can call native functions of its host.  What such a
function does is a matter of the host: it is a `HostRoutine`, which is put into the function when it
is defined.

A routine works on the machine through the operations of the machine only.  It makes one
`HostRequest` after the other and goes on with what comes of it, be it an answer or an error, until
it is done; a `HostProgram` says how.  With what is asked for it can evaluate expressions and call
values, work in the current scope, open and close scopes, and collect.  What the requests come to is
told with the evaluator.

The routines at the end (`HostRoutine.offered`) show the machine to the program: its arguments, its
depth, its scopes and its collector.
-/

namespace ScriptCore

/-- How the evaluation of a body ends: with a value, or with a call that is still to be made. -/
inductive Completion
  | value (value : Value)
  | deferred (function : Address) (arguments : Arguments)

instance : Inhabited Completion := ⟨.value .null⟩

/-- Whether a call is still to be made. -/
def Completion.isDeferred : Completion → Bool
  | value _ => false
  | deferred .. => true

/-! ## Requests -/

/-- What a routine can ask of the machine. -/
inductive HostRequest
  /-- Evaluates an expression in the current scope, which gives access to all that the language can
  do to values. -/
  | eval (expr : Expr)
  /-- Evaluates an expression as in tail position of a body. -/
  | evalTail (expr : Expr)
  /-- Calls a value to the end. -/
  | call (callee : Value) (arguments : Arguments)
  /-- Calls a value as in tail position of a body. -/
  | tailCall (callee : Value) (arguments : Arguments)
  /-- Makes a list. -/
  | makeList (items : List Value)
  /-- Shows a value, a string without quotes. -/
  | plainText (value : Value)
  /-- The name of a function. -/
  | functionName (address : Address)
  /-- The number of open scopes. -/
  | depth
  /-- The name of the scope on top of the stack. -/
  | currentName
  /-- The value of a name in the current scope. -/
  | lookup (name : String)
  /-- Assigns to a name in the current scope. -/
  | assign (name : String) (value : Value)
  /-- Binds a name in the current scope itself. -/
  | define (name : String) (value : Value)
  /-- Defines a function over the current scope. -/
  | defineFunction (name : String) (parameters : Parameters) (body : Expr)
  /-- Opens a scope. -/
  | pushRecord (name : String) (kind : RecordKind)
  /-- Closes a scope and every scope above it. -/
  | popRecord (id : RecordId)
  /-- Closes every scope above a depth. -/
  | unwindTo (target : Nat)
  /-- Frees what neither the open scopes nor the given values reach, and counts it. -/
  | collect (roots : List Value)

/-- What comes of a request that does not fail. -/
abbrev HostRequest.Answer : HostRequest → Type
  | eval _ | call .. | makeList _ | lookup _ | defineFunction .. => Value
  | evalTail _ | tailCall .. => Completion
  | plainText _ | functionName _ | currentName => String
  | depth | collect _ => Nat
  | pushRecord .. => RecordId
  | assign .. | define .. | popRecord _ | unwindTo _ => Unit

/-! ## Programs -/

/-- What a routine does: it is done, or it makes a request and goes on with the outcome. -/
inductive HostProgram (α : Type) : Type
  | done (outcome : Except RuntimeError α)
  | ask (request : HostRequest) (next : Except RuntimeError request.Answer → HostProgram α)

namespace HostProgram

variable {α β : Type}

/-- Goes on with the value that a program ends with; an error ends both. -/
def bind : HostProgram α → (α → HostProgram β) → HostProgram β
  | done (.ok value), next => next value
  | done (.error err), _ => done (.error err)
  | ask request rest, next => ask request fun outcome => (rest outcome).bind next

instance : Monad HostProgram where
  pure value := done (.ok value)
  bind := HostProgram.bind

/-- Makes one request; if it fails, so does the program. -/
def request (request : HostRequest) : HostProgram request.Answer :=
  ask request done

end HostProgram

/-! ## Routines -/

/-- A native function of the host: the parameters it declares, and what it does when it is called
under a name with some arguments. -/
structure HostRoutine where
  parameters : Parameters
  program : String → Arguments → HostProgram Value

namespace HostRoutine

/-- Lists its arguments, named ones as pairs. -/
def echo : HostRoutine where
  parameters := .empty
  program _ arguments := do
    let pairs ← arguments.named.mapM fun (name, value) =>
      HostProgram.request (.makeList [.string name, value])
    .request (.makeList (arguments.positional ++ pairs))

/-- Counts its arguments. -/
def count : HostRoutine where
  parameters := .empty
  program _ arguments := return .integer (.ofNat arguments.count)

/-- Gives the named argument whose name it is told. -/
def named : HostRoutine where
  parameters := .required ["name"]
  program name arguments := do
    .done (arguments.checkCount name 1 1)
    let wanted ← .done ((arguments.nth 0).asString name)
    return (arguments.named? wanted).getD .null

/-- Gives the depth of the call stack. -/
def depth : HostRoutine where
  parameters := .empty
  program name arguments := do
    .done (arguments.checkCount name 0 0)
    return .integer (.ofNat (← .request .depth))

/-- Gives the name of the record on top of the call stack. -/
def frame : HostRoutine where
  parameters := .empty
  program _ _ := return .string (← .request .currentName)

/-- Calls its first argument with the others. -/
def apply : HostRoutine where
  parameters := .required ["f"]
  program name arguments := do
    .done (arguments.checkCount name 1 4)
    .request (.call (arguments.nth 0)
      { arguments with positional := arguments.positional.drop 1 })

/-- Calls its first argument as in tail position; a deferred call is dropped. -/
def tailApply : HostRoutine where
  parameters := .required ["f"]
  program name arguments := do
    .done (arguments.checkCount name 1 4)
    match ← .request (.tailCall (arguments.nth 0)
      { arguments with positional := arguments.positional.drop 1 }) with
    | .value value => return value
    | .deferred next _ => return .string ("deferred " ++ (← .request (.functionName next)))

/-- Collects, with its arguments as roots. -/
def collect : HostRoutine where
  parameters := .empty
  program _ arguments := return .integer (.ofNat (← .request (.collect arguments.positional)))

/-- Raises an error with its argument as message. -/
def fail : HostRoutine where
  parameters := .required ["message"]
  program name arguments := do
    .done (arguments.checkCount name 1 1)
    .done (.error (.raised "native" (← .request (.plainText (arguments.nth 0)))))

/-- Opens a scope and leaves it open. -/
def push : HostRoutine where
  parameters := .required ["name"]
  program name arguments := do
    .done (arguments.checkCount name 1 1)
    let id ← .request (.pushRecord (← .request (.plainText (arguments.nth 0))) .function)
    return .string id.text

/-- Closes the scopes above a depth. -/
def unwind : HostRoutine where
  parameters := .required ["depth"]
  program name arguments := do
    .done (arguments.checkCount name 1 1)
    let depth ← .done ((arguments.nth 0).asInteger name)
    .request (.unwindTo depth.toUInt64.toNat)
    return .null

/-- The routines that a host offers, each under its name. -/
def offered : List (String × HostRoutine) :=
  [("echo", echo), ("count", count), ("named", named), ("depth", depth), ("frame", frame),
    ("apply", apply), ("tail_apply", tailApply), ("collect", collect), ("fail", fail),
    ("push", push), ("unwind", unwind)]

/-- The routine that is offered under a name. -/
def ofName? (name : String) : Option HostRoutine :=
  offered.lookup name

instance : Inhabited HostRoutine := ⟨count⟩

end HostRoutine

end ScriptCore
