import ScriptCore.Machine
import ScriptCore.Method.Dict
import ScriptCore.Method.List

/-!
# Evaluation

What expressions mean.  `eval` evaluates an expression outside tail position, where every call is
made in full; `evalTail` evaluates an expression in tail position of a function's body, where a
call of the running function to itself is handed back as a deferred call.  `drive` runs a function
and goes on with the calls it hands back, one scope after the other, so that the stack does not
grow however often the function calls itself.

The running function is known by the name of the scope on top of the stack.

How tail calls are made is a matter of a `Strategy`, with which everything here is written.  The
functions at the end, `eval` and the others, follow the strategy of the language,
`Strategy.deferring`; `Strategy.nesting` makes every call in full.

A `Run` is bounded by a number of steps: at each step down into an expression, a call or a repeated
body one is used up, and a run without steps left has no outcome.  More steps never change an
outcome.
-/

namespace ScriptCore

/-- A computation on a machine that yields an `α`, fails with an error, or has no outcome within
its bound. -/
abbrev Run (α : Type) : Type := ExceptT RuntimeError (StateT Machine Option) α

namespace Run

/-- The computation that is out of steps. -/
def outOfSteps {α : Type} : Run α := fun _ => none

/-- A computation that needs no bound. -/
@[inline] def ofAttempt {α : Type} (attempt : Attempt Machine α) : Run α :=
  fun m => some (attempt m)

instance : MonadLift (Attempt Machine) Run := ⟨ofAttempt⟩

/-- The outcome of a computation as a value, so that one can go on after a failure. -/
def outcomeOf {α : Type} (run : Run α) : Run (Except RuntimeError α) := fun m =>
  match run m with
  | none => none
  | some (outcome, m) => some (.ok outcome, m)

/-- The computation with a given outcome. -/
def ofOutcome {α : Type} (outcome : Except RuntimeError α) : Run α := fun m =>
  some (outcome, m)

end Run

/-- The name of the scope in which a handler is evaluated. -/
def handlerName : String := "<catch>"

/-! ## What the host asks for -/

/-- The ways to evaluate that a routine of the host can make use of. -/
structure Evaluator where
  eval : Expr → Run Value
  evalTail : Expr → Run Completion
  call : Value → Arguments → Run Value
  tailCall : Value → Arguments → Run Completion

open Run in
/-- Does what a routine of the host asks for. -/
def HostRequest.perform (evaluator : Evaluator) : (request : HostRequest) → Run request.Answer
  | eval expr => evaluator.eval expr
  | evalTail expr => evaluator.evalTail expr
  | call callee arguments => evaluator.call callee arguments
  | tailCall callee arguments => evaluator.tailCall callee arguments
  | makeList items => Machine.onHeap (Heap.makeList items)
  | plainText value => do return (← get).heap.plainText value
  | functionName address => do return ((← get).heap.function address).name
  | depth => do return (← get).stack.depth
  | currentName => do ofOutcome (← get).currentName
  | lookup name => do ofOutcome ((← get).lookup name)
  | assign name value => Machine.assign name value
  | define name value => Machine.define name value
  | defineFunction name parameters body => Machine.defineFunction name parameters body
  | pushRecord name kind => Machine.pushRecord name kind
  | popRecord id => Machine.popRecord id
  | unwindTo target => Machine.unwindTo target
  | collect roots => Machine.collect roots

/-- Does what a program of the host asks for, one thing after the other, and tells it the outcome of
each. -/
def HostProgram.run {α : Type} (evaluator : Evaluator) : HostProgram α → Run α
  | done outcome => Run.ofOutcome outcome
  | ask request next => do
    let outcome ← Run.outcomeOf (request.perform evaluator)
    (next outcome).run evaluator

/-! ## Strategies -/

/-- How calls in tail position are made.  A watched run has no outcome if it comes to a point at
which it could tell how they are made: where the stack is full, where a function is shown and where
the mark of a function is read. -/
structure Strategy where
  /-- Whether a call of the running function to itself is handed back. -/
  defers : Bool
  watched : Bool

namespace Strategy

/-- The strategy of the language. -/
def deferring : Strategy :=
  { defers := true, watched := false }

/-- The strategy that makes every call in full, watched. -/
def nesting : Strategy :=
  { defers := false, watched := true }

variable (strategy : Strategy)

open Run

/-- Ends a watched run if the machine is at a point of some kind. -/
def watch (point : Machine → Bool) : Run Unit := fun m =>
  if strategy.watched && point m then none else some (.ok (), m)

/-- Reads an attribute of a value. -/
def readAttribute (value : Value) (name : String) : Run Value := do
  strategy.watch fun _ => value.tag == .function && name == "tail_call_optimized"
  Machine.onHeap (Heap.getAttribute value name)

mutual

/-- Evaluates an expression outside tail position. -/
def eval : Nat → Expr → Run Value
  | 0, _ => outOfSteps
  | steps + 1, expr =>
    match expr with
    | .literal value => return value
    | .name name => do ofOutcome ((← get).lookup name)
    | .assign name value => do
      let value ← eval steps value
      Machine.assign name value
      return value
    | .define name value => do
      let value ← eval steps value
      Machine.define name value
      return value
    | .unary operator operand => do
      let operand ← eval steps operand
      ofOutcome ((← get).heap.applyUnary operator operand)
    | .binary .and left right => do
      let left ← eval steps left
      if (← get).heap.isTruthy left then
        let right ← eval steps right
        return .boolean ((← get).heap.isTruthy right)
      else return .boolean false
    | .binary .or left right => do
      let left ← eval steps left
      if (← get).heap.isTruthy left then return .boolean true
      else
        let right ← eval steps right
        return .boolean ((← get).heap.isTruthy right)
    | .binary operator left right => do
      let left ← eval steps left
      let right ← eval steps right
      Machine.onHeap (Heap.applyBinary operator left right)
    | .conditional condition consequence alternative => do
      let condition ← eval steps condition
      if (← get).heap.isTruthy condition then eval steps consequence
      else alternative.elim (return .null) (eval steps)
    | .block body => evalBlock steps .null body
    | .list items => do
      let items ← evalList steps items
      Machine.onHeap (Heap.makeList items)
    | .dict entries => do
      let entries ← evalPairs steps entries
      Machine.onHeap (Heap.dictOf entries)
    | .function name parameters body doc => do
      let parameters ← evalParameters steps .empty parameters
      let function ← Machine.defineFunction name parameters body
      match doc with
      | some text => Machine.onHeap (Heap.setDoc function text)
      | none => pure ()
      return function
    | .call callee positional named => do
      let callee ← eval steps callee
      let arguments ← evalArguments steps positional named
      call steps callee arguments
    | .getAttribute object name => do
      let object ← eval steps object
      strategy.readAttribute object name
    | .setAttribute object name value => do
      let object ← eval steps object
      let value ← eval steps value
      Machine.onHeap (Heap.setAttribute object name value)
      return value
    | .callMethod receiver name positional named => do
      let receiver ← eval steps receiver
      let arguments ← evalArguments steps positional named
      let method ← strategy.readAttribute receiver name
      call steps method arguments
    | .raise label message => do
      let message ← eval steps message
      strategy.watch (·.heap.showsFunction message)
      throw (.raised label ((← get).heap.plainText message))
    | .handle body binding handler => do
      let depth ← Machine.depth
      match ← outcomeOf (eval steps body) with
      | .ok value => return value
      | .error err =>
        if err.kind = .internal then throw err
        else
          Machine.unwindTo depth
          strategy.watch (·.stack.isFull)
          let record ← Machine.pushRecord handlerName .handler
          let outcome ← outcomeOf do
            Machine.define binding (.ofError err)
            eval steps handler
          Machine.popRecord record
          ofOutcome outcome

/-- Evaluates an expression in tail position of a body. -/
def evalTail : Nat → Expr → Run Completion
  | 0, _ => outOfSteps
  | steps + 1, expr =>
    match expr with
    | .call callee positional named => do
      let callee ← eval steps callee
      let arguments ← evalArguments steps positional named
      tailCall steps callee arguments
    | .callMethod receiver name positional named => do
      let receiver ← eval steps receiver
      let arguments ← evalArguments steps positional named
      let method ← strategy.readAttribute receiver name
      tailCall steps method arguments
    | .conditional condition consequence alternative => do
      let condition ← eval steps condition
      if (← get).heap.isTruthy condition then evalTail steps consequence
      else alternative.elim (return .value .null) (evalTail steps)
    | .block body => evalTailBlock steps body
    | other => do return .value (← eval steps other)

/-- Evaluates expressions one after the other; the value is that of the last one. -/
def evalBlock : Nat → Value → List Expr → Run Value
  | 0, _, _ => outOfSteps
  | _ + 1, last, [] => return last
  | steps + 1, _, expr :: rest => do
    let value ← eval steps expr
    evalBlock steps value rest

/-- Evaluates expressions one after the other, the last one in tail position. -/
def evalTailBlock : Nat → List Expr → Run Completion
  | 0, _ => outOfSteps
  | _ + 1, [] => return .value .null
  | steps + 1, [last] => evalTail steps last
  | steps + 1, expr :: rest => do
    discard <| eval steps expr
    evalTailBlock steps rest

/-- Evaluates expressions from left to right and collects their values. -/
def evalList : Nat → List Expr → Run (List Value)
  | 0, _ => outOfSteps
  | _ + 1, [] => return []
  | steps + 1, expr :: rest => do
    let value ← eval steps expr
    let values ← evalList steps rest
    return value :: values

/-- Evaluates the entries of a dict, each key before its value. -/
def evalPairs : Nat → List (Expr × Expr) → Run (List (Value × Value))
  | 0, _ => outOfSteps
  | _ + 1, [] => return []
  | steps + 1, (key, value) :: rest => do
    let key ← eval steps key
    let value ← eval steps value
    let entries ← evalPairs steps rest
    return (key, value) :: entries

/-- Evaluates named arguments. -/
def evalNamed : Nat → List (String × Expr) → Run (List (String × Value))
  | 0, _ => outOfSteps
  | _ + 1, [] => return []
  | steps + 1, (name, expr) :: rest => do
    let value ← eval steps expr
    let named ← evalNamed steps rest
    return (name, value) :: named

/-- Evaluates the arguments of a call, the positional ones first. -/
def evalArguments : Nat → List Expr → List (String × Expr) → Run Arguments
  | 0, _, _ => outOfSteps
  | steps + 1, positional, named => do
    let positional ← evalList steps positional
    let named ← evalNamed steps named
    return { positional, named }

/-- Evaluates the defaults of parameters and declares the parameters. -/
def evalParameters : Nat → Parameters → List (String × Option Expr) → Run Parameters
  | 0, _, _ => outOfSteps
  | _ + 1, declared, [] => return declared
  | steps + 1, declared, (name, none) :: rest =>
    evalParameters steps (declared.declare name .required) rest
  | steps + 1, declared, (name, some default) :: rest => do
    let value ← eval steps default
    evalParameters steps (declared.declare name (.value value)) rest

/-- Calls a value to the end: a function runs, a module with a template makes a struct. -/
def call : Nat → Value → Arguments → Run Value
  | 0, _, _ => outOfSteps
  | steps + 1, callee, arguments =>
    match callee with
    | .function address => callFunction steps address arguments
    | .module address => Machine.onHeap (Heap.instantiate address arguments)
    | other => throw (.unsupported other.tag.name "call")

/-- Calls a function to the end. -/
def callFunction : Nat → Address → Arguments → Run Value
  | 0, _, _ => outOfSteps
  | steps + 1, address, arguments => do
    let function := (← get).heap.function address
    match function.callable with
    | .listMethod method receiver => Machine.onHeap (method.call receiver arguments)
    | .dictMethod method receiver => Machine.onHeap (method.call receiver arguments)
    | .host routine => callHost steps function.name routine arguments
    | .closure .. => drive steps false address arguments

/-- Calls a value in tail position.  A call of the function that is running is deferred. -/
def tailCall : Nat → Value → Arguments → Run Completion
  | 0, _, _ => outOfSteps
  | steps + 1, callee, arguments =>
    match callee with
    | .function address => do
      let function := (← get).heap.function address
      if function.callable.isNative then return .value (← call steps callee arguments)
      else
        let running ← ofOutcome (← get).currentName
        if strategy.defers && running == function.name then return .deferred address arguments
        else return .value (← call steps callee arguments)
    | _ => do return .value (← call steps callee arguments)

/-- Runs a function, and the calls it defers, until one ends with a value.  If a deferred call was
made, the function that ends with the value is marked. -/
def drive : Nat → Bool → Address → Arguments → Run Value
  | 0, _, _, _ => outOfSteps
  | steps + 1, repeated, address, arguments => do
    match ← invoke steps address arguments with
    | .value value => do
      if repeated then Machine.markOptimized address
      return value
    | .deferred next arguments => drive steps true next arguments

/-- Evaluates the body of a function once, in a scope of its own that is closed afterwards. -/
def invoke : Nat → Address → Arguments → Run Completion
  | 0, _, _ => outOfSteps
  | steps + 1, address, arguments => do
    let function := (← get).heap.function address
    match function.callable with
    | .closure scope body => do
      let bound ← ofOutcome (function.parameters.bind function.name arguments)
      let depth ← Machine.depth
      strategy.watch (·.stack.isFull)
      Machine.openFunctionRecord function.name scope bound
      let outcome ← outcomeOf (evalTail steps body)
      Machine.unwindTo depth
      ofOutcome outcome
    | _ => do return .value (← callFunction steps address arguments)

/-- Calls a routine of the host, which is known to the program by the given name. -/
def callHost : Nat → String → HostRoutine → Arguments → Run Value
  | 0, _, _, _ => outOfSteps
  | steps + 1, name, routine, arguments =>
    (routine.program name arguments).run
      { eval := eval steps
        evalTail := evalTail steps
        call := call steps
        tailCall := tailCall steps }

end

/-- Evaluates the expressions of a program in the current scope.  After each one what nothing
reaches is collected; the value of the expression counts as reached. -/
def runFrom (steps : Nat) (last : Value) : List Expr → Run Value
  | [] => return last
  | expr :: rest => do
    let value ← strategy.eval steps expr
    discard <| Machine.collect [value]
    runFrom steps value rest

/-- Calls the method of a value with a name. -/
def callMethod (steps : Nat) (receiver : Value) (name : String) (arguments : Arguments) :
    Run Value := do
  let method ← strategy.readAttribute receiver name
  strategy.call steps method arguments

end Strategy

/-! ## The language -/

/-- Evaluates an expression outside tail position. -/
def eval (steps : Nat) (expr : Expr) : Run Value :=
  Strategy.deferring.eval steps expr

/-- Evaluates an expression in tail position of a body. -/
def evalTail (steps : Nat) (expr : Expr) : Run Completion :=
  Strategy.deferring.evalTail steps expr

/-- Calls a value to the end. -/
def call (steps : Nat) (callee : Value) (arguments : Arguments) : Run Value :=
  Strategy.deferring.call steps callee arguments

/-- Calls a value in tail position. -/
def tailCall (steps : Nat) (callee : Value) (arguments : Arguments) : Run Completion :=
  Strategy.deferring.tailCall steps callee arguments

/-- Calls the method of a value with a name. -/
def callMethod (steps : Nat) (receiver : Value) (name : String) (arguments : Arguments) :
    Run Value :=
  Strategy.deferring.callMethod steps receiver name arguments

/-- Runs a program; its value is that of its last expression. -/
def runProgram (steps : Nat) (program : List Expr) : Run Value :=
  Strategy.deferring.runFrom steps .null program

end ScriptCore
