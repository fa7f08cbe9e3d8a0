import ScriptCore.Proofs.Evaluation.TailPosition

/-!
# Rules of evaluation

What an expression comes to with enough steps, from what its parts come to: one rule for each form,
and one for each of the functions by which calls are made.

The scope of a call is opened for its body and closed again afterwards.  If the body leaves the
records as they were, so does the call (`Opens.close_same`).

The rules are stated with `Settles`, so that no numbers of steps have to be added up: a rule for a
form takes what its parts settle on, each with a bound of its own, and gives what the whole settles
on.  There are rules for the programs that are followed in later modules, not for every outcome of
every form.
-/

namespace ScriptCore

open Machine Run

namespace Strategy

variable {strategy : Strategy} {m m' m'' : Machine} {value : Value} {values : List Value}

/-! ## Expressions -/

theorem settles_literal (strategy : Strategy) (value : Value) (m : Machine) :
    Settles (strategy.eval · (.literal value)) m (.ok value, m) := by
  refine .succ (fun steps => by rw [Strategy.eval]) ?_
  exact .of_eq fun _ => rfl

theorem settles_name {name : String} (hlookup : m.lookup name = .ok value) :
    Settles (strategy.eval · (.name name)) m (.ok value, m) := by
  refine .succ (fun steps => by rw [Strategy.eval]) ?_
  refine .of_eq fun _ => ?_
  rw [bind_on, get_on]
  simp only [hlookup, ofOutcome_on]

section Binary

variable {operator : BinaryOperator} {left right : Expr} {l r : Value} {err : RuntimeError}
  (hand : operator ≠ .and) (hor : operator ≠ .or)

include hand hor

theorem settles_binary (hleft : Settles (strategy.eval · left) m (.ok l, m'))
    (hright : Settles (strategy.eval · right) m' (.ok r, m'')) :
    Settles (strategy.eval · (.binary operator left right)) m
      (onHeap (Heap.applyBinary operator l r) m'') := by
  refine .succ (fun steps => by rw [Strategy.eval] <;> first | exact hand | exact hor) ?_
  exact hleft.bind (hright.bind (.of_eq fun _ => rfl))

theorem settles_binary_error (hleft : Settles (strategy.eval · left) m (.ok l, m'))
    (hright : Settles (strategy.eval · right) m' (.error err, m'')) :
    Settles (strategy.eval · (.binary operator left right)) m (.error err, m'') := by
  refine .succ (fun steps => by rw [Strategy.eval] <;> first | exact hand | exact hor) ?_
  exact hleft.bind hright.bind_error

end Binary

section Integers

variable {left right : Expr} {a b : Int64}
  (hleft : Settles (strategy.eval · left) m (.ok (.integer a), m'))
  (hright : Settles (strategy.eval · right) m' (.ok (.integer b), m''))

include hleft hright

theorem settles_add :
    Settles (strategy.eval · (.binary .add left right)) m (.ok (.integer (a + b)), m'') := by
  have happlied : onHeap (Heap.applyBinary .add (.integer a) (.integer b)) m'' =
      (.ok (.integer (a + b)), m'') := rfl
  exact happlied ▸ settles_binary nofun nofun hleft hright

theorem settles_subtract :
    Settles (strategy.eval · (.binary .subtract left right)) m (.ok (.integer (a - b)), m'') := by
  have happlied : onHeap (Heap.applyBinary .subtract (.integer a) (.integer b)) m'' =
      (.ok (.integer (a - b)), m'') := rfl
  exact happlied ▸ settles_binary nofun nofun hleft hright

end Integers

/-! ### Arguments -/

theorem settles_evalList_nil (strategy : Strategy) (m : Machine) :
    Settles (strategy.evalList · []) m (.ok [], m) := by
  refine .succ (fun steps => by rw [Strategy.evalList]) ?_
  exact .of_eq fun _ => rfl

theorem settles_evalList_cons {expr : Expr} {rest : List Expr}
    (hexpr : Settles (strategy.eval · expr) m (.ok value, m'))
    (hrest : Settles (strategy.evalList · rest) m' (.ok values, m'')) :
    Settles (strategy.evalList · (expr :: rest)) m (.ok (value :: values), m'') := by
  refine .succ (fun steps => by rw [Strategy.evalList]) ?_
  exact hexpr.bind (hrest.bind (.of_eq fun _ => rfl))

theorem settles_evalArguments {positional : List Expr}
    (hpositional : Settles (strategy.evalList · positional) m (.ok values, m')) :
    Settles (strategy.evalArguments · positional []) m (.ok ⟨values, []⟩, m') := by
  have hnamed : Settles (strategy.evalNamed · []) m' (.ok [], m') := by
    refine .succ (fun steps => by rw [Strategy.evalNamed]) ?_
    exact .of_eq fun _ => rfl
  refine .succ (fun steps => by rw [Strategy.evalArguments]) ?_
  exact hpositional.bind (hnamed.bind (.of_eq fun _ => rfl))

/-! ### Calls and bodies -/

section Call

variable {f : String} {positional : List Expr}
  (hcallee : m.lookup f = .ok value)
  (harguments : Settles (strategy.evalList · positional) m (.ok values, m'))

include hcallee harguments

/-- A call of a named function. -/
theorem settles_callName {result : Except RuntimeError Value × Machine}
    (hcall : Settles (strategy.call · value ⟨values, []⟩) m' result) :
    Settles (strategy.eval · (.callName f positional)) m result := by
  refine .succ (fun steps => by rw [Expr.callName, Strategy.eval]) ?_
  exact (settles_name hcallee).bind ((settles_evalArguments harguments).bind hcall)

theorem settles_evalTail_callName {result : Except RuntimeError Completion × Machine}
    (hcall : Settles (strategy.tailCall · value ⟨values, []⟩) m' result) :
    Settles (strategy.evalTail · (.callName f positional)) m result := by
  refine .succ (fun steps => by rw [Expr.callName, Strategy.evalTail]) ?_
  exact (settles_name hcallee).bind ((settles_evalArguments harguments).bind hcall)

end Call

theorem settles_evalTail_conditional {condition consequence alternative : Expr}
    {result : Except RuntimeError Completion × Machine}
    (hcondition : Settles (strategy.eval · condition) m (.ok value, m'))
    (hbranch : Settles (strategy.evalTail · (if m'.heap.isTruthy value then consequence
      else alternative)) m' result) :
    Settles (strategy.evalTail · (.conditional condition consequence (some alternative))) m
      result := by
  refine .succ (fun steps => by rw [Strategy.evalTail]) ?_
  refine hcondition.bind (.bind (.of_eq fun _ => rfl) ?_)
  cases htruth : m'.heap.isTruthy value
  · simpa only [htruth, Bool.false_eq_true, if_false, Option.elim_some] using hbranch
  · simpa only [htruth, if_true] using hbranch

/-- An expression whose parts are not in tail position. -/
theorem settles_evalTail_of_eval {expr : Expr} {outcome : Except RuntimeError Value}
    (hfull : ∀ steps, strategy.evalTail (steps + 1) expr =
      do return .value (← strategy.eval steps expr))
    (hexpr : Settles (strategy.eval · expr) m (outcome, m')) :
    Settles (strategy.evalTail · expr) m (outcome.map .value, m') := by
  refine .succ hfull ?_
  cases outcome with
  | error err => exact hexpr.bind_error
  | ok value => exact hexpr.bind (.of_eq fun _ => rfl)

/-! ### Definitions -/

theorem settles_evalParameters_nil (strategy : Strategy) (declared : Parameters) (m : Machine) :
    Settles (strategy.evalParameters · declared []) m (.ok declared, m) := by
  refine .succ (fun steps => by rw [Strategy.evalParameters]) ?_
  exact .of_eq fun _ => rfl

section Parameters

variable {name : String} {declared : Parameters} {rest : List (String × Option Expr)}
  {result : Except RuntimeError Parameters × Machine}

theorem settles_evalParameters_required
    (hrest : Settles (strategy.evalParameters · (declared.declare name .required) rest) m result) :
    Settles (strategy.evalParameters · declared ((name, none) :: rest)) m result :=
  .succ (fun steps => by rw [Strategy.evalParameters]) hrest

theorem settles_evalParameters_default {default : Expr}
    (hdefault : Settles (strategy.eval · default) m (.ok value, m'))
    (hrest : Settles (strategy.evalParameters · (declared.declare name (.value value)) rest) m'
      result) :
    Settles (strategy.evalParameters · declared ((name, some default) :: rest)) m result := by
  refine .succ (fun steps => by rw [Strategy.evalParameters]) ?_
  exact hdefault.bind hrest

end Parameters

theorem settles_function {f : String} {parameters : List (String × Option Expr)} {body : Expr}
    {declared : Parameters}
    (hparameters : Settles (strategy.evalParameters · .empty parameters) m (.ok declared, m'))
    (hdefine : defineFunction f declared body m' = (.ok value, m'')) :
    Settles (strategy.eval · (.function f parameters body none)) m (.ok value, m'') := by
  refine .succ (fun steps => by rw [Strategy.eval]) ?_
  exact hparameters.bind (.lift_bind hdefine (.of_eq fun _ => rfl))

/-! ## Calling functions -/

section Closure

variable {address : Address} {arguments : Arguments} {scope : RecordId} {body : Expr}
  {repeated : Bool} {bound : List (String × Value)} {opened worked closed : Machine}
  {err : RuntimeError}

theorem settles_call_function {result : Except RuntimeError Value × Machine}
    (hcallable : (m.heap.function address).callable = .closure scope body)
    (hdrive : Settles (strategy.drive · false address arguments) m result) :
    Settles (strategy.call · (.function address) arguments) m result := by
  refine .succ (fun steps => by rw [Strategy.call]) ?_
  refine .succ (fun steps => by rw [Strategy.callFunction]) ?_
  refine .bind (.of_eq fun _ => rfl) ?_
  simpa only [hcallable] using hdrive

/-- A call of a method does what the method does to the heap. -/
theorem settles_call_listMethod {method : ListMethod} {receiver : Address}
    (hcallable : (m.heap.function address).callable = .listMethod method receiver) :
    Settles (strategy.call · (.function address) arguments) m
      (onHeap (method.call receiver arguments) m) := by
  refine .succ (fun steps => by rw [Strategy.call]) ?_
  refine .succ (fun steps => by rw [Strategy.callFunction]) ?_
  refine .bind (.of_eq fun _ => rfl) ?_
  simp only [hcallable]
  exact .of_eq fun _ => rfl

theorem settles_call_dictMethod {method : DictMethod} {receiver : Address}
    (hcallable : (m.heap.function address).callable = .dictMethod method receiver) :
    Settles (strategy.call · (.function address) arguments) m
      (onHeap (method.call receiver arguments) m) := by
  refine .succ (fun steps => by rw [Strategy.call]) ?_
  refine .succ (fun steps => by rw [Strategy.callFunction]) ?_
  refine .bind (.of_eq fun _ => rfl) ?_
  simp only [hcallable]
  exact .of_eq fun _ => rfl

/-- A call of the function that is running is handed back. -/
theorem settles_tailCall_deferred
    (hcallable : (m.heap.function address).callable = .closure scope body)
    (hrunning : m.currentName = .ok (m.heap.function address).name) :
    Settles (Strategy.deferring.tailCall · (.function address) arguments) m
      (.ok (.deferred address arguments), m) := by
  refine .succ (fun steps => by rw [Strategy.tailCall]) ?_
  refine .of_eq fun _ => ?_
  simp only [bind_on, get_on, hcallable, Callable.isNative, hrunning, ofOutcome_on,
    Strategy.deferring, Bool.true_and, beq_self_eq_true, if_true, Bool.false_eq_true, if_false,
    pure_on]

theorem settles_drive_error
    (hinvoke : Settles (strategy.invoke · address arguments) m (.error err, m')) :
    Settles (strategy.drive · repeated address arguments) m (.error err, m') := by
  refine .succ (fun steps => by rw [Strategy.drive]) ?_
  exact hinvoke.bind_error

/-- A function that has gone on by calls it handed back is marked in the end. -/
theorem settles_drive_value
    (hinvoke : Settles (strategy.invoke · address arguments) m (.ok (.value value), m')) :
    Settles (strategy.drive · repeated address arguments) m
      (.ok value, m'.markIf repeated address) := by
  refine .succ (fun steps => by rw [Strategy.drive]) ?_
  refine hinvoke.bind ?_
  cases repeated
  · exact .of_eq fun _ => rfl
  · exact .lift_bind rfl (.of_eq fun _ => rfl)

theorem settles_drive_deferred {next : Address} {following : Arguments}
    {result : Except RuntimeError Value × Machine}
    (hinvoke : Settles (strategy.invoke · address arguments) m
      (.ok (.deferred next following), m'))
    (hnext : Settles (strategy.drive · true next following) m' result) :
    Settles (strategy.drive · repeated address arguments) m result := by
  refine .succ (fun steps => by rw [Strategy.drive]) ?_
  exact hinvoke.bind hnext

section Invoke

variable (hcallable : (m.heap.function address).callable = .closure scope body)
  (hbound : (m.heap.function address).parameters.bind (m.heap.function address).name arguments =
    .ok bound)

include hcallable hbound

theorem settles_invoke {outcome : Except RuntimeError Completion}
    (hopen : openFunctionRecord (m.heap.function address).name scope bound m = (.ok (), opened))
    (hbody : Settles (Strategy.deferring.evalTail · body) opened (outcome, worked))
    (hclose : Machine.unwindTo m.stack.depth worked = (.ok (), closed)) :
    Settles (Strategy.deferring.invoke · address arguments) m (outcome, closed) := by
  refine .succ (fun steps => by rw [Strategy.invoke]) ?_
  refine .bind (.of_eq fun _ => rfl) ?_
  simp only [hcallable, hbound]
  refine .bind (.of_eq fun _ => rfl) (.lift_bind (depth_on m) (.bind (.of_eq fun _ => rfl) ?_))
  exact .lift_bind hopen (hbody.outcomeOf.bind (.lift_bind hclose (.of_eq fun _ => rfl)))

theorem settles_invoke_error
    (hopen : openFunctionRecord (m.heap.function address).name scope bound m =
      (.error err, opened)) :
    Settles (Strategy.deferring.invoke · address arguments) m (.error err, opened) := by
  refine .succ (fun steps => by rw [Strategy.invoke]) ?_
  refine .bind (.of_eq fun _ => rfl) ?_
  simp only [hcallable, hbound]
  refine .bind (.of_eq fun _ => rfl) (.lift_bind (depth_on m) (.bind (.of_eq fun _ => rfl) ?_))
  refine Settles.bind_error (.of_eq fun _ => ?_)
  rw [lift_on, hopen]

end Invoke

end Closure

/-! ## Programs -/

theorem settles_runFrom_nil (strategy : Strategy) (last : Value) (m : Machine) :
    Settles (strategy.runFrom · last []) m (.ok last, m) :=
  .of_eq fun _ => rfl

section Program

variable {expr : Expr} {rest : List Expr} {last : Value} {err : RuntimeError}

theorem settles_runFrom_cons {result : Except RuntimeError Value × Machine}
    (hexpr : Settles (strategy.eval · expr) m (.ok value, m'))
    (hrest : Settles (strategy.runFrom · value rest) (collect [value] m').2 result) :
    Settles (strategy.runFrom · last (expr :: rest)) m result := by
  have hcollect : Settles (fun _ => (liftM (collect [value]) : Run Nat)) m'
      (.ok (m'.arena.collect m'.heap m'.stack.records.toList [value]).1, (collect [value] m').2) :=
    .of_eq fun _ => rfl
  exact hexpr.bind (hcollect.discard.bind hrest)

theorem settles_runFrom_error
    (hexpr : Settles (strategy.eval · expr) m (.error err, m')) :
    Settles (strategy.runFrom · last (expr :: rest)) m (.error err, m') :=
  hexpr.bind_error

end Program

end Strategy

end ScriptCore
