import ScriptCore.Proofs.Evaluation.Tracking
import ScriptCore.Proofs.HostProgram

/-!
# More steps never change an outcome

A run that is out of steps has no outcome; with more steps it may have one, and then it keeps it.
`run.Approximates run'` says that wherever the first run has an outcome the second one has the same.
It passes through all that runs are put together from, so by induction on the steps every function
of the evaluator approximates itself with one more step (`Strategy.grows`).  A routine of the host
is run with the evaluator that it is given, so it approximates itself if that one does, by induction
on what it asks for (`HostProgram.approximates_run`).

Whatever an evaluation comes to within some steps is therefore what it settles on
(`Run.settles_iff`).

So the bound on the steps, without which the evaluator could not be a function, drops out of every
statement about outcomes.  `Settles` says that with enough steps runs come to a result and stay with
it; because runs grow, that is the same as coming to it once, and there is at most one such result.
-/

namespace ScriptCore

/-! ## Approximation -/

namespace Run

variable {α β : Type} {run run' run'' : Run α} {next next' : α → Run β} {runs : Nat → Run α}
  {m : Machine}

/-- Wherever the first run has an outcome the second one has the same. -/
def Approximates (run run' : Run α) : Prop :=
  ∀ m result, run m = some result → run' m = some result

theorem approximates_outOfSteps (run : Run α) : (outOfSteps : Run α).Approximates run :=
  fun _ _ hrun => nomatch hrun

theorem Approximates.refl (run : Run α) : run.Approximates run :=
  fun _ _ hrun => hrun

theorem Approximates.trans (hfirst : run.Approximates run') (hsecond : run'.Approximates run'') :
    run.Approximates run'' :=
  fun m result hrun => hsecond m result (hfirst m result hrun)

theorem Approximates.bind (hrun : run.Approximates run')
    (hnext : ∀ value, (next value).Approximates (next' value)) :
    (run >>= next).Approximates (run' >>= next') := by
  intro m result hresult
  rw [bind_on] at hresult ⊢
  rcases hfirst : run m with _ | ⟨_ | value, middle⟩
  · simp [hfirst] at hresult
  · rw [hrun m _ hfirst]
    rwa [hfirst] at hresult
  · rw [hrun m _ hfirst]
    rw [hfirst] at hresult
    exact hnext value middle result hresult

theorem Approximates.ite {condition : Prop} [Decidable condition] {other other' : Run α}
    (hthen : run.Approximates run') (helse : other.Approximates other') :
    (if condition then run else other).Approximates (if condition then run' else other') := by
  split
  · exact hthen
  · exact helse

theorem Approximates.discard (hrun : run.Approximates run') :
    (discard run : Run PUnit).Approximates (discard run') := by
  intro m result hresult
  rw [discard_on] at hresult ⊢
  rcases hfirst : run m with _ | first
  · simp [hfirst] at hresult
  · rw [hrun m _ hfirst]
    rwa [hfirst] at hresult

theorem Approximates.outcomeOf (hrun : run.Approximates run') :
    (outcomeOf run).Approximates (outcomeOf run') := by
  intro m result hresult
  rw [outcomeOf_on] at hresult ⊢
  rcases hfirst : run m with _ | first
  · simp [hfirst] at hresult
  · rw [hrun m _ hfirst]
    rwa [hfirst] at hresult

theorem approximates_of_le (hgrows : ∀ steps, (runs steps).Approximates (runs (steps + 1)))
    {steps steps' : Nat} (hle : steps ≤ steps') : (runs steps).Approximates (runs steps') := by
  induction hle with
  | refl => exact .refl _
  | step _ ih => exact ih.trans (hgrows _)

/-- Runs that keep their outcomes settle on whatever one of them comes to. -/
theorem settles_iff (hgrows : ∀ steps, (runs steps).Approximates (runs (steps + 1)))
    {result : Except RuntimeError α × Machine} :
    Settles runs m result ↔ ∃ steps, runs steps m = some result := by
  constructor
  · rintro ⟨bound, hbound⟩
    exact ⟨bound, hbound bound (Nat.le_refl bound)⟩
  · rintro ⟨steps, hrun⟩
    exact ⟨steps, fun steps' hle => approximates_of_le hgrows hle m result hrun⟩

end Run

open Run

/-! ## Programs of the host -/

/-- Wherever an evaluation with the first evaluator has an outcome, one with the second has the
same. -/
structure Evaluator.Approximates (evaluator evaluator' : Evaluator) : Prop where
  eval : ∀ expr, (evaluator.eval expr).Approximates (evaluator'.eval expr)
  evalTail : ∀ expr, (evaluator.evalTail expr).Approximates (evaluator'.evalTail expr)
  call : ∀ callee arguments,
    (evaluator.call callee arguments).Approximates (evaluator'.call callee arguments)
  tailCall : ∀ callee arguments,
    (evaluator.tailCall callee arguments).Approximates (evaluator'.tailCall callee arguments)

section Host

variable {evaluator evaluator' : Evaluator} (hevaluator : evaluator.Approximates evaluator')

include hevaluator

theorem HostRequest.approximates_perform (request : HostRequest) :
    (request.perform evaluator).Approximates (request.perform evaluator') := by
  cases request with
  | eval expr => exact hevaluator.eval expr
  | evalTail expr => exact hevaluator.evalTail expr
  | call callee arguments => exact hevaluator.call callee arguments
  | tailCall callee arguments => exact hevaluator.tailCall callee arguments
  | _ => exact .refl _

theorem HostProgram.approximates_run {α : Type} (program : HostProgram α) :
    (program.run evaluator).Approximates (program.run evaluator') := by
  induction program with
  | done outcome => exact .refl _
  | ask request next ih =>
      exact (request.approximates_perform hevaluator).outcomeOf.bind fun outcome => ih outcome

end Host

/-! ## The evaluator -/

namespace Strategy

/-- One more step changes no outcome. -/
structure Grows (strategy : Strategy) (steps : Nat) : Prop where
  eval : ∀ expr, (strategy.eval steps expr).Approximates (strategy.eval (steps + 1) expr)
  evalTail : ∀ expr,
    (strategy.evalTail steps expr).Approximates (strategy.evalTail (steps + 1) expr)
  evalBlock : ∀ last body,
    (strategy.evalBlock steps last body).Approximates (strategy.evalBlock (steps + 1) last body)
  evalTailBlock : ∀ body,
    (strategy.evalTailBlock steps body).Approximates (strategy.evalTailBlock (steps + 1) body)
  evalList : ∀ exprs,
    (strategy.evalList steps exprs).Approximates (strategy.evalList (steps + 1) exprs)
  evalPairs : ∀ pairs,
    (strategy.evalPairs steps pairs).Approximates (strategy.evalPairs (steps + 1) pairs)
  evalNamed : ∀ named,
    (strategy.evalNamed steps named).Approximates (strategy.evalNamed (steps + 1) named)
  evalArguments : ∀ positional named, (strategy.evalArguments steps positional named).Approximates
    (strategy.evalArguments (steps + 1) positional named)
  evalParameters : ∀ declared parameters,
    (strategy.evalParameters steps declared parameters).Approximates
      (strategy.evalParameters (steps + 1) declared parameters)
  call : ∀ callee arguments,
    (strategy.call steps callee arguments).Approximates (strategy.call (steps + 1) callee arguments)
  callFunction : ∀ address arguments, (strategy.callFunction steps address arguments).Approximates
    (strategy.callFunction (steps + 1) address arguments)
  tailCall : ∀ callee arguments, (strategy.tailCall steps callee arguments).Approximates
    (strategy.tailCall (steps + 1) callee arguments)
  drive : ∀ repeated address arguments,
    (strategy.drive steps repeated address arguments).Approximates
      (strategy.drive (steps + 1) repeated address arguments)
  invoke : ∀ address arguments, (strategy.invoke steps address arguments).Approximates
    (strategy.invoke (steps + 1) address arguments)
  callHost : ∀ name routine arguments, (strategy.callHost steps name routine arguments).Approximates
    (strategy.callHost (steps + 1) name routine arguments)

variable {strategy : Strategy} {steps : Nat}

theorem grows_zero : strategy.Grows 0 where
  eval _ := approximates_outOfSteps _
  evalTail _ := approximates_outOfSteps _
  evalBlock _ _ := approximates_outOfSteps _
  evalTailBlock _ := approximates_outOfSteps _
  evalList _ := approximates_outOfSteps _
  evalPairs _ := approximates_outOfSteps _
  evalNamed _ := approximates_outOfSteps _
  evalArguments _ _ := approximates_outOfSteps _
  evalParameters _ _ := approximates_outOfSteps _
  call _ _ := approximates_outOfSteps _
  callFunction _ _ := approximates_outOfSteps _
  tailCall _ _ := approximates_outOfSteps _
  drive _ _ _ := approximates_outOfSteps _
  invoke _ _ := approximates_outOfSteps _
  callHost _ _ _ := approximates_outOfSteps _

/-! ### Sequences of expressions -/

theorem Grows.evalBlock_succ (ih : strategy.Grows steps) (last : Value) (body : List Expr) :
    (strategy.evalBlock (steps + 1) last body).Approximates
      (strategy.evalBlock (steps + 1 + 1) last body) := by
  cases body with
  | nil =>
      rw [Strategy.evalBlock, Strategy.evalBlock]
      exact .refl _
  | cons expr rest =>
      rw [Strategy.evalBlock, Strategy.evalBlock]
      exact (ih.eval expr).bind fun value => ih.evalBlock value rest

theorem Grows.evalTailBlock_succ (ih : strategy.Grows steps) (body : List Expr) :
    (strategy.evalTailBlock (steps + 1) body).Approximates
      (strategy.evalTailBlock (steps + 1 + 1) body) := by
  match body with
  | [] =>
      rw [Strategy.evalTailBlock, Strategy.evalTailBlock]
      exact .refl _
  | [last] =>
      rw [Strategy.evalTailBlock, Strategy.evalTailBlock]
      exact ih.evalTail last
  | expr :: next :: rest =>
      rw [Strategy.evalTailBlock, Strategy.evalTailBlock]
      · exact (ih.eval expr).discard.bind fun _ => ih.evalTailBlock (next :: rest)
      all_goals simp

theorem Grows.evalList_succ (ih : strategy.Grows steps) (exprs : List Expr) :
    (strategy.evalList (steps + 1) exprs).Approximates
      (strategy.evalList (steps + 1 + 1) exprs) := by
  cases exprs with
  | nil =>
      rw [Strategy.evalList, Strategy.evalList]
      exact .refl _
  | cons expr rest =>
      rw [Strategy.evalList, Strategy.evalList]
      exact (ih.eval expr).bind fun value => (ih.evalList rest).bind fun values => .refl _

theorem Grows.evalPairs_succ (ih : strategy.Grows steps) (pairs : List (Expr × Expr)) :
    (strategy.evalPairs (steps + 1) pairs).Approximates
      (strategy.evalPairs (steps + 1 + 1) pairs) := by
  match pairs with
  | [] =>
      rw [Strategy.evalPairs, Strategy.evalPairs]
      exact .refl _
  | (key, value) :: rest =>
      rw [Strategy.evalPairs, Strategy.evalPairs]
      refine (ih.eval key).bind fun key => (ih.eval value).bind fun value => ?_
      exact (ih.evalPairs rest).bind fun entries => .refl _

theorem Grows.evalNamed_succ (ih : strategy.Grows steps) (named : List (String × Expr)) :
    (strategy.evalNamed (steps + 1) named).Approximates
      (strategy.evalNamed (steps + 1 + 1) named) := by
  match named with
  | [] =>
      rw [Strategy.evalNamed, Strategy.evalNamed]
      exact .refl _
  | (name, expr) :: rest =>
      rw [Strategy.evalNamed, Strategy.evalNamed]
      exact (ih.eval expr).bind fun value => (ih.evalNamed rest).bind fun entries => .refl _

theorem Grows.evalArguments_succ (ih : strategy.Grows steps) (positional : List Expr)
    (named : List (String × Expr)) :
    (strategy.evalArguments (steps + 1) positional named).Approximates
      (strategy.evalArguments (steps + 1 + 1) positional named) := by
  rw [Strategy.evalArguments, Strategy.evalArguments]
  exact (ih.evalList positional).bind fun values => (ih.evalNamed named).bind fun entries => .refl _

theorem Grows.evalParameters_succ (ih : strategy.Grows steps) (declared : Parameters)
    (parameters : List (String × Option Expr)) :
    (strategy.evalParameters (steps + 1) declared parameters).Approximates
      (strategy.evalParameters (steps + 1 + 1) declared parameters) := by
  match parameters with
  | [] =>
      rw [Strategy.evalParameters, Strategy.evalParameters]
      exact .refl _
  | (name, none) :: rest =>
      rw [Strategy.evalParameters, Strategy.evalParameters]
      exact ih.evalParameters _ rest
  | (name, some default) :: rest =>
      rw [Strategy.evalParameters, Strategy.evalParameters]
      exact (ih.eval default).bind fun value => ih.evalParameters _ rest

/-! ### Calls -/

theorem Grows.call_succ (ih : strategy.Grows steps) (callee : Value) (arguments : Arguments) :
    (strategy.call (steps + 1) callee arguments).Approximates
      (strategy.call (steps + 1 + 1) callee arguments) := by
  cases callee with
  | function address =>
      rw [Strategy.call, Strategy.call]
      exact ih.callFunction address arguments
  | module address =>
      rw [Strategy.call, Strategy.call]
      exact .refl _
  | _ => rw [Strategy.call, Strategy.call] <;> first | exact .refl _ | exact nofun

theorem Grows.callFunction_succ (ih : strategy.Grows steps) (address : Address)
    (arguments : Arguments) :
    (strategy.callFunction (steps + 1) address arguments).Approximates
      (strategy.callFunction (steps + 1 + 1) address arguments) := by
  rw [Strategy.callFunction, Strategy.callFunction]
  refine (Approximates.refl get).bind fun m => ?_
  dsimp only
  cases (m.heap.function address).callable with
  | listMethod method receiver => exact .refl _
  | dictMethod method receiver => exact .refl _
  | host routine => exact ih.callHost _ routine arguments
  | closure scope body => exact ih.drive false address arguments

theorem Grows.tailCall_succ (ih : strategy.Grows steps) (callee : Value) (arguments : Arguments) :
    (strategy.tailCall (steps + 1) callee arguments).Approximates
      (strategy.tailCall (steps + 1 + 1) callee arguments) := by
  have hfull : (do return .value (← strategy.call steps callee arguments) :
      Run Completion).Approximates (do return .value (← strategy.call (steps + 1) callee arguments))
      := (ih.call callee arguments).bind fun value => .refl _
  cases callee with
  | function address =>
      rw [Strategy.tailCall, Strategy.tailCall]
      refine (Approximates.refl get).bind fun m => .ite hfull ?_
      refine (Approximates.refl get).bind fun m => (Approximates.refl _).bind fun running => ?_
      exact .ite (.refl _) hfull
  | _ => rw [Strategy.tailCall, Strategy.tailCall] <;> first | exact hfull | exact nofun

theorem Grows.drive_succ (ih : strategy.Grows steps) (repeated : Bool) (address : Address)
    (arguments : Arguments) :
    (strategy.drive (steps + 1) repeated address arguments).Approximates
      (strategy.drive (steps + 1 + 1) repeated address arguments) := by
  rw [Strategy.drive, Strategy.drive]
  refine (ih.invoke address arguments).bind fun completion => ?_
  cases completion with
  | value value => exact .refl _
  | deferred next arguments => exact ih.drive true next arguments

theorem Grows.invoke_succ (ih : strategy.Grows steps) (address : Address) (arguments : Arguments) :
    (strategy.invoke (steps + 1) address arguments).Approximates
      (strategy.invoke (steps + 1 + 1) address arguments) := by
  have hnative : (do return .value (← strategy.callFunction steps address arguments) :
      Run Completion).Approximates
      (do return .value (← strategy.callFunction (steps + 1) address arguments)) :=
    (ih.callFunction address arguments).bind fun value => .refl _
  rw [Strategy.invoke, Strategy.invoke]
  refine (Approximates.refl get).bind fun m => ?_
  dsimp only
  cases (m.heap.function address).callable with
  | closure scope body =>
      refine (Approximates.refl _).bind fun bound => (Approximates.refl _).bind fun depth => ?_
      refine (Approximates.refl _).bind fun _ => (Approximates.refl _).bind fun _ => ?_
      exact (ih.evalTail body).outcomeOf.bind fun outcome => .refl _
  | _ => exact hnative

theorem Grows.callHost_succ (ih : strategy.Grows steps) (name : String) (routine : HostRoutine)
    (arguments : Arguments) :
    (strategy.callHost (steps + 1) name routine arguments).Approximates
      (strategy.callHost (steps + 1 + 1) name routine arguments) := by
  rw [Strategy.callHost_succ, Strategy.callHost_succ]
  exact HostProgram.approximates_run ⟨ih.eval, ih.evalTail, ih.call, ih.tailCall⟩ _

/-! ### Expressions -/

theorem Grows.handle_succ (ih : strategy.Grows steps) (body : Expr) (binding : String)
    (handler : Expr) :
    (strategy.eval (steps + 1) (.handle body binding handler)).Approximates
      (strategy.eval (steps + 1 + 1) (.handle body binding handler)) := by
  rw [Strategy.eval, Strategy.eval]
  refine (Approximates.refl _).bind fun depth => (ih.eval body).outcomeOf.bind fun outcome => ?_
  cases outcome with
  | ok value => exact .refl _
  | error err =>
      refine .ite (.refl _) ?_
      refine (Approximates.refl _).bind fun _ => (Approximates.refl _).bind fun _ => ?_
      refine (Approximates.refl _).bind fun record => ?_
      have hhandler := (Approximates.refl
        (Machine.define binding (.ofError err) : Run Unit)).bind fun _ => ih.eval handler
      exact hhandler.outcomeOf.bind fun outcome => .refl _

theorem Grows.binary_succ (ih : strategy.Grows steps) (operator : BinaryOperator)
    (left right : Expr) :
    (strategy.eval (steps + 1) (.binary operator left right)).Approximates
      (strategy.eval (steps + 1 + 1) (.binary operator left right)) := by
  by_cases hand : operator = .and
  · subst operator
    rw [Strategy.eval, Strategy.eval]
    refine (ih.eval left).bind fun left => (Approximates.refl get).bind fun m => ?_
    exact .ite ((ih.eval right).bind fun right => .refl _) (.refl _)
  by_cases hor : operator = .or
  · subst operator
    rw [Strategy.eval, Strategy.eval]
    refine (ih.eval left).bind fun left => (Approximates.refl get).bind fun m => ?_
    exact .ite (.refl _) ((ih.eval right).bind fun right => .refl _)
  rw [Strategy.eval, Strategy.eval]
  · exact (ih.eval left).bind fun left => (ih.eval right).bind fun right => .refl _
  all_goals assumption

theorem Grows.eval_succ (ih : strategy.Grows steps) (expr : Expr) :
    (strategy.eval (steps + 1) expr).Approximates (strategy.eval (steps + 1 + 1) expr) := by
  cases expr with
  | literal value =>
      rw [Strategy.eval, Strategy.eval]
      exact .refl _
  | name name =>
      rw [Strategy.eval, Strategy.eval]
      exact .refl _
  | assign name value =>
      rw [Strategy.eval, Strategy.eval]
      exact (ih.eval value).bind fun value => .refl _
  | define name value =>
      rw [Strategy.eval, Strategy.eval]
      exact (ih.eval value).bind fun value => .refl _
  | unary operator operand =>
      rw [Strategy.eval, Strategy.eval]
      exact (ih.eval operand).bind fun value => .refl _
  | binary operator left right => exact ih.binary_succ operator left right
  | conditional condition consequence alternative =>
      rw [Strategy.eval, Strategy.eval]
      refine (ih.eval condition).bind fun value => (Approximates.refl get).bind fun m => ?_
      refine .ite (ih.eval consequence) ?_
      cases alternative with
      | some other => exact ih.eval other
      | none => exact .refl _
  | block body =>
      rw [Strategy.eval, Strategy.eval]
      exact ih.evalBlock .null body
  | list items =>
      rw [Strategy.eval, Strategy.eval]
      exact (ih.evalList items).bind fun values => .refl _
  | dict entries =>
      rw [Strategy.eval, Strategy.eval]
      exact (ih.evalPairs entries).bind fun values => .refl _
  | function name parameters body doc =>
      rw [Strategy.eval, Strategy.eval]
      exact (ih.evalParameters .empty parameters).bind fun declared => .refl _
  | call callee positional named =>
      rw [Strategy.eval, Strategy.eval]
      refine (ih.eval callee).bind fun callee => ?_
      exact (ih.evalArguments positional named).bind fun arguments => ih.call callee arguments
  | getAttribute object name =>
      rw [Strategy.eval, Strategy.eval]
      exact (ih.eval object).bind fun object => .refl _
  | setAttribute object name value =>
      rw [Strategy.eval, Strategy.eval]
      exact (ih.eval object).bind fun object => (ih.eval value).bind fun value => .refl _
  | callMethod receiver name positional named =>
      rw [Strategy.eval, Strategy.eval]
      refine (ih.eval receiver).bind fun receiver => ?_
      refine (ih.evalArguments positional named).bind fun arguments => ?_
      exact (Approximates.refl _).bind fun method => ih.call method arguments
  | raise label message =>
      rw [Strategy.eval, Strategy.eval]
      exact (ih.eval message).bind fun message => .refl _
  | handle body binding handler => exact ih.handle_succ body binding handler

theorem Grows.evalTail_succ (ih : strategy.Grows steps) (expr : Expr) :
    (strategy.evalTail (steps + 1) expr).Approximates
      (strategy.evalTail (steps + 1 + 1) expr) := by
  cases expr with
  | call callee positional named =>
      rw [Strategy.evalTail, Strategy.evalTail]
      refine (ih.eval callee).bind fun callee => ?_
      exact (ih.evalArguments positional named).bind fun arguments => ih.tailCall callee arguments
  | callMethod receiver name positional named =>
      rw [Strategy.evalTail, Strategy.evalTail]
      refine (ih.eval receiver).bind fun receiver => ?_
      refine (ih.evalArguments positional named).bind fun arguments => ?_
      exact (Approximates.refl _).bind fun method => ih.tailCall method arguments
  | conditional condition consequence alternative =>
      rw [Strategy.evalTail, Strategy.evalTail]
      refine (ih.eval condition).bind fun value => (Approximates.refl get).bind fun m => ?_
      refine .ite (ih.evalTail consequence) ?_
      cases alternative with
      | some other => exact ih.evalTail other
      | none => exact .refl _
  | block body =>
      rw [Strategy.evalTail, Strategy.evalTail]
      exact ih.evalTailBlock body
  | _ =>
      rw [Strategy.evalTail, Strategy.evalTail]
      · exact (ih.eval _).bind fun value => .refl _
      all_goals simp

/-- However many steps are given, one more changes no outcome. -/
theorem grows (strategy : Strategy) (steps : Nat) : strategy.Grows steps := by
  induction steps with
  | zero => exact grows_zero
  | succ steps ih =>
      exact {
        -- Each function with one step more calls others with one step fewer than that, which grow
        -- by `ih`.
        eval := ih.eval_succ
        evalTail := ih.evalTail_succ
        evalBlock := ih.evalBlock_succ
        evalTailBlock := ih.evalTailBlock_succ
        evalList := ih.evalList_succ
        evalPairs := ih.evalPairs_succ
        evalNamed := ih.evalNamed_succ
        evalArguments := ih.evalArguments_succ
        evalParameters := ih.evalParameters_succ
        call := ih.call_succ
        callFunction := ih.callFunction_succ
        tailCall := ih.tailCall_succ
        drive := ih.drive_succ
        invoke := ih.invoke_succ
        callHost := ih.callHost_succ }

/-! ### What evaluations settle on -/

variable {m : Machine}

theorem eval_settles {expr : Expr} {result : Except RuntimeError Value × Machine}
    (hrun : strategy.eval steps expr m = some result) :
    Settles (strategy.eval · expr) m result :=
  (settles_iff fun steps => (strategy.grows steps).eval expr).2 ⟨steps, hrun⟩

theorem evalArguments_settles {positional : List Expr} {named : List (String × Expr)}
    {result : Except RuntimeError Arguments × Machine}
    (hrun : strategy.evalArguments steps positional named m = some result) :
    Settles (strategy.evalArguments · positional named) m result :=
  (settles_iff fun steps => (strategy.grows steps).evalArguments positional named).2 ⟨steps, hrun⟩

theorem call_settles {callee : Value} {arguments : Arguments}
    {result : Except RuntimeError Value × Machine}
    (hrun : strategy.call steps callee arguments m = some result) :
    Settles (strategy.call · callee arguments) m result :=
  (settles_iff fun steps => (strategy.grows steps).call callee arguments).2 ⟨steps, hrun⟩

end Strategy

end ScriptCore
