import ScriptCore.Proofs.Heap.Routines
import ScriptCore.Proofs.HostProgram
import ScriptCore.Proofs.Machine.Stack

/-!
# What evaluation conserves

Evaluating takes steps of a few kinds on a machine: it works on the heap, it binds names in the
current scope, it captures that scope, and it opens a scope, works in it and closes it again.
`Machine.ConservesSteps allowed rel` says that each of them conserves a relation of the machine to
the one from which the run has started.  Work in a scope that was opened starts anew with the opened
machine.

What the routines of the host do is another matter, as a routine can do anything.  It does what it
does through an evaluator, though, and the evaluator is the one that is to conserve the relation.
So a routine is asked to conserve it as far as the evaluator does, whatever the evaluator is
(`HostRoutine.Respects`).  `Machine.Conserves allowed rel` says that all routines that the heap may
have do so.

Then evaluating conserves the relation, whatever the expression, the strategy and the outcome, with
errors of any kind (`Strategy.respects`).  The proof is by induction on the steps: a routine that is
called has one step less at hand, and by induction its evaluator conserves the relation.

A call binds names only in scopes that it opens.  So it may conserve, for the machine that makes it,
a relation that binding names in the current scope would not (`Machine.Frames`,
`Strategy.respectsCalls`).  Routines are then told of the evaluator only what it does in calls
(`HostRoutine.RespectsCalls`).

A routine that asks for nothing that could have an effect on the scopes conserves whatever the steps
of an evaluation do (`HostRoutine.respects_of_asks`, `HostRoutine.respectsCalls_of_asks`).
-/

namespace ScriptCore

open Run

/-! ## Routines of the host -/

/-- Calls that are made with an evaluator conserve a relation of the machine to the one from which
the run has started. -/
structure Evaluator.RespectsCalls (evaluator : Evaluator) (rel : Machine → Machine → Prop) :
    Prop where
  call : ∀ {m₀ m} callee arguments, rel m₀ m →
    (evaluator.call callee arguments).Maintains m (rel m₀)
  tailCall : ∀ {m₀ m} callee arguments, rel m₀ m →
    (evaluator.tailCall callee arguments).Maintains m (rel m₀)

/-- Everything that is evaluated with an evaluator conserves a relation. -/
structure Evaluator.Respects (evaluator : Evaluator) (rel : Machine → Machine → Prop) : Prop
    extends RespectsCalls evaluator rel where
  eval : ∀ {m₀ m} expr, rel m₀ m → (evaluator.eval expr).Maintains m (rel m₀)
  evalTail : ∀ {m₀ m} expr, rel m₀ m → (evaluator.evalTail expr).Maintains m (rel m₀)

/-- A routine conserves a relation if what it has evaluated does. -/
def HostRoutine.Respects (rel : Machine → Machine → Prop) (routine : HostRoutine) : Prop :=
  ∀ {evaluator : Evaluator}, evaluator.Respects rel → ∀ {m₀ m} name arguments, rel m₀ m →
    ((routine.program name arguments).run evaluator).Maintains m (rel m₀)

/-- A routine conserves a relation if the calls that it makes do. -/
def HostRoutine.RespectsCalls (rel : Machine → Machine → Prop) (routine : HostRoutine) : Prop :=
  ∀ {evaluator : Evaluator}, evaluator.RespectsCalls rel → ∀ {m₀ m} name arguments, rel m₀ m →
    ((routine.program name arguments).run evaluator).Maintains m (rel m₀)

/-! ## Steps -/

namespace Machine

/-- The steps by which calls are made conserve an outer relation of the machine to the one from
which the run has started, if work in a scope that was opened conserves an inner one of the machine
to the opened one. -/
structure Frames (allowed : HostRoutine → Prop) (inner outer : Machine → Machine → Prop) :
    Prop where
  permits : ∀ {m₀ m}, outer m₀ m → m.heap.Permits allowed
  heap : ∀ {m₀ m heap}, outer m₀ m → heap.Permits allowed → outer m₀ { m with heap }
  fails : ∀ {m₀ m m' name kind scope bound err}, outer m₀ m →
    openRecord (.fresh name kind) (setUpCall scope bound) m = (.error err, m') → outer m₀ m'
  opens : ∀ {m₀ m opened name kind scope bound id}, outer m₀ m →
    openRecord (.fresh name kind) (setUpCall scope bound) m = (.ok id, opened) →
    inner opened opened
  closes : ∀ {m₀ m opened worked name kind scope bound id}, outer m₀ m →
    openRecord (.fresh name kind) (setUpCall scope bound) m = (.ok id, opened) →
    inner opened worked →
    outer m₀ (unwindTo m.stack.depth worked).2 ∧ outer m₀ (popRecord id worked).2

/-- The steps that an evaluation takes by itself conserve a relation of the machine to the one from
which the run has started. -/
structure ConservesSteps (allowed : HostRoutine → Prop) (rel : Machine → Machine → Prop) : Prop
    extends Frames allowed rel rel where
  assign : ∀ {m₀ m} (name value), rel m₀ m → rel m₀ (Machine.assign name value m).2
  define : ∀ {m₀ m} (name value), rel m₀ m → rel m₀ (Machine.define name value m).2
  captures : ∀ {m₀ m}, rel m₀ m → rel m₀ (onArena (fun a => a.capture m.currentRecord) m).2
  /-- What a failed evaluation has left open is closed. -/
  rewinds : ∀ {m₀ m m'}, rel m₀ m → rel m₀ m' → rel m₀ (unwindTo m.stack.depth m').2

/-- The steps of an evaluation conserve a relation, and so do the routines that the heap may have.
-/
structure Conserves (allowed : HostRoutine → Prop) (rel : Machine → Machine → Prop) : Prop
    extends ConservesSteps allowed rel where
  host : ∀ {routine}, allowed routine → routine.Respects rel

end Machine

open Machine

variable {allowed : HostRoutine → Prop} {inner outer rel : Machine → Machine → Prop}
  {m₀ m : Machine}

namespace Machine.Frames

theorem maintains_onHeap (hframes : Frames allowed inner outer) {α : Type}
    {attempt : Attempt Heap α} (hattempt : attempt.Maintains (Heap.Permits allowed)) :
    (onHeap attempt).Maintains (outer m₀) :=
  fun m hm => hframes.heap hm (hattempt m.heap (hframes.permits hm))

theorem onHeap (hframes : Frames allowed inner outer) (hm : outer m₀ m) {α : Type}
    {attempt : Attempt Heap α} (hattempt : attempt.Maintains (Heap.Permits allowed)) :
    (liftM (Machine.onHeap attempt) : Run α).Maintains m (outer m₀) :=
  maintains_lift (hframes.maintains_onHeap hattempt m hm)

theorem maintains_markOptimized (hframes : Frames allowed inner outer) (address : Address) :
    (Machine.markOptimized address).Maintains (outer m₀) :=
  hframes.maintains_onHeap fun _ hh => hh.setFunction address rfl

/-- Work in a scope that was opened conserves the inner relation; after the scope was closed the
outer one holds again. -/
theorem inScope (hframes : Frames allowed inner outer) (hm : outer m₀ m) {name : String}
    {kind : RecordKind} {scope : RecordId} {bound : List (String × Value)} {id : RecordId}
    {opened : Machine}
    (hopen : openRecord (.fresh name kind) (setUpCall scope bound) m = (.ok id, opened))
    {α : Type} {run : Run α} (hrun : run.Maintains opened (inner opened))
    {close : Attempt Machine Unit}
    (hclose : close = Machine.unwindTo m.stack.depth ∨ close = Machine.popRecord id) :
    Run.Maintains (do
      let outcome ← outcomeOf run
      close
      ofOutcome outcome) opened (outer m₀) := by
  intro outcome m' hresult
  rw [bind_on, outcomeOf_on] at hresult
  rcases hfirst : run opened with _ | ⟨first, worked⟩
  · simp [hfirst] at hresult
  · obtain ⟨hunwind, hpop⟩ := hframes.closes hm hopen (hrun first worked hfirst)
    -- Whichever way the scope is closed, the relation holds of what the closing leaves, and the
    -- outcome of the run is handed on unchanged.
    have hclosed : outer m₀ (close worked).2 := by
      rcases hclose with rfl | rfl
      · exact hunwind
      · exact hpop
    simp only [hfirst] at hresult
    refine (maintains_lift hclosed).bind (fun _ m' hm' => ?_) outcome m' hresult
    exact maintains_ofOutcome hm' first

end Machine.Frames

theorem Machine.ConservesSteps.maintains_defineFunction (hrel : ConservesSteps allowed rel)
    (name : String) (parameters : Parameters) (body : Expr) :
    (Machine.defineFunction name parameters body).Maintains (rel m₀) := by
  intro m hm
  have hcaptured := hrel.captures hm
  rw [Machine.defineFunction, Attempt.bind_on, Attempt.get_on]
  dsimp only
  rw [Attempt.bind_on]
  rcases hcapture : onArena (fun a => a.capture m.currentRecord) m with ⟨_ | _, after⟩
  · rwa [hcapture] at hcaptured
  · rw [hcapture] at hcaptured
    -- The scope is captured; what is left to do conserves the relation from any machine.
    refine Attempt.Maintains.bind (hrel.maintains_onHeap fun h hh => ?_)
      (fun function => .bind (fun m hm => hrel.define name function hm) fun _ => .pure function)
      after hcaptured
    exact hh.newFunction name parameters (by simp)

/-! ## Requests of the host -/

section Requests

variable {evaluator : Evaluator} {request : HostRequest} {routine : HostRoutine}

/-- What has no effect on the scopes by itself is conserved if calls are. -/
theorem Machine.Frames.maintains_perform (hframes : Frames allowed inner outer)
    (hcalls : evaluator.RespectsCalls outer) (heffect : request.effect = .nothing)
    (hm : outer m₀ m) : (request.perform evaluator).Maintains m (outer m₀) := by
  cases request with
  | call callee arguments => exact hcalls.call callee arguments hm
  | tailCall callee arguments => exact hcalls.tailCall callee arguments hm
  | makeList items => exact hframes.onHeap hm (Heap.maintains_makeList items)
  | plainText value => exact maintains_get_bind (maintains_pure hm _)
  | functionName address => exact maintains_get_bind (maintains_pure hm _)
  | depth => exact maintains_get_bind (maintains_pure hm _)
  | currentName => exact maintains_get_bind (maintains_ofOutcome hm _)
  | lookup name => exact maintains_get_bind (maintains_ofOutcome hm _)
  | _ => nomatch heffect

/-- What opens no scope, closes none and does not collect is conserved if evaluating is. -/
theorem Machine.ConservesSteps.maintains_perform (hrel : ConservesSteps allowed rel)
    (heval : evaluator.Respects rel)
    (heffect : request.effect ∈ [.nothing, .assigns, .binds]) (hm : rel m₀ m) :
    (request.perform evaluator).Maintains m (rel m₀) := by
  cases request with
  | eval expr => exact heval.eval expr hm
  | evalTail expr => exact heval.evalTail expr hm
  | assign name value => exact maintains_lift (hrel.assign name value hm)
  | define name value => exact maintains_lift (hrel.define name value hm)
  | defineFunction name parameters body =>
      exact maintains_lift (hrel.maintains_defineFunction name parameters body m hm)
  | pushRecord name kind => simp [HostRequest.effect] at heffect
  | popRecord id => simp [HostRequest.effect] at heffect
  | unwindTo depth => simp [HostRequest.effect] at heffect
  | collect roots => simp [HostRequest.effect] at heffect
  | _ => exact hrel.toFrames.maintains_perform heval.toRespectsCalls rfl hm

/-- A routine that asks only for what conserves a relation does so itself. -/
theorem HostRoutine.respects_of_asks {kind : HostRequest → Prop} (hroutine : routine.Asks kind)
    (hkind : ∀ request, kind request → ∀ {evaluator : Evaluator}, evaluator.Respects rel →
      ∀ {m₀ m}, rel m₀ m → (request.perform evaluator).Maintains m (rel m₀)) :
    routine.Respects rel := by
  intro evaluator heval m₀ m name arguments hm
  exact (hroutine name arguments).maintains_run
    (fun request hrequest _ hm => hkind request hrequest heval hm) hm

theorem HostRoutine.respectsCalls_of_asks {kind : HostRequest → Prop} (hroutine : routine.Asks kind)
    (hkind : ∀ request, kind request → ∀ {evaluator : Evaluator}, evaluator.RespectsCalls rel →
      ∀ {m₀ m}, rel m₀ m → (request.perform evaluator).Maintains m (rel m₀)) :
    routine.RespectsCalls rel := by
  intro evaluator hcalls m₀ m name arguments hm
  exact (hroutine name arguments).maintains_run
    (fun request hrequest _ hm => hkind request hrequest hcalls hm) hm

end Requests

/-! ## Evaluation -/

namespace Strategy

/-- Calls conserve a relation within a number of steps. -/
structure RespectsCalls (strategy : Strategy) (allowed : HostRoutine → Prop)
    (outer : Machine → Machine → Prop) (steps : Nat) : Prop where
  call : ∀ {m₀ m} callee arguments, outer m₀ m →
    (strategy.call steps callee arguments).Maintains m (outer m₀)
  callFunction : ∀ {m₀ m} address arguments, outer m₀ m →
    (strategy.callFunction steps address arguments).Maintains m (outer m₀)
  tailCall : ∀ {m₀ m} callee arguments, outer m₀ m →
    (strategy.tailCall steps callee arguments).Maintains m (outer m₀)
  drive : ∀ {m₀ m} repeated address arguments, outer m₀ m →
    (strategy.drive steps repeated address arguments).Maintains m (outer m₀)
  invoke : ∀ {m₀ m} address arguments, outer m₀ m →
    (strategy.invoke steps address arguments).Maintains m (outer m₀)
  callHost : ∀ {m₀ m} name routine arguments, allowed routine → outer m₀ m →
    (strategy.callHost steps name routine arguments).Maintains m (outer m₀)

/-- The evaluator conserves a relation within a number of steps. -/
structure Respects (strategy : Strategy) (allowed : HostRoutine → Prop)
    (rel : Machine → Machine → Prop) (steps : Nat) : Prop
    extends RespectsCalls strategy allowed rel steps where
  eval : ∀ {m₀ m} expr, rel m₀ m → (strategy.eval steps expr).Maintains m (rel m₀)
  evalTail : ∀ {m₀ m} expr, rel m₀ m → (strategy.evalTail steps expr).Maintains m (rel m₀)
  evalBlock : ∀ {m₀ m} last body, rel m₀ m →
    (strategy.evalBlock steps last body).Maintains m (rel m₀)
  evalTailBlock : ∀ {m₀ m} body, rel m₀ m → (strategy.evalTailBlock steps body).Maintains m (rel m₀)
  evalList : ∀ {m₀ m} exprs, rel m₀ m → (strategy.evalList steps exprs).Maintains m (rel m₀)
  evalPairs : ∀ {m₀ m} pairs, rel m₀ m → (strategy.evalPairs steps pairs).Maintains m (rel m₀)
  evalNamed : ∀ {m₀ m} named, rel m₀ m → (strategy.evalNamed steps named).Maintains m (rel m₀)
  evalArguments : ∀ {m₀ m} positional named, rel m₀ m →
    (strategy.evalArguments steps positional named).Maintains m (rel m₀)
  evalParameters : ∀ {m₀ m} declared parameters, rel m₀ m →
    (strategy.evalParameters steps declared parameters).Maintains m (rel m₀)

variable {strategy : Strategy}

theorem respectsCalls_zero : strategy.RespectsCalls allowed outer 0 where
  call _ _ _ := maintains_outOfSteps
  callFunction _ _ _ := maintains_outOfSteps
  tailCall _ _ _ := maintains_outOfSteps
  drive _ _ _ _ := maintains_outOfSteps
  invoke _ _ _ := maintains_outOfSteps
  callHost _ _ _ _ _ := maintains_outOfSteps

theorem respects_zero : strategy.Respects allowed rel 0 where
  toRespectsCalls := respectsCalls_zero
  eval _ _ := maintains_outOfSteps
  evalTail _ _ := maintains_outOfSteps
  evalBlock _ _ _ := maintains_outOfSteps
  evalTailBlock _ _ := maintains_outOfSteps
  evalList _ _ := maintains_outOfSteps
  evalPairs _ _ := maintains_outOfSteps
  evalNamed _ _ := maintains_outOfSteps
  evalArguments _ _ _ := maintains_outOfSteps
  evalParameters _ _ _ := maintains_outOfSteps

variable {steps : Nat}

theorem maintains_readAttribute (hframes : Frames allowed inner outer) (hm : outer m₀ m)
    (value : Value) (name : String) : (strategy.readAttribute value name).Maintains m (outer m₀) :=
  maintains_watch_bind (hframes.onHeap hm (Heap.maintains_getAttribute value name))

/-! ### Sequences of expressions -/

theorem Respects.evalBlock_succ (ih : strategy.Respects allowed rel steps) (hm : rel m₀ m)
    (last : Value) (body : List Expr) :
    (strategy.evalBlock (steps + 1) last body).Maintains m (rel m₀) := by
  cases body with
  | nil =>
      rw [Strategy.evalBlock]
      exact maintains_pure hm last
  | cons expr rest =>
      rw [Strategy.evalBlock]
      exact (ih.eval expr hm).bind fun value m hm => ih.evalBlock value rest hm

theorem Respects.evalTailBlock_succ (ih : strategy.Respects allowed rel steps) (hm : rel m₀ m)
    (body : List Expr) : (strategy.evalTailBlock (steps + 1) body).Maintains m (rel m₀) := by
  match body with
  | [] =>
      rw [Strategy.evalTailBlock]
      exact maintains_pure hm _
  | [last] =>
      rw [Strategy.evalTailBlock]
      exact ih.evalTail last hm
  | expr :: next :: rest =>
      rw [Strategy.evalTailBlock]
      · exact (ih.eval expr hm).discard.bind fun _ m hm => ih.evalTailBlock (next :: rest) hm
      · simp

theorem Respects.evalList_succ (ih : strategy.Respects allowed rel steps) (hm : rel m₀ m)
    (exprs : List Expr) : (strategy.evalList (steps + 1) exprs).Maintains m (rel m₀) := by
  cases exprs with
  | nil =>
      rw [Strategy.evalList]
      exact maintains_pure hm []
  | cons expr rest =>
      rw [Strategy.evalList]
      refine (ih.eval expr hm).bind fun value m hm => ?_
      exact (ih.evalList rest hm).bind fun values m hm => maintains_pure hm _

theorem Respects.evalPairs_succ (ih : strategy.Respects allowed rel steps) (hm : rel m₀ m)
    (pairs : List (Expr × Expr)) :
    (strategy.evalPairs (steps + 1) pairs).Maintains m (rel m₀) := by
  match pairs with
  | [] =>
      rw [Strategy.evalPairs]
      exact maintains_pure hm []
  | (key, value) :: rest =>
      rw [Strategy.evalPairs]
      refine (ih.eval key hm).bind fun key m hm => ?_
      refine (ih.eval value hm).bind fun value m hm => ?_
      exact (ih.evalPairs rest hm).bind fun entries m hm => maintains_pure hm _

theorem Respects.evalNamed_succ (ih : strategy.Respects allowed rel steps) (hm : rel m₀ m)
    (named : List (String × Expr)) :
    (strategy.evalNamed (steps + 1) named).Maintains m (rel m₀) := by
  match named with
  | [] =>
      rw [Strategy.evalNamed]
      exact maintains_pure hm []
  | (name, expr) :: rest =>
      rw [Strategy.evalNamed]
      refine (ih.eval expr hm).bind fun value m hm => ?_
      exact (ih.evalNamed rest hm).bind fun entries m hm => maintains_pure hm _

theorem Respects.evalArguments_succ (ih : strategy.Respects allowed rel steps) (hm : rel m₀ m)
    (positional : List Expr) (named : List (String × Expr)) :
    (strategy.evalArguments (steps + 1) positional named).Maintains m (rel m₀) := by
  rw [Strategy.evalArguments]
  refine (ih.evalList positional hm).bind fun values m hm => ?_
  exact (ih.evalNamed named hm).bind fun entries m hm => maintains_pure hm _

theorem Respects.evalParameters_succ (ih : strategy.Respects allowed rel steps) (hm : rel m₀ m)
    (declared : Parameters) (parameters : List (String × Option Expr)) :
    (strategy.evalParameters (steps + 1) declared parameters).Maintains m (rel m₀) := by
  match parameters with
  | [] =>
      rw [Strategy.evalParameters]
      exact maintains_pure hm declared
  | (name, none) :: rest =>
      rw [Strategy.evalParameters]
      exact ih.evalParameters _ rest hm
  | (name, some default) :: rest =>
      rw [Strategy.evalParameters]
      exact (ih.eval default hm).bind fun value m hm => ih.evalParameters _ rest hm

/-! ### Calls -/

theorem RespectsCalls.call_succ (ih : strategy.RespectsCalls allowed outer steps)
    (hframes : Frames allowed inner outer) (hm : outer m₀ m) (callee : Value)
    (arguments : Arguments) :
    (strategy.call (steps + 1) callee arguments).Maintains m (outer m₀) := by
  cases callee with
  | function address =>
      rw [Strategy.call]
      exact ih.callFunction address arguments hm
  | module address =>
      rw [Strategy.call]
      exact hframes.onHeap hm (Heap.maintains_instantiate address arguments)
  | _ =>
      rw [Strategy.call] <;> first | exact maintains_throw hm _ | exact nofun

theorem RespectsCalls.callFunction_succ (ih : strategy.RespectsCalls allowed outer steps)
    (hframes : Frames allowed inner outer) (hm : outer m₀ m) (address : Address)
    (arguments : Arguments) :
    (strategy.callFunction (steps + 1) address arguments).Maintains m (outer m₀) := by
  rw [Strategy.callFunction]
  refine maintains_get_bind ?_
  cases hcallable : (m.heap.function address).callable with
  | listMethod method receiver =>
      simp only [hcallable]
      exact hframes.onHeap hm (method.maintains_call receiver arguments)
  | dictMethod method receiver =>
      simp only [hcallable]
      exact hframes.onHeap hm (method.maintains_call receiver arguments)
  | host routine =>
      simp only [hcallable]
      exact ih.callHost _ routine arguments (hframes.permits hm address routine hcallable) hm
  | closure scope body =>
      simp only [hcallable]
      exact ih.drive false address arguments hm

theorem RespectsCalls.tailCall_succ (ih : strategy.RespectsCalls allowed outer steps)
    (hm : outer m₀ m) (callee : Value) (arguments : Arguments) :
    (strategy.tailCall (steps + 1) callee arguments).Maintains m (outer m₀) := by
  have hfull : (do return .value (← strategy.call steps callee arguments) :
      Run Completion).Maintains m (outer m₀) :=
    (ih.call callee arguments hm).bind fun value m hm => maintains_pure hm _
  cases callee with
  | function address =>
      rw [Strategy.tailCall]
      refine maintains_get_bind ?_
      dsimp only
      split
      · exact hfull
      · refine maintains_get_bind (maintains_ofOutcome_bind hm _ fun running => ?_)
        split
        · exact maintains_pure hm _
        · exact hfull
  | _ => rw [Strategy.tailCall] <;> first | exact hfull | exact nofun

theorem RespectsCalls.drive_succ (ih : strategy.RespectsCalls allowed outer steps)
    (hframes : Frames allowed inner outer) (hm : outer m₀ m) (repeated : Bool) (address : Address)
    (arguments : Arguments) :
    (strategy.drive (steps + 1) repeated address arguments).Maintains m (outer m₀) := by
  rw [Strategy.drive]
  refine (ih.invoke address arguments hm).bind fun completion m hm => ?_
  cases completion with
  | value value =>
      dsimp only
      split
      · exact (maintains_lift (hframes.maintains_markOptimized address m hm)).bind fun _ m hm =>
          maintains_pure hm value
      · exact maintains_pure hm value
  | deferred next arguments => exact ih.drive true next arguments hm

theorem RespectsCalls.invoke_succ (ih : strategy.RespectsCalls allowed outer steps)
    (hframes : Frames allowed inner outer)
    (hbody : ∀ {m₀ m} body, inner m₀ m → (strategy.evalTail steps body).Maintains m (inner m₀))
    (hm : outer m₀ m) (address : Address) (arguments : Arguments) :
    (strategy.invoke (steps + 1) address arguments).Maintains m (outer m₀) := by
  rw [Strategy.invoke]
  refine maintains_get_bind ?_
  cases hcallable : (m.heap.function address).callable with
  | closure scope body =>
      simp only [hcallable]
      refine maintains_ofOutcome_bind hm _ fun bound => ?_
      refine maintains_lift_bind_ok (depth_on m) (maintains_watch_bind ?_)
      -- The scope either does not open, and then that is the error of the call, or the body is
      -- evaluated in it and it is closed.
      rcases hopen : openRecord (.fresh (m.heap.function address).name .function)
        (setUpCall scope bound) m with ⟨err | id, opened⟩
      · have hcall : openFunctionRecord (m.heap.function address).name scope bound m =
            (.error err, opened) := by rw [openFunctionRecord, Attempt.discard_on, hopen]
        exact maintains_lift_bind_error hcall (hframes.fails hm hopen)
      · have hcall : openFunctionRecord (m.heap.function address).name scope bound m =
            (.ok (), opened) := by rw [openFunctionRecord, Attempt.discard_on, hopen]
        refine maintains_lift_bind_ok hcall ?_
        exact hframes.inScope hm hopen (hbody body (hframes.opens hm hopen)) (.inl rfl)
  | _ =>
      simp only [hcallable]
      exact (ih.callFunction address arguments hm).bind fun value m hm => maintains_pure hm _

theorem RespectsCalls.evaluator (hcalls : strategy.RespectsCalls allowed outer steps) :
    (strategy.evaluator steps).RespectsCalls outer where
  call callee arguments hm := hcalls.call callee arguments hm
  tailCall callee arguments hm := hcalls.tailCall callee arguments hm

theorem Respects.evaluator (hrun : strategy.Respects allowed rel steps) :
    (strategy.evaluator steps).Respects rel where
  toRespectsCalls := hrun.toRespectsCalls.evaluator
  eval expr hm := hrun.eval expr hm
  evalTail expr hm := hrun.evalTail expr hm

/-- With one more step calls conserve a relation if the bodies of functions conserve the one within
the scopes that the calls open, and if the routines do with the steps that there are. -/
theorem RespectsCalls.succ (ih : strategy.RespectsCalls allowed outer steps)
    (hframes : Frames allowed inner outer)
    (hbody : ∀ {m₀ m} body, inner m₀ m → (strategy.evalTail steps body).Maintains m (inner m₀))
    (hhost : ∀ {m₀ m} name routine arguments, allowed routine → outer m₀ m →
      ((routine.program name arguments).run (strategy.evaluator steps)).Maintains m (outer m₀)) :
    strategy.RespectsCalls allowed outer (steps + 1) where
  call callee arguments hm := ih.call_succ hframes hm callee arguments
  callFunction address arguments hm := ih.callFunction_succ hframes hm address arguments
  tailCall callee arguments hm := ih.tailCall_succ hm callee arguments
  drive repeated address arguments hm := ih.drive_succ hframes hm repeated address arguments
  invoke address arguments hm := ih.invoke_succ hframes hbody hm address arguments
  callHost name routine arguments hroutine hm := by
    rw [callHost_succ]
    exact hhost name routine arguments hroutine hm

/-! ### Expressions -/

/-- What a handler does in a scope of its own conserves the relation within it. -/
theorem maintains_handler (hframes : Frames allowed inner outer) (hm : outer m₀ m)
    {run : Run Value}
    (hrun : ∀ {opened}, inner opened opened → run.Maintains opened (inner opened)) :
    Run.Maintains (do
      strategy.watch (·.stack.isFull)
      let record ← pushRecord handlerName .handler
      let outcome ← outcomeOf run
      popRecord record
      ofOutcome outcome) m (outer m₀) := by
  refine maintains_watch_bind ?_
  rcases hopen : pushRecord handlerName .handler m with ⟨failure | id, opened⟩
  · refine maintains_lift_bind_error hopen ?_
    rw [pushRecord_eq] at hopen
    exact hframes.fails hm hopen
  · refine maintains_lift_bind_ok hopen ?_
    rw [pushRecord_eq] at hopen
    exact hframes.inScope hm hopen (hrun (hframes.opens hm hopen)) (.inr rfl)

theorem Respects.handle_succ (ih : strategy.Respects allowed rel steps)
    (hrel : Conserves allowed rel) (hm : rel m₀ m) (body : Expr) (binding : String)
    (handler : Expr) :
    (strategy.eval (steps + 1) (.handle body binding handler)).Maintains m (rel m₀) := by
  rw [Strategy.eval]
  refine maintains_lift_bind_ok (depth_on m) ?_
  refine (ih.eval body hm).outcomeOf.bind fun outcome m' hm' => ?_
  cases outcome with
  | ok value => exact maintains_pure hm' value
  | error err =>
      dsimp only
      split
      · exact maintains_throw hm' err
      · refine (maintains_lift (hrel.rewinds hm hm')).bind fun _ m hm => ?_
        exact maintains_handler hrel.toFrames hm fun hopened =>
          (maintains_lift (hrel.define binding (.ofError err) hopened)).bind fun _ m hm =>
            ih.eval handler hm

theorem Respects.binary_succ (ih : strategy.Respects allowed rel steps)
    (hrel : Conserves allowed rel) (hm : rel m₀ m) (operator : BinaryOperator)
    (left right : Expr) :
    (strategy.eval (steps + 1) (.binary operator left right)).Maintains m (rel m₀) := by
  have htruth : ∀ m, rel m₀ m → (do
      let right ← strategy.eval steps right
      return .boolean ((← get).heap.isTruthy right) : Run Value).Maintains m (rel m₀) :=
    fun m hm => (ih.eval right hm).bind fun right m hm =>
      maintains_get_bind (maintains_pure hm _)
  -- The two logical operators look at their left operand before they evaluate the right one.
  by_cases hand : operator = .and
  · subst operator
    rw [Strategy.eval]
    refine (ih.eval left hm).bind fun left m hm => maintains_get_bind ?_
    split
    · exact htruth m hm
    · exact maintains_pure hm _
  by_cases hor : operator = .or
  · subst operator
    rw [Strategy.eval]
    refine (ih.eval left hm).bind fun left m hm => maintains_get_bind ?_
    split
    · exact maintains_pure hm _
    · exact htruth m hm
  rw [Strategy.eval]
  · refine (ih.eval left hm).bind fun left m hm => (ih.eval right hm).bind fun right m hm => ?_
    exact hrel.onHeap hm (Heap.maintains_applyBinary operator left right)
  · exact hand
  · exact hor

section Forms

variable (ih : strategy.Respects allowed rel steps) (hrel : Conserves allowed rel) (hm : rel m₀ m)

include ih hrel hm

theorem Respects.assign_succ (name : String) (value : Expr) :
    (strategy.eval (steps + 1) (.assign name value)).Maintains m (rel m₀) := by
  rw [Strategy.eval]
  refine (ih.eval value hm).bind fun value m hm => ?_
  exact (maintains_lift (hrel.assign name value hm)).bind fun _ m hm => maintains_pure hm value

theorem Respects.define_succ (name : String) (value : Expr) :
    (strategy.eval (steps + 1) (.define name value)).Maintains m (rel m₀) := by
  rw [Strategy.eval]
  refine (ih.eval value hm).bind fun value m hm => ?_
  exact (maintains_lift (hrel.define name value hm)).bind fun _ m hm => maintains_pure hm value

theorem Respects.function_succ (name : String) (parameters : List (String × Option Expr))
    (body : Expr) (doc : Option String) :
    (strategy.eval (steps + 1) (.function name parameters body doc)).Maintains m (rel m₀) := by
  rw [Strategy.eval]
  refine (ih.evalParameters .empty parameters hm).bind fun declared m hm => ?_
  refine (maintains_lift (hrel.maintains_defineFunction name declared body m hm)).bind
    fun function m hm => ?_
  cases doc with
  | none => exact maintains_pure hm function
  | some text =>
      exact (hrel.onHeap hm (Heap.maintains_setDoc function text)).bind fun _ m hm =>
        maintains_pure hm function

theorem Respects.setAttribute_succ (object : Expr) (name : String) (value : Expr) :
    (strategy.eval (steps + 1) (.setAttribute object name value)).Maintains m (rel m₀) := by
  rw [Strategy.eval]
  refine (ih.eval object hm).bind fun object m hm => ?_
  refine (ih.eval value hm).bind fun value m hm => ?_
  exact (hrel.onHeap hm (Heap.maintains_setAttribute object name value)).bind fun _ m hm =>
    maintains_pure hm value

theorem Respects.callMethod_succ (receiver : Expr) (name : String) (positional : List Expr)
    (named : List (String × Expr)) :
    (strategy.eval (steps + 1) (.callMethod receiver name positional named)).Maintains m
      (rel m₀) := by
  rw [Strategy.eval]
  refine (ih.eval receiver hm).bind fun receiver m hm => ?_
  refine (ih.evalArguments positional named hm).bind fun arguments m hm => ?_
  exact (maintains_readAttribute hrel.toFrames hm receiver name).bind fun method m hm =>
    ih.call method arguments hm

end Forms

theorem Respects.conditional_succ (ih : strategy.Respects allowed rel steps) (hm : rel m₀ m)
    (condition consequence : Expr) (alternative : Option Expr) :
    (strategy.eval (steps + 1) (.conditional condition consequence alternative)).Maintains m
      (rel m₀) := by
  rw [Strategy.eval]
  refine (ih.eval condition hm).bind fun value m hm => maintains_get_bind ?_
  split
  · exact ih.eval consequence hm
  · cases alternative with
    | some other => exact ih.eval other hm
    | none => exact maintains_pure hm _

theorem Respects.callExpr_succ (ih : strategy.Respects allowed rel steps) (hm : rel m₀ m)
    (callee : Expr) (positional : List Expr) (named : List (String × Expr)) :
    (strategy.eval (steps + 1) (.call callee positional named)).Maintains m (rel m₀) := by
  rw [Strategy.eval]
  refine (ih.eval callee hm).bind fun callee m hm => ?_
  exact (ih.evalArguments positional named hm).bind fun arguments m hm =>
    ih.call callee arguments hm

theorem Respects.eval_succ (ih : strategy.Respects allowed rel steps)
    (hrel : Conserves allowed rel) (hm : rel m₀ m) (expr : Expr) :
    (strategy.eval (steps + 1) expr).Maintains m (rel m₀) := by
  cases expr with
  | literal value =>
      rw [Strategy.eval]
      exact maintains_pure hm value
  | name name =>
      rw [Strategy.eval]
      exact maintains_get_bind (maintains_ofOutcome hm _)
  | assign name value => exact ih.assign_succ hrel hm name value
  | define name value => exact ih.define_succ hrel hm name value
  | unary operator operand =>
      rw [Strategy.eval]
      refine (ih.eval operand hm).bind fun value m hm => ?_
      exact maintains_get_bind (maintains_ofOutcome hm _)
  | binary operator left right => exact ih.binary_succ hrel hm operator left right
  | conditional condition consequence alternative =>
      exact ih.conditional_succ hm condition consequence alternative
  | block body =>
      rw [Strategy.eval]
      exact ih.evalBlock .null body hm
  | list items =>
      rw [Strategy.eval]
      exact (ih.evalList items hm).bind fun values m hm =>
        hrel.onHeap hm (Heap.maintains_makeList values)
  | dict entries =>
      rw [Strategy.eval]
      exact (ih.evalPairs entries hm).bind fun values m hm =>
        hrel.onHeap hm (Heap.maintains_dictOf values)
  | function name parameters body doc => exact ih.function_succ hrel hm name parameters body doc
  | call callee positional named => exact ih.callExpr_succ hm callee positional named
  | getAttribute object name =>
      rw [Strategy.eval]
      exact (ih.eval object hm).bind fun object m hm =>
        maintains_readAttribute hrel.toFrames hm object name
  | setAttribute object name value => exact ih.setAttribute_succ hrel hm object name value
  | callMethod receiver name positional named =>
      exact ih.callMethod_succ hrel hm receiver name positional named
  | raise label message =>
      rw [Strategy.eval]
      refine (ih.eval message hm).bind fun message m hm => ?_
      exact maintains_watch_bind (maintains_get_bind (maintains_throw hm _))
  | handle body binding handler => exact ih.handle_succ hrel hm body binding handler

theorem Respects.evalTail_succ (ih : strategy.Respects allowed rel steps)
    (hrel : Conserves allowed rel) (hm : rel m₀ m) (expr : Expr) :
    (strategy.evalTail (steps + 1) expr).Maintains m (rel m₀) := by
  have hother : (do return .value (← strategy.eval steps expr) : Run Completion).Maintains m
      (rel m₀) := (ih.eval expr hm).bind fun value m hm => maintains_pure hm _
  cases expr with
  | call callee positional named =>
      rw [Strategy.evalTail]
      refine (ih.eval callee hm).bind fun callee m hm => ?_
      exact (ih.evalArguments positional named hm).bind fun arguments m hm =>
        ih.tailCall callee arguments hm
  | callMethod receiver name positional named =>
      rw [Strategy.evalTail]
      refine (ih.eval receiver hm).bind fun receiver m hm => ?_
      refine (ih.evalArguments positional named hm).bind fun arguments m hm => ?_
      exact (maintains_readAttribute hrel.toFrames hm receiver name).bind fun method m hm =>
        ih.tailCall method arguments hm
  | conditional condition consequence alternative =>
      rw [Strategy.evalTail]
      refine (ih.eval condition hm).bind fun value m hm => maintains_get_bind ?_
      split
      · exact ih.evalTail consequence hm
      · cases alternative with
        | some other => exact ih.evalTail other hm
        | none => exact maintains_pure hm _
  | block body =>
      rw [Strategy.evalTail]
      exact ih.evalTailBlock body hm
  | _ =>
      rw [Strategy.evalTail]
      · exact hother
      all_goals simp

/-- However many steps are given, evaluating conserves what its steps conserve. -/
theorem respects (hrel : Conserves allowed rel) (strategy : Strategy) (steps : Nat) :
    strategy.Respects allowed rel steps := by
  induction steps with
  | zero => exact respects_zero
  | succ steps ih =>
      exact {
        -- A routine is run by the evaluator with the steps that are left, about which `ih` speaks.
        toRespectsCalls := ih.toRespectsCalls.succ hrel.toFrames ih.evalTail
          fun name _ arguments hroutine hm => hrel.host hroutine ih.evaluator name arguments hm
        eval := fun expr hm => ih.eval_succ hrel hm expr
        evalTail := fun expr hm => ih.evalTail_succ hrel hm expr
        evalBlock := fun last body hm => ih.evalBlock_succ hm last body
        evalTailBlock := fun body hm => ih.evalTailBlock_succ hm body
        evalList := fun exprs hm => ih.evalList_succ hm exprs
        evalPairs := fun pairs hm => ih.evalPairs_succ hm pairs
        evalNamed := fun named hm => ih.evalNamed_succ hm named
        evalArguments := fun positional named hm => ih.evalArguments_succ hm positional named
        evalParameters := fun declared parameters hm =>
          ih.evalParameters_succ hm declared parameters }

/-- Calls conserve a relation if the steps of an evaluation conserve another one within the scopes
that the calls open, and if the routines conserve it as far as calls do. -/
theorem respectsCalls (hframes : Frames allowed inner outer) (hinner : Conserves allowed inner)
    (hhost : ∀ {routine : HostRoutine}, allowed routine → routine.RespectsCalls outer)
    (strategy : Strategy) (steps : Nat) : strategy.RespectsCalls allowed outer steps := by
  induction steps with
  | zero => exact respectsCalls_zero
  | succ steps ih =>
      exact ih.succ hframes (respects hinner strategy steps).evalTail
        fun name _ arguments hroutine hm => hhost hroutine ih.evaluator name arguments hm

theorem maintains_callMethod (hrel : Conserves allowed rel) (hm : rel m₀ m) (receiver : Value)
    (name : String) (arguments : Arguments) (steps : Nat) :
    (strategy.callMethod steps receiver name arguments).Maintains m (rel m₀) :=
  (maintains_readAttribute hrel.toFrames hm receiver name).bind fun method _ hm =>
    (respects hrel strategy steps).call method arguments hm

/-- Running a program conserves what its steps conserve if collecting does, too. -/
theorem maintains_runFrom (hrel : Conserves allowed rel)
    (hcollect : ∀ {m₀ m} roots, rel m₀ m → rel m₀ (collect roots m).2) (hm : rel m₀ m)
    (last : Value) (program : List Expr) (steps : Nat) :
    (strategy.runFrom steps last program).Maintains m (rel m₀) := by
  induction program generalizing m last with
  | nil => exact maintains_pure hm last
  | cons expr rest ih =>
      refine ((respects hrel strategy steps).eval expr hm).bind fun value m hm => ?_
      have hcollected := maintains_lift (hcollect [value] hm)
      exact (hcollected.discard).bind fun _ m hm => ih hm value

end Strategy

end ScriptCore
