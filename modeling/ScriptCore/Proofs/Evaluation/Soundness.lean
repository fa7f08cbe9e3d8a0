import ScriptCore.Proofs.Machine.Stack
import ScriptCore.Proofs.Run

/-!
# Evaluation keeps machines sound

Evaluating a fit expression on a sound machine leaves a sound machine with the same scopes open and
every live record still there, and gives a usable value or an error that is not internal, whatever
the strategy.

The proof is one induction on the number of steps over all functions of the evaluator at once.
`Strategy.Preserves` collects what is claimed of them for a number of steps, and there is a lemma
for each function that goes from one number of steps to the next.

That the same scopes are open afterwards is needed on the way: an expression may close no scope
under another one that is being evaluated.  A machine that is sound *later* (`Later`) carries this
along, so that after any part of an expression the next part starts from a machine of the same kind.

Of the routines of the host a sound heap has only the one that counts its arguments.  Others could
close the very scope that is being evaluated in, and what becomes of the stack then is the subject
of `ScriptCore.Proofs.Evaluation.Discipline`.
-/

namespace ScriptCore

open Machine Run

variable {usable : Value → Prop}

/-- A value to end with is usable, and so are the function and the arguments of a call that is still
to be made. -/
def Completion.Fit (usable : Value → Prop) : Completion → Prop
  | .value result => usable result
  | .deferred function arguments => usable (.function function) ∧ arguments.Fit usable

namespace Strategy

/-- What the evaluator keeps within a number of steps. -/
structure Preserves (strategy : Strategy) (usable : Value → Prop) (steps : Nat) : Prop where
  eval : ∀ {m₀ m expr}, Later usable m₀ m → expr.Fit usable →
    (strategy.eval steps expr).Keeps m (Later usable m₀) usable
  evalTail : ∀ {m₀ m expr}, Later usable m₀ m → expr.Fit usable →
    (strategy.evalTail steps expr).Keeps m (Later usable m₀) (Completion.Fit usable)
  evalBlock : ∀ {m₀ m last body}, Later usable m₀ m → usable last →
    (∀ expr ∈ body, expr.Fit usable) →
    (strategy.evalBlock steps last body).Keeps m (Later usable m₀) usable
  evalTailBlock : ∀ {m₀ m body}, Later usable m₀ m → (∀ expr ∈ body, expr.Fit usable) →
    (strategy.evalTailBlock steps body).Keeps m (Later usable m₀) (Completion.Fit usable)
  evalList : ∀ {m₀ m exprs}, Later usable m₀ m → (∀ expr ∈ exprs, expr.Fit usable) →
    (strategy.evalList steps exprs).Keeps m (Later usable m₀) fun values =>
      ∀ value ∈ values, usable value
  evalPairs : ∀ {m₀ m pairs}, Later usable m₀ m →
    (∀ pair ∈ pairs, pair.1.Fit usable ∧ pair.2.Fit usable) →
    (strategy.evalPairs steps pairs).Keeps m (Later usable m₀) fun entries =>
      ∀ entry ∈ entries, usable entry.1 ∧ usable entry.2
  evalNamed : ∀ {m₀ m named}, Later usable m₀ m → (∀ entry ∈ named, entry.2.Fit usable) →
    (strategy.evalNamed steps named).Keeps m (Later usable m₀) fun entries =>
      ∀ entry ∈ entries, usable entry.2
  evalArguments : ∀ {m₀ m positional named}, Later usable m₀ m →
    (∀ expr ∈ positional, expr.Fit usable) → (∀ entry ∈ named, entry.2.Fit usable) →
    (strategy.evalArguments steps positional named).Keeps m (Later usable m₀) (Arguments.Fit usable)
  evalParameters : ∀ {m₀ m declared parameters}, Later usable m₀ m → declared.Fit usable →
    (∀ parameter ∈ parameters, ∀ default, parameter.2 = some default → default.Fit usable) →
    (strategy.evalParameters steps declared parameters).Keeps m (Later usable m₀)
      (Parameters.Fit usable)
  call : ∀ {m₀ m callee arguments}, Later usable m₀ m → usable callee → arguments.Fit usable →
    (strategy.call steps callee arguments).Keeps m (Later usable m₀) usable
  callFunction : ∀ {m₀ m address arguments}, Later usable m₀ m → usable (.function address) →
    arguments.Fit usable →
    (strategy.callFunction steps address arguments).Keeps m (Later usable m₀) usable
  tailCall : ∀ {m₀ m callee arguments}, Later usable m₀ m → usable callee → arguments.Fit usable →
    (strategy.tailCall steps callee arguments).Keeps m (Later usable m₀) (Completion.Fit usable)
  drive : ∀ {m₀ m repeated address arguments}, Later usable m₀ m → usable (.function address) →
    arguments.Fit usable →
    (strategy.drive steps repeated address arguments).Keeps m (Later usable m₀) usable
  invoke : ∀ {m₀ m address arguments}, Later usable m₀ m → usable (.function address) →
    arguments.Fit usable →
    (strategy.invoke steps address arguments).Keeps m (Later usable m₀) (Completion.Fit usable)
  callHost : ∀ {m₀ m name arguments}, Later usable m₀ m →
    (strategy.callHost steps name .count arguments).Keeps m (Later usable m₀) usable

variable {strategy : Strategy} {m₀ m : Machine}

theorem preserves_zero : strategy.Preserves usable 0 where
  eval _ _ := keeps_outOfSteps
  evalTail _ _ := keeps_outOfSteps
  evalBlock _ _ _ := keeps_outOfSteps
  evalTailBlock _ _ := keeps_outOfSteps
  evalList _ _ := keeps_outOfSteps
  evalPairs _ _ := keeps_outOfSteps
  evalNamed _ _ := keeps_outOfSteps
  evalArguments _ _ _ := keeps_outOfSteps
  evalParameters _ _ _ := keeps_outOfSteps
  call _ _ _ := keeps_outOfSteps
  callFunction _ _ _ := keeps_outOfSteps
  tailCall _ _ _ := keeps_outOfSteps
  drive _ _ _ := keeps_outOfSteps
  invoke _ _ _ := keeps_outOfSteps
  callHost _ := keeps_outOfSteps

theorem usable_null (hm : Later usable m₀ m) : usable .null :=
  hm.sound.heap.unmade _ not_false

theorem usable_boolean (hm : Later usable m₀ m) (truth : Bool) : usable (.boolean truth) :=
  hm.sound.heap.unmade _ not_false

theorem keeps_readAttribute (hm : Later usable m₀ m) {value : Value} (hvalue : usable value)
    (name : String) :
    (strategy.readAttribute value name).Keeps m (Later usable m₀) usable := by
  refine keeps_watch_bind ?_
  exact keeps_lift hm (keeps_onHeap fun _ => Heap.keeps_getAttribute hvalue name)

variable {steps : Nat}

/-! ## Sequences of expressions -/

theorem Preserves.evalBlock_succ (ih : strategy.Preserves usable steps) (hm : Later usable m₀ m)
    {last : Value} (hlast : usable last) {body : List Expr}
    (hbody : ∀ expr ∈ body, expr.Fit usable) :
    (strategy.evalBlock (steps + 1) last body).Keeps m (Later usable m₀) usable := by
  cases body with
  | nil =>
      rw [Strategy.evalBlock]
      exact keeps_pure hm hlast
  | cons expr rest =>
      rw [Strategy.evalBlock]
      obtain ⟨hexpr, hrest⟩ := List.forall_mem_cons.1 hbody
      exact (ih.eval hm hexpr).bind fun value m hm hvalue => ih.evalBlock hm hvalue hrest

theorem Preserves.evalTailBlock_succ (ih : strategy.Preserves usable steps) (hm : Later usable m₀ m)
    {body : List Expr} (hbody : ∀ expr ∈ body, expr.Fit usable) :
    (strategy.evalTailBlock (steps + 1) body).Keeps m (Later usable m₀)
    (Completion.Fit usable) := by
  match body with
  | [] =>
      rw [Strategy.evalTailBlock]
      exact keeps_pure hm (usable_null hm)
  | [last] =>
      rw [Strategy.evalTailBlock]
      exact ih.evalTail hm (hbody last List.mem_cons_self)
  | expr :: next :: rest =>
      rw [Strategy.evalTailBlock]
      · obtain ⟨hexpr, hrest⟩ := List.forall_mem_cons.1 hbody
        exact (ih.eval hm hexpr).discard.bind fun _ m hm _ => ih.evalTailBlock hm hrest
      · simp

theorem Preserves.evalList_succ (ih : strategy.Preserves usable steps) (hm : Later usable m₀ m)
    {exprs : List Expr} (hexprs : ∀ expr ∈ exprs, expr.Fit usable) :
    (strategy.evalList (steps + 1) exprs).Keeps m (Later usable m₀) fun values =>
      ∀ value ∈ values, usable value := by
  cases exprs with
  | nil =>
      rw [Strategy.evalList]
      exact keeps_pure hm (by simp)
  | cons expr rest =>
      rw [Strategy.evalList]
      obtain ⟨hexpr, hrest⟩ := List.forall_mem_cons.1 hexprs
      refine (ih.eval hm hexpr).bind fun value m hm hvalue => ?_
      refine (ih.evalList hm hrest).bind fun values m hm hvalues => ?_
      exact keeps_pure hm (List.forall_mem_cons.2 ⟨hvalue, hvalues⟩)

theorem Preserves.evalPairs_succ (ih : strategy.Preserves usable steps) (hm : Later usable m₀ m)
    {pairs : List (Expr × Expr)} (hpairs : ∀ pair ∈ pairs, pair.1.Fit usable ∧ pair.2.Fit usable) :
    (strategy.evalPairs (steps + 1) pairs).Keeps m (Later usable m₀) fun entries =>
      ∀ entry ∈ entries, usable entry.1 ∧ usable entry.2 := by
  match pairs with
  | [] =>
      rw [Strategy.evalPairs]
      exact keeps_pure hm (by simp)
  | (key, value) :: rest =>
      rw [Strategy.evalPairs]
      obtain ⟨⟨hkey, hvalue⟩, hrest⟩ := List.forall_mem_cons.1 hpairs
      refine (ih.eval hm hkey).bind fun key m hm hkey => ?_
      refine (ih.eval hm hvalue).bind fun value m hm hvalue => ?_
      refine (ih.evalPairs hm hrest).bind fun entries m hm hentries => ?_
      exact keeps_pure hm (List.forall_mem_cons.2 ⟨⟨hkey, hvalue⟩, hentries⟩)

theorem Preserves.evalNamed_succ (ih : strategy.Preserves usable steps) (hm : Later usable m₀ m)
    {named : List (String × Expr)} (hnamed : ∀ entry ∈ named, entry.2.Fit usable) :
    (strategy.evalNamed (steps + 1) named).Keeps m (Later usable m₀) fun entries =>
      ∀ entry ∈ entries, usable entry.2 := by
  match named with
  | [] =>
      rw [Strategy.evalNamed]
      exact keeps_pure hm (by simp)
  | (name, expr) :: rest =>
      rw [Strategy.evalNamed]
      obtain ⟨hexpr, hrest⟩ := List.forall_mem_cons.1 hnamed
      refine (ih.eval hm hexpr).bind fun value m hm hvalue => ?_
      refine (ih.evalNamed hm hrest).bind fun entries m hm hentries => ?_
      exact keeps_pure hm (List.forall_mem_cons.2 ⟨hvalue, hentries⟩)

theorem Preserves.evalArguments_succ (ih : strategy.Preserves usable steps)
    (hm : Later usable m₀ m) {positional : List Expr} {named : List (String × Expr)}
    (hpositional : ∀ expr ∈ positional, expr.Fit usable)
    (hnamed : ∀ entry ∈ named, entry.2.Fit usable) :
    (strategy.evalArguments (steps + 1) positional named).Keeps m (Later usable m₀)
      (Arguments.Fit usable) := by
  rw [Strategy.evalArguments]
  refine (ih.evalList hm hpositional).bind fun values m hm hvalues => ?_
  refine (ih.evalNamed hm hnamed).bind fun entries m hm hentries => ?_
  exact keeps_pure hm ⟨hvalues, hentries⟩

theorem Preserves.evalParameters_succ (ih : strategy.Preserves usable steps)
    (hm : Later usable m₀ m) {declared : Parameters} (hdeclared : declared.Fit usable)
    {parameters : List (String × Option Expr)} (hparameters : ∀ parameter ∈ parameters,
      ∀ default, parameter.2 = some default → default.Fit usable) :
    (strategy.evalParameters (steps + 1) declared parameters).Keeps m (Later usable m₀)
      (Parameters.Fit usable) := by
  match parameters with
  | [] =>
      rw [Strategy.evalParameters]
      exact keeps_pure hm hdeclared
  | (name, none) :: rest =>
      rw [Strategy.evalParameters]
      obtain ⟨-, hrest⟩ := List.forall_mem_cons.1 hparameters
      exact ih.evalParameters hm (hdeclared.declare name nofun) hrest
  | (name, some default) :: rest =>
      rw [Strategy.evalParameters]
      obtain ⟨hdefault, hrest⟩ := List.forall_mem_cons.1 hparameters
      refine (ih.eval hm (hdefault default rfl)).bind fun value m hm hvalue => ?_
      refine ih.evalParameters hm (hdeclared.declare name fun found hfound => ?_) hrest
      exact ParameterDefault.value.inj hfound ▸ hvalue

/-! ## Calls -/

theorem Preserves.call_succ (ih : strategy.Preserves usable steps) (hm : Later usable m₀ m)
    {callee : Value} (hcallee : usable callee) {arguments : Arguments}
    (hfit : arguments.Fit usable) :
    (strategy.call (steps + 1) callee arguments).Keeps m (Later usable m₀) usable := by
  cases callee with
  | function address =>
      rw [Strategy.call]
      exact ih.callFunction hm hcallee hfit
  | module address =>
      rw [Strategy.call]
      exact keeps_lift hm (keeps_onHeap fun _ => Heap.keeps_instantiate hcallee hfit)
  | _ =>
      rw [Strategy.call] <;> first | exact keeps_throw hm nofun | exact nofun

theorem Preserves.callHost_succ (hm : Later usable m₀ m) (name : String) (arguments : Arguments) :
    (strategy.callHost (steps + 1) name .count arguments).Keeps m (Later usable m₀) usable := by
  rw [Strategy.callHost]
  exact keeps_pure hm (hm.sound.heap.unmade _ not_false)

theorem Preserves.callFunction_succ (ih : strategy.Preserves usable steps) (hm : Later usable m₀ m)
    {address : Address} (haddress : usable (.function address)) {arguments : Arguments}
    (hfit : arguments.Fit usable) :
    (strategy.callFunction (steps + 1) address arguments).Keeps m (Later usable m₀) usable := by
  rw [Strategy.callFunction]
  refine keeps_get_bind ?_
  have hfunction := hm.sound.heap.function address haddress
  cases hcallable : (m.heap.function address).callable with
  | listMethod method receiver =>
      have hreceiver := hfunction.receiver (.list receiver) (by rw [hcallable]; rfl)
      simp only [hcallable]
      exact keeps_lift hm (keeps_onHeap fun _ => method.keeps_call hreceiver hfit (usable_null hm))
  | dictMethod method receiver =>
      have hreceiver := hfunction.receiver (.dict receiver) (by rw [hcallable]; rfl)
      simp only [hcallable]
      exact keeps_lift hm (keeps_onHeap fun _ => method.keeps_call hreceiver hfit (usable_null hm))
  | host routine =>
      -- The only routine there is counts its arguments.
      obtain rfl := hfunction.host routine hcallable
      simp only [hcallable]
      exact ih.callHost hm
  | closure scope body =>
      simp only [hcallable]
      exact ih.drive hm haddress hfit

theorem Preserves.tailCall_succ (ih : strategy.Preserves usable steps) (hm : Later usable m₀ m)
    {callee : Value} (hcallee : usable callee) {arguments : Arguments}
    (hfit : arguments.Fit usable) :
    (strategy.tailCall (steps + 1) callee arguments).Keeps m (Later usable m₀)
      (Completion.Fit usable) := by
  have hfull : ∀ m, Later usable m₀ m → (do return .value (← strategy.call steps callee arguments) :
      Run Completion).Keeps m (Later usable m₀) (Completion.Fit usable) := fun m hm =>
    (ih.call hm hcallee hfit).bind fun value m hm hvalue => keeps_pure hm hvalue
  cases callee with
  | function address =>
      rw [Strategy.tailCall]
      refine keeps_get_bind ?_
      dsimp only
      split
      · exact hfull m hm
      · refine keeps_get_bind ?_
        refine (keeps_ofOutcome hm hm.sound.calm_currentName).bind fun running m hm _ => ?_
        split
        · exact keeps_pure hm ⟨hcallee, hfit⟩
        · exact hfull m hm
  | _ => rw [Strategy.tailCall] <;> first | exact hfull m hm | exact nofun

theorem Preserves.drive_succ (ih : strategy.Preserves usable steps) (hm : Later usable m₀ m)
    {repeated : Bool} {address : Address} (haddress : usable (.function address))
    {arguments : Arguments} (hfit : arguments.Fit usable) :
    (strategy.drive (steps + 1) repeated address arguments).Keeps m (Later usable m₀) usable := by
  rw [Strategy.drive]
  refine (ih.invoke hm haddress hfit).bind fun completion m hm hcompletion => ?_
  cases completion with
  | value value =>
      dsimp only
      split
      · exact (keeps_lift hm (keeps_markOptimized haddress)).bind fun _ m hm _ =>
          keeps_pure hm hcompletion
      · exact keeps_pure hm hcompletion
  | deferred next arguments => exact ih.drive hm hcompletion.1 hcompletion.2

/-- Work in a scope that was opened, and closed whatever the outcome. -/
theorem keeps_inScope {α : Type} {good : α → Prop} {opened : Machine} {id : RecordId}
    {record : Record} (hm : Later usable m₀ m) (hopens : m.Opens id record opened) {run : Run α}
    (hrun : run.Keeps opened (Later usable opened) good) {close : Attempt Machine Unit}
    (hclose : close = Machine.unwindTo m.stack.depth ∨ close = Machine.popRecord id) :
    Run.Keeps (do
      let outcome ← outcomeOf run
      close
      ofOutcome outcome) opened (Later usable m₀) good := by
  intro outcome m' hresult
  rw [bind_on, outcomeOf_on] at hresult
  rcases hfirst : run opened with _ | ⟨first, worked⟩
  · simp [hfirst] at hresult
  · obtain ⟨hworked, hcalm⟩ := hrun first worked hfirst
    obtain ⟨after, closed, -, hunwind, hpop, hsound, -, hevolves⟩ :=
      hopens.close hm.sound.depth_pos hworked
    -- After the body the opened scope is on top again, so closing it by depth and by handle is the
    -- same.
    have hboth : close worked = (.ok (), closed) := by
      rcases hclose with rfl | rfl
      · exact hunwind
      · exact hpop
    simp only [hfirst, bind_on, lift_on, hboth, ofOutcome_on, Option.some.injEq,
      Prod.mk.injEq] at hresult
    obtain ⟨rfl, rfl⟩ := hresult
    exact ⟨⟨hsound, hm.evolves.trans hevolves⟩, hcalm⟩

theorem Preserves.invoke_succ (ih : strategy.Preserves usable steps) (hm : Later usable m₀ m)
    {address : Address} (haddress : usable (.function address)) {arguments : Arguments}
    (hfit : arguments.Fit usable) :
    (strategy.invoke (steps + 1) address arguments).Keeps m (Later usable m₀)
      (Completion.Fit usable) := by
  rw [Strategy.invoke]
  refine keeps_get_bind ?_
  have hfunction := hm.sound.heap.function address haddress
  have hnative : (do return .value (← strategy.callFunction steps address arguments) :
      Run Completion).Keeps m (Later usable m₀) (Completion.Fit usable) :=
    (ih.callFunction hm haddress hfit).bind fun value m hm hvalue => keeps_pure hm hvalue
  -- Only a closure opens a scope; whether there is room for it decides between the two outcomes.
  cases hcallable : (m.heap.function address).callable with
  | closure scope body =>
      have hbound := hfunction.parameters.calm_bind (m.heap.function address).name hfit
      obtain ⟨enclosing, hscope, -⟩ := hfunction.scope scope body hcallable
      simp only [hcallable]
      refine keeps_ofOutcome_bind hm hbound fun bound hbound => ?_
      refine keeps_lift_bind_ok (depth_on m) ?_
      refine keeps_watch_bind ?_
      rcases hm.sound.openRecord (setsUp_call (m.heap.function address).name hscope hbound) with
        ⟨id, opened, hopen, hsound, hopens⟩ | ⟨-, id, after, hopen, hsound, hevolves, -⟩
      · have hcall : openFunctionRecord (m.heap.function address).name scope bound m =
            (.ok (), opened) := by rw [openFunctionRecord, Attempt.discard_on, hopen]
        exact keeps_lift_bind_ok hcall (keeps_inScope hm hopens
          (ih.evalTail hsound.later (hfunction.body scope body hcallable)) (.inl rfl))
      · obtain ⟨err, herr, hcall⟩ : ∃ err : RuntimeError, err.kind ≠ .internal ∧
            openFunctionRecord (m.heap.function address).name scope bound m = (.error err, after) :=
          ⟨.depthExceeded _ _, nofun, by rw [openFunctionRecord, Attempt.discard_on, hopen]⟩
        exact keeps_lift_bind_error hcall ⟨hsound, hm.evolves.trans hevolves⟩ herr
  | _ =>
      simp only [hcallable]
      exact hnative

/-! ## Expressions -/

theorem Preserves.handle_succ (ih : strategy.Preserves usable steps) (hm : Later usable m₀ m)
    {body handler : Expr} (binding : String) (hbody : body.Fit usable)
    (hhandler : handler.Fit usable) :
    (strategy.eval (steps + 1) (.handle body binding handler)).Keeps m (Later usable m₀)
    usable := by
  rw [Strategy.eval]
  refine keeps_lift_bind_ok (depth_on m) ?_
  refine (ih.eval hm hbody).outcomeOf.bind fun outcome m' hm' hcalm => ?_
  cases outcome with
  | ok value => exact keeps_pure hm' hcalm
  | error err =>
      have herr : err.kind ≠ .internal := hcalm
      -- The body has closed its scopes itself, so there is nothing to unwind.
      have hdepth : Machine.unwindTo m.stack.depth m' = (.ok (), m') := by
        rw [hm.evolves.stack, ← hm'.evolves.stack]
        exact unwindTo_of_depth_le (Nat.le_max_left _ _)
      simp only [if_neg herr]
      refine keeps_lift_bind_ok hdepth ?_
      refine keeps_watch_bind ?_
      obtain ⟨rest, current, -, hcurrent⟩ := hm'.sound.exists_top
      rcases hm'.sound.openRecord (setsUp_pushRecord handlerName .handler hcurrent) with
        ⟨id, opened, hopen, hsound, hopens⟩ | ⟨-, id, after, hopen, hsound, hevolves, -⟩
      · refine keeps_lift_bind_ok hopen ?_
        refine keeps_inScope hm' hopens ?_ (.inr rfl)
        have hbinding : usable (.ofError err) :=
          hsound.heap.unmade _ (by cases err <;> exact not_false)
        exact (keeps_lift hsound.later (keeps_define binding hbinding)).bind fun _ m hm _ =>
          ih.eval hm hhandler
      · exact keeps_lift_bind_error hopen ⟨hsound, hm'.evolves.trans hevolves⟩ nofun

theorem Preserves.binary_succ (ih : strategy.Preserves usable steps) (hm : Later usable m₀ m)
    {left right : Expr} (operator : BinaryOperator) (hleft : left.Fit usable)
    (hright : right.Fit usable) :
    (strategy.eval (steps + 1) (.binary operator left right)).Keeps m (Later usable m₀) usable := by
  have htruth : ∀ m, Later usable m₀ m → (do
      let right ← strategy.eval steps right
      return .boolean ((← get).heap.isTruthy right) : Run Value).Keeps m (Later usable m₀) usable :=
    fun m hm => (ih.eval hm hright).bind fun right m hm _ =>
      keeps_get_bind (keeps_pure hm (usable_boolean hm _))
  -- Two operators evaluate their right operand only on condition.
  by_cases hand : operator = .and
  · subst operator
    rw [Strategy.eval]
    refine (ih.eval hm hleft).bind fun left m hm _ => keeps_get_bind ?_
    split
    · exact htruth m hm
    · exact keeps_pure hm (usable_boolean hm false)
  by_cases hor : operator = .or
  · subst operator
    rw [Strategy.eval]
    refine (ih.eval hm hleft).bind fun left m hm _ => keeps_get_bind ?_
    split
    · exact keeps_pure hm (usable_boolean hm true)
    · exact htruth m hm
  rw [Strategy.eval]
  · refine (ih.eval hm hleft).bind fun left m hm hleft => ?_
    refine (ih.eval hm hright).bind fun right m hm hright => ?_
    exact keeps_lift hm (keeps_onHeap fun _ => Heap.keeps_applyBinary operator hleft hright)
  · exact hand
  · exact hor

theorem Preserves.eval_succ (ih : strategy.Preserves usable steps) (hm : Later usable m₀ m)
    {expr : Expr} (hfit : expr.Fit usable) :
    (strategy.eval (steps + 1) expr).Keeps m (Later usable m₀) usable := by
  cases expr with
  | literal value =>
      rw [Strategy.eval]
      exact keeps_pure hm (hfit value (.literal value))
  | name name =>
      rw [Strategy.eval]
      exact keeps_get_bind (keeps_ofOutcome hm (hm.sound.calm_lookup name))
  | assign name value =>
      rw [Strategy.eval]
      refine (ih.eval hm (hfit.child List.mem_cons_self)).bind fun value m hm hvalue => ?_
      refine (keeps_lift hm (keeps_assign name hvalue)).bind fun _ m hm _ => ?_
      exact keeps_pure hm hvalue
  | define name value =>
      rw [Strategy.eval]
      refine (ih.eval hm (hfit.child List.mem_cons_self)).bind fun value m hm hvalue => ?_
      refine (keeps_lift hm (keeps_define name hvalue)).bind fun _ m hm _ => ?_
      exact keeps_pure hm hvalue
  | unary operator operand =>
      rw [Strategy.eval]
      refine (ih.eval hm (hfit.child List.mem_cons_self)).bind fun value m hm hvalue => ?_
      exact keeps_get_bind (keeps_ofOutcome hm (hm.sound.heap.calm_applyUnary operator value))
  | binary operator left right =>
      obtain ⟨hleft, hright⟩ := hfit.binary
      exact ih.binary_succ hm operator hleft hright
  | conditional condition consequence alternative =>
      obtain ⟨hcondition, hconsequence, halternative⟩ := hfit.conditional
      rw [Strategy.eval]
      refine (ih.eval hm hcondition).bind fun value m hm _ => ?_
      refine keeps_get_bind ?_
      split
      · exact ih.eval hm hconsequence
      · cases alternative with
        | some other => exact ih.eval hm (halternative other rfl)
        | none => exact keeps_pure hm (usable_null hm)
  | block body =>
      rw [Strategy.eval]
      exact ih.evalBlock hm (usable_null hm) fun _ => hfit.child
  | list items =>
      rw [Strategy.eval]
      refine (ih.evalList hm fun _ => hfit.child).bind fun values m hm hvalues => ?_
      exact keeps_lift hm (keeps_onHeap fun _ => Heap.keeps_makeList hvalues)
  | dict entries =>
      rw [Strategy.eval]
      refine (ih.evalPairs hm fun _ => hfit.dict).bind fun values m hm hvalues => ?_
      exact keeps_lift hm (keeps_onHeap fun _ => Heap.keeps_dictOf hvalues)
  | function name parameters body doc =>
      obtain ⟨hbody, hdefaults⟩ := hfit.function
      rw [Strategy.eval]
      refine (ih.evalParameters hm Parameters.fit_empty hdefaults).bind
        fun parameters m hm hparameters => ?_
      refine (keeps_lift hm (keeps_defineFunction name hparameters hbody)).bind
        fun function m hm hfunction => ?_
      cases doc with
      | none => exact keeps_pure hm hfunction
      | some text =>
          exact (keeps_lift hm (keeps_onHeap fun _ => Heap.keeps_setDoc hfunction text)).bind
            fun _ m hm _ => keeps_pure hm hfunction
  | call callee positional named =>
      obtain ⟨hfirst, hpositional, hnamed⟩ := hfit.call
      rw [Strategy.eval]
      refine (ih.eval hm hfirst).bind fun callee m hm hcallee => ?_
      refine (ih.evalArguments hm hpositional hnamed).bind fun arguments m hm harguments => ?_
      exact ih.call hm hcallee harguments
  | getAttribute object name =>
      rw [Strategy.eval]
      refine (ih.eval hm (hfit.child List.mem_cons_self)).bind fun object m hm hobject => ?_
      exact keeps_readAttribute hm hobject name
  | setAttribute object name value =>
      obtain ⟨hobject, hvalue⟩ := hfit.setAttribute
      rw [Strategy.eval]
      refine (ih.eval hm hobject).bind fun object m hm hobject => ?_
      refine (ih.eval hm hvalue).bind fun value m hm hvalue => ?_
      refine (keeps_lift hm (keeps_onHeap fun _ =>
        Heap.keeps_setAttribute hobject name hvalue)).bind fun _ m hm _ => ?_
      exact keeps_pure hm hvalue
  | callMethod receiver name positional named =>
      obtain ⟨hfirst, hpositional, hnamed⟩ := hfit.callMethod
      rw [Strategy.eval]
      refine (ih.eval hm hfirst).bind fun receiver m hm hreceiver => ?_
      refine (ih.evalArguments hm hpositional hnamed).bind fun arguments m hm harguments => ?_
      exact (keeps_readAttribute hm hreceiver name).bind fun method m hm hmethod =>
        ih.call hm hmethod harguments
  | raise label message =>
      rw [Strategy.eval]
      refine (ih.eval hm (hfit.child List.mem_cons_self)).bind fun message m hm _ => ?_
      exact keeps_watch_bind (keeps_get_bind (keeps_throw hm nofun))
  | handle body binding handler =>
      obtain ⟨hbody, hhandler⟩ := hfit.handle
      exact ih.handle_succ hm binding hbody hhandler

theorem Preserves.evalTail_succ (ih : strategy.Preserves usable steps) (hm : Later usable m₀ m)
    {expr : Expr} (hfit : expr.Fit usable) :
    (strategy.evalTail (steps + 1) expr).Keeps m (Later usable m₀) (Completion.Fit usable) := by
  have hother : (do return .value (← strategy.eval steps expr) : Run Completion).Keeps m
      (Later usable m₀) (Completion.Fit usable) :=
    (ih.eval hm hfit).bind fun value m hm hvalue => keeps_pure hm hvalue
  cases expr with
  | call callee positional named =>
      obtain ⟨hfirst, hpositional, hnamed⟩ := hfit.call
      rw [Strategy.evalTail]
      refine (ih.eval hm hfirst).bind fun callee m hm hcallee => ?_
      refine (ih.evalArguments hm hpositional hnamed).bind fun arguments m hm harguments => ?_
      exact ih.tailCall hm hcallee harguments
  | callMethod receiver name positional named =>
      obtain ⟨hfirst, hpositional, hnamed⟩ := hfit.callMethod
      rw [Strategy.evalTail]
      refine (ih.eval hm hfirst).bind fun receiver m hm hreceiver => ?_
      refine (ih.evalArguments hm hpositional hnamed).bind fun arguments m hm harguments => ?_
      exact (keeps_readAttribute hm hreceiver name).bind fun method m hm hmethod =>
        ih.tailCall hm hmethod harguments
  | conditional condition consequence alternative =>
      obtain ⟨hcondition, hconsequence, halternative⟩ := hfit.conditional
      rw [Strategy.evalTail]
      refine (ih.eval hm hcondition).bind fun value m hm _ => ?_
      refine keeps_get_bind ?_
      split
      · exact ih.evalTail hm hconsequence
      · cases alternative with
        | some other => exact ih.evalTail hm (halternative other rfl)
        | none => exact keeps_pure hm (usable_null hm)
  | block body =>
      rw [Strategy.evalTail]
      exact ih.evalTailBlock hm fun _ => hfit.child
  | _ =>
      rw [Strategy.evalTail]
      · exact hother
      all_goals simp

/-- However many steps are given, evaluating keeps sound machines sound. -/
theorem preserves (strategy : Strategy) (usable : Value → Prop) (steps : Nat) :
    strategy.Preserves usable steps := by
  induction steps with
  | zero => exact preserves_zero
  | succ steps ih =>
      exact {
        eval := fun hm hfit => ih.eval_succ hm hfit
        evalTail := fun hm hfit => ih.evalTail_succ hm hfit
        evalBlock := fun hm hlast hbody => ih.evalBlock_succ hm hlast hbody
        evalTailBlock := fun hm hbody => ih.evalTailBlock_succ hm hbody
        evalList := fun hm hexprs => ih.evalList_succ hm hexprs
        evalPairs := fun hm hpairs => ih.evalPairs_succ hm hpairs
        evalNamed := fun hm hnamed => ih.evalNamed_succ hm hnamed
        evalArguments := fun hm hpositional hnamed => ih.evalArguments_succ hm hpositional hnamed
        evalParameters := fun hm hdeclared hparameters =>
          ih.evalParameters_succ hm hdeclared hparameters
        call := fun hm hcallee hfit => ih.call_succ hm hcallee hfit
        callFunction := fun hm haddress hfit => ih.callFunction_succ hm haddress hfit
        tailCall := fun hm hcallee hfit => ih.tailCall_succ hm hcallee hfit
        drive := fun hm haddress hfit => ih.drive_succ hm haddress hfit
        invoke := fun hm haddress hfit => ih.invoke_succ hm haddress hfit
        callHost := fun {_ _ name arguments} hm => Preserves.callHost_succ hm name arguments }

theorem keeps_callMethod (hm : Later usable m₀ m) {receiver : Value} (hreceiver : usable receiver)
    (name : String) {arguments : Arguments} (hfit : arguments.Fit usable) (steps : Nat) :
    (strategy.callMethod steps receiver name arguments).Keeps m (Later usable m₀) usable :=
  (keeps_readAttribute hm hreceiver name).bind fun _ _ hm hmethod =>
    (strategy.preserves usable steps).call hm hmethod hfit

end Strategy

end ScriptCore
