import ScriptCore.Proofs.Evaluation.Discipline
import ScriptCore.Proofs.Evaluation.Steps
import ScriptCore.Proofs.Machine.Standing

/-!
# In tail position and outside

There are two evaluators, one for expressions in tail position of a body and one for all others.
They take calls, method calls, conditionals and blocks apart each by itself, and only the first one
hands calls back.

Here they are seen to agree (`evalTail_agrees`): where the first one ends with a value or an error
the second one ends with the same, on the same machine, and where the first one hands back a call
the second one comes to exactly what that call comes to.  `Strategy.finish` brings an outcome in
tail position to an end, and `Strategy.Resolves` says that what a run in tail position comes to,
brought to an end, is what other runs settle on.  It passes through sequences, so the evaluators are
compared by induction on the steps, with the two ways of evaluating a block side by side.

The evaluator in tail position also asks for the name of the scope on top, which only a live scope
has; that is why scopes have to stand (`Machine.Standing`).

A scope below the top has to be live only because a routine may close the scopes above it, which
brings it to the top.  Where one is dead and there is such a routine, the evaluators do differ
(`evalTail_differs_of_dead_below`); without the routine they agree there too (`anchored_hollow`).
-/

namespace ScriptCore

open Machine Run

/-! ## What sequences settle on -/

namespace Run

variable {α β : Type} {runs runs' : Nat → Run α} {next : Nat → α → Run β} {m m' : Machine}
  {result result' : Except RuntimeError α × Machine} {last : Except RuntimeError β × Machine}

theorem Settles.unique (hsettles : Settles runs m result) (hother : Settles runs m result') :
    result = result' := by
  obtain ⟨bound, hbound⟩ := hsettles
  obtain ⟨bound', hbound'⟩ := hother
  have hrun := hbound (max bound bound') (Nat.le_max_left _ _)
  rw [hbound' _ (Nat.le_max_right _ _)] at hrun
  exact (Option.some.inj hrun).symm

theorem Settles.eq_iff (hsettles : Settles runs m result) :
    Settles runs m result' ↔ result' = result :=
  ⟨fun hother => hother.unique hsettles, fun heq => heq ▸ hsettles⟩

theorem settles_ofOutcome_iff {outcome : Except RuntimeError α} :
    Settles (fun _ => ofOutcome outcome) m result ↔ result = (outcome, m) :=
  Settles.eq_iff (.of_eq fun _ => rfl)

theorem settles_succ_iff (hruns : ∀ steps, runs (steps + 1) = runs' steps) :
    Settles runs m result ↔ Settles runs' m result := by
  refine ⟨fun ⟨bound, hbound⟩ => ⟨bound, fun steps hsteps => ?_⟩, .succ hruns⟩
  rw [← hruns]
  exact hbound (steps + 1) (Nat.le_succ_of_le hsteps)

/-- After a first part that settles, a sequence settles on what the rest does. -/
theorem settles_bind_iff {value : α} (hfirst : Settles runs m (.ok value, m')) :
    Settles (fun steps => runs steps >>= next steps) m last ↔ Settles (next · value) m' last := by
  refine ⟨fun hsettles => ?_, hfirst.bind⟩
  obtain ⟨bound, hbound⟩ := hfirst
  obtain ⟨bound', hbound'⟩ := hsettles
  refine ⟨max bound bound', fun steps hsteps => ?_⟩
  have hrun := hbound' steps (by omega)
  dsimp only at hrun
  rwa [bind_on, hbound steps (by omega)] at hrun

theorem settles_bind_error_iff {err : RuntimeError} (hfirst : Settles runs m (.error err, m')) :
    Settles (fun steps => runs steps >>= next steps) m last ↔ last = (.error err, m') :=
  ⟨fun hsettles => hsettles.unique hfirst.bind_error, fun heq => heq ▸ hfirst.bind_error⟩

/-- A last part that only gives back the value, if it has a step left, makes no difference. -/
theorem settles_bind_pure_iff {next : Nat → α → Run α}
    (hnext : ∀ steps value, next (steps + 1) value = pure value) :
    Settles (fun steps => runs steps >>= next steps) m result ↔ Settles runs m result := by
  have hpure : ∀ value m', Settles (next · value) m' (.ok value, m') := fun value m' =>
    (settles_succ_iff (hnext · value)).2 (.of_eq fun _ => rfl)
  constructor
  · rintro ⟨bound, hbound⟩
    -- The second run needs a step, so one is added to the bound.
    refine ⟨bound + 1, fun steps hsteps => ?_⟩
    obtain ⟨before, rfl⟩ : ∃ before, steps = before + 1 := ⟨steps - 1, by omega⟩
    have hrun := hbound (before + 1) (by omega)
    dsimp only at hrun
    rw [bind_on] at hrun
    rcases hfirst : runs (before + 1) m with _ | ⟨_ | value, m'⟩
    · simp [hfirst] at hrun
    · simpa [hfirst] using hrun
    · simpa [hfirst, hnext, pure_on] using hrun
  · intro hsettles
    obtain ⟨outcome, m'⟩ := result
    cases outcome with
    | error err => exact hsettles.bind_error
    | ok value => exact hsettles.bind (hpure value m')

/-- To drop a value is to go on without it. -/
theorem discard_bind (run : Run α) (next : PUnit → Run β) :
    (discard run >>= next) = run >>= fun _ => next ⟨⟩ := by
  funext m
  rw [bind_on, bind_on, discard_on]
  rcases run m with _ | ⟨_ | value, m'⟩ <;> rfl

end Run

namespace Strategy

variable {strategy : Strategy} {m : Machine} {steps floor : Nat}

/-! ## Bringing a body to an end -/

/-- What the outcome of a run in tail position comes to: a call that was handed back is made. -/
def finish (strategy : Strategy) (steps : Nat) : Except RuntimeError Completion → Run Value
  | .error err => ofOutcome (.error err)
  | .ok (.value value) => ofOutcome (.ok value)
  | .ok (.deferred function arguments) => strategy.call steps (.function function) arguments

/-- The runs settle on just what the run in tail position comes to when it is brought to an end. -/
def Resolves (strategy : Strategy) (run : Run Completion) (runs : Nat → Run Value) (m : Machine) :
    Prop :=
  ∀ outcome m', run m = some (outcome, m') →
    ∀ result, Settles runs m result ↔ Settles (strategy.finish · outcome) m' result

variable {run : Run Completion} {runs runs' : Nat → Run Value}

theorem resolves_outOfSteps : strategy.Resolves outOfSteps runs m :=
  fun _ _ hrun => nomatch hrun

theorem Resolves.unfold (hruns : ∀ steps, runs (steps + 1) = runs' steps)
    (hresolves : strategy.Resolves run runs' m) : strategy.Resolves run runs m :=
  fun outcome m' hrun result =>
    (settles_succ_iff hruns).trans (hresolves outcome m' hrun result)

theorem Resolves.bind {α : Type} {first : Run α} {firsts : Nat → Run α} {next : α → Run Completion}
    {nexts : Nat → α → Run Value}
    (hfirst : ∀ result, first m = some result → Settles firsts m result)
    (hnext : ∀ value m', first m = some (.ok value, m') →
      strategy.Resolves (next value) (nexts · value) m') :
    strategy.Resolves (first >>= next) (fun steps => firsts steps >>= nexts steps) m := by
  intro outcome m' hrun result
  rw [bind_on] at hrun
  rcases hstart : first m with _ | ⟨err | value, middle⟩
  · simp [hstart] at hrun
  · simp only [hstart, Option.some.injEq, Prod.mk.injEq] at hrun
    obtain ⟨rfl, rfl⟩ := hrun
    exact (settles_bind_error_iff (hfirst _ hstart)).trans settles_ofOutcome_iff.symm
  · rw [hstart] at hrun
    have hrest := hnext value middle hstart outcome m' hrun result
    exact (settles_bind_iff (hfirst _ hstart)).trans hrest

/-- A first part that needs no steps. -/
theorem Resolves.bind_self {α : Type} {first : Run α} {next : α → Run Completion}
    {nexts : Nat → α → Run Value}
    (hnext : ∀ value m', first m = some (.ok value, m') →
      strategy.Resolves (next value) (nexts · value) m') :
    strategy.Resolves (first >>= next) (fun steps => first >>= nexts steps) m :=
  .bind (fun _ hfirst => .of_eq fun _ => hfirst) hnext

theorem Resolves.get_bind {next : Machine → Run Completion}
    (hnext : strategy.Resolves (next m) runs m) : strategy.Resolves (get >>= next) runs m :=
  hnext

theorem Resolves.ofOutcome_bind {α : Type} {outcome : Except RuntimeError α} {value : α}
    {next : α → Run Completion} (houtcome : outcome = .ok value)
    (hnext : strategy.Resolves (next value) runs m) :
    strategy.Resolves (ofOutcome outcome >>= next) runs m := by
  subst outcome
  exact hnext

theorem Resolves.ite {condition : Prop} [Decidable condition] {other : Run Completion}
    {others : Nat → Run Value} (hthen : strategy.Resolves run runs m)
    (helse : strategy.Resolves other others m) :
    strategy.Resolves (if condition then run else other)
      (fun steps => if condition then runs steps else others steps) m := by
  by_cases hcondition : condition
  · simpa only [hcondition, if_true] using hthen
  · simpa only [hcondition, if_false] using helse

/-- What is evaluated in full. -/
theorem resolves_full {first : Run Value}
    (hfirst : ∀ result, first m = some result → Settles runs m result) :
    strategy.Resolves (do return .value (← first)) runs m := by
  intro outcome m' hrun result
  have hend : ∀ {last}, first m = some last → (Settles runs m result ↔ result = last) :=
    fun hlast => ⟨fun hsettles => hsettles.unique (hfirst _ hlast), fun heq => heq ▸ hfirst _ hlast⟩
  rw [bind_on] at hrun
  rcases hstart : first m with _ | ⟨err | value, middle⟩
  · simp [hstart] at hrun
  all_goals
    simp only [hstart, pure_on, Option.some.injEq, Prod.mk.injEq] at hrun
    obtain ⟨rfl, rfl⟩ := hrun
    exact (hend hstart).trans settles_ofOutcome_iff.symm

theorem resolves_value (value : Value) :
    strategy.Resolves (pure (.value value)) (fun _ => pure value) m := by
  rintro outcome m' ⟨rfl, rfl⟩ result
  exact .rfl

/-- A call that is handed back comes to what it comes to. -/
theorem resolves_deferred (function : Address) (arguments : Arguments) :
    strategy.Resolves (pure (.deferred function arguments))
      (strategy.call · (.function function) arguments) m := by
  rintro outcome m' ⟨rfl, rfl⟩ result
  exact .rfl

/-! ## The evaluators -/

/-- A call in tail position is made in full or handed back; the scope on top has a name. -/
theorem resolves_tailCall (hm : m.Steady floor) (callee : Value) (arguments : Arguments) :
    strategy.Resolves (strategy.tailCall steps callee arguments)
      (strategy.call · callee arguments) m := by
  cases steps with
  | zero => exact resolves_outOfSteps
  | succ steps =>
      have hfull : strategy.Resolves (do return .value (← strategy.call steps callee arguments))
          (strategy.call · callee arguments) m := resolves_full fun _ => call_settles
      cases callee with
      | function address =>
          -- The scope on top is live, so asking for its name succeeds.
          obtain ⟨name, hname⟩ := hm.currentName_eq
          rw [Strategy.tailCall]
          refine .get_bind ?_
          dsimp only
          split
          · exact hfull
          · refine .get_bind (.ofOutcome_bind hname ?_)
            split
            · exact resolves_deferred address arguments
            · exact hfull
      | _ =>
          rw [Strategy.tailCall]
          · exact hfull
          all_goals simp

theorem steady_of_eval {m' : Machine} {expr : Expr} {outcome : Except RuntimeError Value}
    (hm : m.Steady floor) (hrun : strategy.eval steps expr m = some (outcome, m')) :
    m'.Steady floor :=
  ((respects (conserves_stands floor) strategy steps).eval expr hm.stands
    outcome m' hrun).toStanding

theorem steady_of_evalArguments {m' : Machine} {positional : List Expr}
    {named : List (String × Expr)} {outcome : Except RuntimeError Arguments}
    (hm : m.Steady floor)
    (hrun : strategy.evalArguments steps positional named m = some (outcome, m')) :
    m'.Steady floor :=
  ((respects (conserves_stands floor) strategy steps).evalArguments positional named hm.stands
    outcome m' hrun).toStanding

theorem steady_of_readAttribute {m' : Machine} {value : Value} {name : String}
    {outcome : Except RuntimeError Value} (hm : m.Steady floor)
    (hrun : strategy.readAttribute value name m = some (outcome, m')) : m'.Steady floor :=
  (maintains_readAttribute (conserves_stands floor).toFrames hm.stands value name outcome m'
    hrun).toStanding

/-- Within a number of steps, an expression in tail position comes to what it comes to outside, and
so does a block. -/
structure Agrees (strategy : Strategy) (floor steps : Nat) : Prop where
  evalTail : ∀ {m : Machine} expr, m.Steady floor →
    strategy.Resolves (strategy.evalTail steps expr) (strategy.eval · expr) m
  /-- The value from before a block is that of the block only if the block is empty. -/
  evalTailBlock : ∀ {m : Machine} last body, (body = [] → last = .null) → m.Steady floor →
    strategy.Resolves (strategy.evalTailBlock steps body) (strategy.evalBlock · last body) m

theorem Agrees.evalTailBlock_succ (ih : strategy.Agrees floor steps) (hm : m.Steady floor)
    (last : Value) (body : List Expr) (hlast : body = [] → last = .null) :
    strategy.Resolves (strategy.evalTailBlock (steps + 1) body) (strategy.evalBlock · last body)
      m := by
  match body with
  | [] =>
      obtain rfl := hlast rfl
      rw [Strategy.evalTailBlock]
      exact (resolves_value .null).unfold fun steps => by rw [Strategy.evalBlock]
  | [expr] =>
      rw [Strategy.evalTailBlock]
      refine .unfold (fun steps => by rw [Strategy.evalBlock]) fun outcome m' hrun result => ?_
      -- A block of one expression evaluates it and is then at its end, with the value it has.
      rw [settles_bind_pure_iff fun steps value => by rw [Strategy.evalBlock]]
      exact ih.evalTail expr hm outcome m' hrun result
  | expr :: next :: rest =>
      rw [Strategy.evalTailBlock, discard_bind]
      · refine .unfold (fun steps => by rw [Strategy.evalBlock]) ?_
        refine .bind (fun _ => eval_settles) fun value m' hfirst => ?_
        exact ih.evalTailBlock value (next :: rest) (by simp) (steady_of_eval hm hfirst)
      · simp

theorem Agrees.evalTail_succ (ih : strategy.Agrees floor steps) (hm : m.Steady floor)
    (expr : Expr) :
    strategy.Resolves (strategy.evalTail (steps + 1) expr) (strategy.eval · expr) m := by
  cases expr with
  | call callee positional named =>
      rw [Strategy.evalTail]
      refine .unfold (fun steps => by rw [Strategy.eval]) ?_
      refine .bind (fun _ => eval_settles) fun callee m' hcallee => ?_
      refine .bind (fun _ => evalArguments_settles) fun arguments m'' harguments => ?_
      have hm' := steady_of_eval hm hcallee
      exact resolves_tailCall (steady_of_evalArguments hm' harguments) callee arguments
  | callMethod receiver name positional named =>
      rw [Strategy.evalTail]
      refine .unfold (fun steps => by rw [Strategy.eval]) ?_
      refine .bind (fun _ => eval_settles) fun receiver m' hreceiver => ?_
      refine .bind (fun _ => evalArguments_settles) fun arguments m'' harguments => ?_
      have hm'' := steady_of_evalArguments (steady_of_eval hm hreceiver) harguments
      refine .bind_self fun method last hmethod => ?_
      exact resolves_tailCall (steady_of_readAttribute hm'' hmethod) method arguments
  | conditional condition consequence alternative =>
      rw [Strategy.evalTail]
      refine .unfold (fun steps => by rw [Strategy.eval]) ?_
      refine .bind (fun _ => eval_settles) fun value m' hcondition => ?_
      have hm' := steady_of_eval hm hcondition
      refine .bind_self ?_
      rintro value m'' ⟨rfl, rfl⟩
      refine .ite (ih.evalTail consequence hm') ?_
      cases alternative with
      | some other => exact ih.evalTail other hm'
      | none => exact resolves_value .null
  | block body =>
      rw [Strategy.evalTail]
      refine .unfold (fun steps => by rw [Strategy.eval]) ?_
      exact ih.evalTailBlock .null body (fun _ => rfl) hm
  | _ =>
      rw [Strategy.evalTail]
      · exact resolves_full fun _ => eval_settles
      all_goals simp

end Strategy

/-! ## The language -/

/-- A function is defined, and two scopes are opened over that of the program. -/
def layered (m : Machine) : Option Machine :=
  performAll [.defineFunction "f" [("x", .required)] (.name "x"), .pushRecord "below" .function,
    .pushRecord "top" .function] m

/-- The record that was opened first was freed in the arena itself. -/
def hollow (m : Machine) : Machine :=
  { m with arena := m.arena.free 1 }

/-- As long as no routine of the host closes scopes, the dead scope does no harm. -/
theorem anchored_hollow : ∃ m, layered (start ⟨4⟩) = some m ∧ (hollow m).Anchored := by
  have hrun : (layered (start ⟨4⟩)).map (fun m => (m.arena.isLive ⟨1, 0⟩,
      (hollow m).stack.top?.map (hollow m).arena.isLive,
      m.heap.functions.all fun f => !f.callable.isNative)) = some (true, some true, true) := by
    decide +kernel
  obtain ⟨m, hm, hresult⟩ := Option.map_eq_some_iff.1 hrun
  simp only [Prod.mk.injEq] at hresult
  obtain ⟨hbelow, htop, hclosures⟩ := hresult
  have hattainable : Attainable ⟨4⟩ m := Attainable.start.performAll hm
  obtain ⟨record, hrecord⟩ := ScopeArena.isLive_iff.1 hbelow
  refine ⟨m, hm, anchored_of_offered (hattainable.upright.tidy.free hrecord)
    (Option.map_eq_some_iff.1 htop) ?_⟩
  refine Heap.permits_of_not_native (fun f hf => ?_)
    ⟨"count", HostRoutine.count_offered, by decide⟩
  simpa using Array.all_eq_true'.1 hclosures f hf

/-- Calls a function once an argument has closed the scope on top. -/
def closing : Expr :=
  .callName "f" [.callName "unwind" [.int 2]]

/-- That the scope on top is live is not enough: `Anchored.steady` cannot be left out.  Here a
routine of the host brings up a dead scope while the arguments of a call are evaluated.  In tail
position the name of that scope is asked for, and evaluating fails; outside tail position the call
is made. -/
theorem evalTail_differs_of_dead_below : ∃ m tail last,
    layered (defineHost "unwind" .unwind (start ⟨4⟩)).2 = some m ∧
    (hollow m).arena.Tidy ∧ (hollow m).stack.records.toList.Nodup ∧
    (∃ id, (hollow m).stack.top? = some id ∧ (hollow m).arena.isLive id = true) ∧
    evalTail 20 closing (hollow m) = some (.error (.deadRecord 1), tail) ∧
    Settles (eval · closing) (hollow m) (.ok .null, last) := by
  have hrun : ((layered (defineHost "unwind" .unwind (start ⟨4⟩)).2).bind fun m =>
      (evalTail 20 closing (hollow m)).bind fun tail =>
        (eval 20 closing (hollow m)).map fun last =>
          (m.arena.isLive ⟨1, 0⟩, (hollow m).stack.top?.map (hollow m).arena.isLive,
            tail.1.map fun _ => (), last.1)) =
      some (true, some true, .error (.deadRecord 1), .ok .null) := by decide +kernel
  obtain ⟨m, hm, hrun⟩ := Option.bind_eq_some_iff.1 hrun
  obtain ⟨⟨outcome, tail⟩, htail, hrun⟩ := Option.bind_eq_some_iff.1 hrun
  obtain ⟨⟨value, last⟩, hlast, hresult⟩ := Option.map_eq_some_iff.1 hrun
  simp only [Prod.mk.injEq] at hresult
  obtain ⟨hbelow, htop, hfailed, rfl⟩ := hresult
  obtain rfl : outcome = .error (.deadRecord 1) := by
    cases outcome with
    | error err => exact congrArg _ (Except.error.inj hfailed)
    | ok completion => nomatch hfailed
  have hattainable := (Attainable.start.defineHost "unwind" .unwind).performAll hm
  obtain ⟨record, hrecord⟩ := ScopeArena.isLive_iff.1 hbelow
  exact ⟨m, tail, last, hm, hattainable.upright.tidy.free hrecord, hattainable.upright.nodup,
    Option.map_eq_some_iff.1 htop, htail, Strategy.eval_settles hlast⟩

end ScriptCore
