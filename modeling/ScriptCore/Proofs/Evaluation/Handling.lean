import ScriptCore.Proofs.Evaluation.TailPosition
import ScriptCore.Proofs.Machine.Handler

/-!
# Handling errors

What `handle` comes to, from what its body and its handler come to (`handle_exact`).  A value of the
body is the value of the whole and a dead record ends it; after any other error the scopes that the
body has left open are closed and the handler is evaluated in a scope of its own, with the error
bound there.

The stack is as before in every case, unless a routine of the host opens or closes scopes on its own
account: one that opens a scope leaves it open though no error occurs (`handle_leaves_scope`).

What handling comes to is told by the machine that the body leaves (`back`, once the scopes above
are closed) and by the one in which the error is bound (`caught`).  If the stack is full after the
closing, there is no scope to handle the error in, and the error of the stack takes its place.

The statements are about what runs settle on.  A handled expression settles only if its body does,
and with one step more, so each case peels the run apart by `settles_bind_iff` and closes with what
the parts settle on.
-/

namespace ScriptCore

open Machine Run

/-! ## Going on after an outcome -/

namespace Run

variable {α β : Type} {runs : Nat → Run α} {next : Nat → Except RuntimeError α → Run β}
  {m : Machine} {result : Except RuntimeError β × Machine}

/-- A sequence that goes on with the outcome of its first part settles exactly if that part does and
what follows does. -/
theorem settles_outcomeOf_bind_iff
    (hgrows : ∀ steps, (runs steps).Approximates (runs (steps + 1))) :
    Settles (fun steps => outcomeOf (runs steps) >>= next steps) m result ↔
      ∃ outcome m', Settles runs m (outcome, m') ∧ Settles (next · outcome) m' result := by
  constructor
  · intro hsettles
    obtain ⟨bound, hbound⟩ := hsettles
    have hrun := hbound bound (Nat.le_refl bound)
    dsimp only at hrun
    rw [bind_on, outcomeOf_on] at hrun
    cases hfirst : runs bound m with
    | none => simp [hfirst] at hrun
    | some first =>
        have hfirst' : Settles runs m (first.1, first.2) :=
          (settles_iff hgrows).2 ⟨bound, hfirst⟩
        exact ⟨first.1, first.2, hfirst', (settles_bind_iff hfirst'.outcomeOf).1 ⟨bound, hbound⟩⟩
  · rintro ⟨outcome, m', hfirst, hnext⟩
    exact hfirst.outcomeOf.bind hnext

end Run

/-! ## Rules -/

/-- Every machine that an evaluation ends on occurs. -/
theorem Machine.Occurs.of_settles {config : Config} {m m' : Machine} (hm : m.Occurs config)
    {expr : Expr} {outcome : Except RuntimeError Value}
    (hsettles : Settles (eval · expr) m (outcome, m')) : m'.Occurs config := by
  obtain ⟨bound, hbound⟩ := hsettles
  have hself : StaysOccurring config m m := hm
  have hrun := (Strategy.respects (conserves_occurs config) .deferring bound).eval expr hself
  exact hrun outcome m' (hbound bound (Nat.le_refl bound))

section Rules

variable {m m' back opened caught : Machine} {body handler : Expr} {binding : String}
  {result : Except RuntimeError Value × Machine}

theorem approximates_eval (steps : Nat) (expr : Expr) :
    (eval steps expr).Approximates (eval (steps + 1) expr) :=
  (Strategy.grows .deferring steps).eval expr

/-- The whole comes to something only if the body does. -/
theorem exists_body_of_settles_handle
    (hsettles : Settles (eval · (.handle body binding handler)) m result) :
    ∃ outcome m', Settles (eval · body) m (outcome, m') := by
  have hbody := (settles_bind_iff (.of_eq fun _ => rfl)).1
    ((settles_succ_iff fun steps => by rw [eval, Strategy.eval]).1 hsettles)
  obtain ⟨outcome, m', hbody, -⟩ :=
    (settles_outcomeOf_bind_iff fun steps => approximates_eval steps body).1 hbody
  exact ⟨outcome, m', hbody⟩

theorem settles_handle_value {value : Value} (hbody : Settles (eval · body) m (.ok value, m')) :
    Settles (eval · (.handle body binding handler)) m (.ok value, m') := by
  refine .succ (fun steps => by rw [eval, Strategy.eval]) ?_
  exact .lift_bind (depth_on m) (hbody.outcomeOf.bind (.of_eq fun _ => rfl))

section Error

variable {err : RuntimeError} (hbody : Settles (eval · body) m (.error err, m'))

include hbody

theorem settles_handle_internal (hkind : err.kind = .internal) :
    Settles (eval · (.handle body binding handler)) m (.error err, m') := by
  refine .succ (fun steps => by rw [eval, Strategy.eval]) ?_
  refine .lift_bind (depth_on m) (hbody.outcomeOf.bind ?_)
  simp only [if_pos hkind]
  exact .of_eq fun _ => rfl

variable (hkind : err.kind ≠ .internal) (hunwind : unwindTo m.stack.depth m' = (.ok (), back))

include hkind hunwind

theorem settles_handle_error {full : RuntimeError} {failed : Machine}
    (hopen : pushRecord handlerName .handler back = (.error full, failed)) :
    Settles (eval · (.handle body binding handler)) m (.error full, failed) := by
  refine .succ (fun steps => by rw [eval, Strategy.eval]) ?_
  refine .lift_bind (depth_on m) (hbody.outcomeOf.bind ?_)
  simp only [if_neg hkind]
  refine .lift_bind hunwind (.bind (.of_eq fun _ => rfl) ?_)
  exact .bind_error (.of_eq fun _ => by rw [lift_on, hopen])

/-- Once its scope is open the handler decides, and its scope is closed again. -/
theorem settles_handle_caught_iff {config : Config} {id : RecordId}
    (hopen : pushRecord handlerName .handler back = (.ok id, opened))
    (hdefine : Machine.define binding (.ofError err) opened = (.ok (), caught))
    (hcaught : caught.Occurs config) {outcome : Except RuntimeError Value} {after : Machine} :
    Settles (eval · (.handle body binding handler)) m (outcome, after) ↔
      ∃ worked, Settles (eval · handler) caught (outcome, worked) ∧
        popRecord id worked = (.ok (), after) := by
  have hgrows : ∀ steps, Approximates
      (do Machine.define binding (.ofError err); eval steps handler : Run Value)
      (do Machine.define binding (.ofError err); eval (steps + 1) handler) := fun steps =>
    (Approximates.refl _).bind fun _ => approximates_eval steps handler
  -- The run is taken apart from the front: the depth is read, the body fails, the scopes above are
  -- closed, a scope is opened.  The handler in it is what is left.
  refine (settles_succ_iff fun steps => by rw [eval, Strategy.eval]).trans ?_
  refine (settles_bind_iff (.of_eq fun _ => rfl)).trans ?_
  refine (settles_bind_iff hbody.outcomeOf).trans ?_
  simp only [if_neg hkind]
  refine (settles_bind_iff (.of_eq fun _ => by rw [lift_on, hunwind])).trans ?_
  refine (settles_bind_iff (.of_eq fun _ => rfl)).trans ?_
  refine (settles_bind_iff (.of_eq fun _ => by rw [lift_on, hopen])).trans ?_
  refine (settles_outcomeOf_bind_iff hgrows).trans ?_
  have hhandler : ∀ first, Settles (fun steps =>
      (do Machine.define binding (.ofError err); eval steps handler : Run Value)) opened first ↔
      Settles (eval · handler) caught first := fun first =>
    settles_bind_iff (.of_eq fun _ => by rw [lift_on, hdefine])
  have hclose : ∀ {worked closed : Machine} (first : Except RuntimeError Value),
      popRecord id worked = (.ok (), closed) →
      (Settles (fun _ => (do Machine.popRecord id; ofOutcome first : Run Value)) worked
        (outcome, after) ↔ (outcome, after) = (first, closed)) := fun first hpop =>
    (settles_bind_iff (.of_eq fun _ => by rw [lift_on, hpop])).trans settles_ofOutcome_iff
  constructor
  · rintro ⟨first, worked, hfirst, hlast⟩
    have hworked := (hhandler _).1 hfirst
    obtain ⟨closed, hpop⟩ := (hcaught.of_settles hworked).upright.exists_popped id
    obtain ⟨rfl, rfl⟩ := Prod.mk.inj ((hclose first hpop).1 hlast)
    exact ⟨worked, hworked, hpop⟩
  · rintro ⟨worked, hworked, hpop⟩
    exact ⟨outcome, worked, (hhandler _).2 hworked, (hclose outcome hpop).2 rfl⟩

end Error

end Rules

/-! ## What the stack is afterwards -/

namespace Machine

variable {config : Config} {allowed : HostRoutine → Prop} {m m' : Machine}

/-- The same scopes are open as at the start, and the routines of the host that the heap may have
are of some kind. -/
structure Level (config : Config) (allowed : HostRoutine → Prop) (start m : Machine) : Prop where
  upright : m.Upright config
  stack : m.stack = start.stack
  permits : m.heap.Permits allowed

theorem Level.renew {start : Machine} (hm : Level config allowed start m) {arena : ScopeArena}
    (harena : m.arena.Renews arena) : Level config allowed start { m with arena } :=
  ⟨hm.upright.withArena harena, hm.stack, hm.permits⟩

/-- The steps of an evaluation conserve the stack. -/
theorem conservesSteps_level (config : Config) (allowed : HostRoutine → Prop) :
    ConservesSteps allowed (Level config allowed) where
  permits hm := hm.permits
  heap hm hheap := ⟨hm.upright.withHeap _, hm.stack, hheap⟩
  assign name value hm := hm.renew (hm.upright.tidy.renews_assign _ name value)
  define name value hm := hm.renew (hm.upright.tidy.renews_define _ name value)
  captures hm := hm.renew (hm.upright.tidy.renews_capture _)
  fails hm hfail := by
    obtain ⟨arena, rfl, harena⟩ := renews_of_openRecord hm.upright.tidy hfail
    exact hm.renew harena
  opens hm hopen := by
    obtain ⟨record, hopens, hopened⟩ := hm.upright.opens hopen
    exact ⟨hopened, rfl, by rw [hopens.heap]; exact hm.permits⟩
  closes hm hopen hworked := by
    obtain ⟨record, hopens, -⟩ := hm.upright.opens hopen
    obtain ⟨after, closed, hunwind, hpop, -, hcloses, hclosed⟩ :=
      hm.upright.close hopens hworked.upright hworked.stack
    have hlevel : Level config allowed _ closed :=
      ⟨hclosed, (hopens.stack_of_closes hworked.stack hcloses).trans hm.stack,
        by rw [hcloses.heap]; exact hworked.permits⟩
    rw [hunwind, hpop]
    exact ⟨hlevel, hlevel⟩
  rewinds hm hm' := by
    -- The scopes are the same ones, so there is nothing to close.
    rw [unwindTo_of_depth_le (by rw [hm'.stack, ← hm.stack]; exact Nat.le_max_left _ _)]
    exact hm'

theorem Level.collect {start : Machine} (hm : Level config allowed start m) (roots : List Value) :
    Level config allowed start (Machine.collect roots m).2 :=
  ⟨hm.upright.collect roots, hm.stack, hm.permits⟩

end Machine

/-! ### Routines of the host that keep the stack -/

/-- A routine leaves the same scopes open as far as what it has evaluated does. -/
def HostRoutine.KeepsStack (routine : HostRoutine) : Prop :=
  ∀ config allowed, routine.Respects (Level config allowed)

namespace HostRoutine

variable {routine : HostRoutine}

/-- A routine that opens no scope and closes none by itself keeps the stack, even if it collects. -/
theorem keepsStack_of_asks
    (hroutine : routine.Asks (·.effect ∈ [.nothing, .assigns, .binds, .collects])) :
    routine.KeepsStack := by
  refine fun config allowed => respects_of_asks hroutine
    fun request heffect evaluator heval m₀ m hm => ?_
  cases request with
  | collect roots => exact maintains_lift (hm.collect roots)
  | pushRecord name kind => simp [HostRequest.effect] at heffect
  | popRecord id => simp [HostRequest.effect] at heffect
  | unwindTo depth => simp [HostRequest.effect] at heffect
  | _ =>
      exact (conservesSteps_level config allowed).maintains_perform heval
        (by simp [HostRequest.effect]) hm

theorem keepsStack_of_offered {name : String} (hoffered : (name, routine) ∈ offered)
    (hname : name ∉ ["push", "unwind"]) : routine.KeepsStack :=
  keepsStack_of_asks ((asks_or_collects_of_offered hoffered hname).mono fun _ heffect => by
    simp only [List.mem_cons, List.not_mem_nil, or_false] at heffect ⊢
    tauto)

theorem keepsStack_count : count.KeepsStack :=
  keepsStack_of_offered count_offered (by decide)

end HostRoutine

namespace Machine

variable {config : Config} {m m' : Machine}

theorem conserves_level (config : Config) :
    Conserves HostRoutine.KeepsStack (Level config HostRoutine.KeepsStack) where
  toConservesSteps := conservesSteps_level config _
  host hkeeps := hkeeps config _

/-- Evaluating leaves the stack as it was, whatever it comes to. -/
theorem Upright.stack_eq_of_settles (hm : m.Upright config)
    (hheap : m.heap.Permits HostRoutine.KeepsStack) {expr : Expr}
    {outcome : Except RuntimeError Value} (hsettles : Settles (eval · expr) m (outcome, m')) :
    m'.stack = m.stack := by
  obtain ⟨bound, hbound⟩ := hsettles
  have hself : Level config HostRoutine.KeepsStack m m := ⟨hm, rfl, hheap⟩
  have hrun := (Strategy.respects (conserves_level config) .deferring bound).eval expr hself
  exact (hrun outcome m' (hbound bound (Nat.le_refl bound))).stack

theorem Upright.isFull_iff (hm : m.Upright config) :
    m.stack.isFull = true ↔ m.stack.depth = max config.maxDepth 1 := by
  have hle := hm.depth_le
  rw [CallStack.isFull, decide_eq_true_iff, hm.limit]
  omega

end Machine

/-! ## The main statement -/

/-- **What handling an error comes to**, wherever a machine can be.  Without an outcome of the body
there is none.  A value of the body is the value of the whole, and a dead record ends it, each on
the machine that the body leaves.  After any other error, one of a category that only the program
calls internal included, the scopes above the depth at the start are closed, and nothing else that
the body did is undone.  If the stack is full then, the outcome is the error that there is no room
for the handler; else it is that of the handler, evaluated in a new scope in which the error is
bound and every other name is seen by reference, and this scope is closed again.  No other record
has another binding for it.

As long as no routine of the host opens or closes scopes on its own account, the stack is as before
in every case, and there was nothing to close after the body. -/
theorem handle_exact {config : Config} {m : Machine} (hm : m.Occurs config) (body : Expr)
    (binding : String) (handler : Expr) :
    (∀ result, Settles (eval · (.handle body binding handler)) m result →
      ∃ outcome m', Settles (eval · body) m (outcome, m')) ∧
    (∀ value m', Settles (eval · body) m (.ok value, m') → ∀ result,
      Settles (eval · (.handle body binding handler)) m result ↔ result = (.ok value, m')) ∧
    (∀ index m', Settles (eval · body) m (.error (.deadRecord index), m') → ∀ result,
      Settles (eval · (.handle body binding handler)) m result ↔
        result = (.error (.deadRecord index), m')) ∧
    (∀ err m', Settles (eval · body) m (.error err, m') → (∀ index, err ≠ .deadRecord index) →
      ∃ back, unwindTo m.stack.depth m' = (.ok (), back) ∧ m'.Unwound m.stack.depth back ∧
        (back.stack.depth = max config.maxDepth 1 →
          ∃ arena, back.arena.SameRecords arena ∧ ∀ result,
            Settles (eval · (.handle body binding handler)) m result ↔
              result = (.error (.depthExceeded (max config.maxDepth 1) handlerName),
                { back with arena })) ∧
        (back.stack.depth < max config.maxDepth 1 →
          ∃ id caught, back.Catches binding err id caught ∧ ∀ outcome after,
            Settles (eval · (.handle body binding handler)) m (outcome, after) ↔
              ∃ worked, Settles (eval · handler) caught (outcome, worked) ∧
                popRecord id worked = (.ok (), after))) ∧
    (m.heap.Permits HostRoutine.KeepsStack → ∀ outcome m',
      (Settles (eval · body) m (outcome, m') →
        m'.stack = m.stack ∧ unwindTo m.stack.depth m' = (.ok (), m')) ∧
      (Settles (eval · (.handle body binding handler)) m (outcome, m') → m'.stack = m.stack)) := by
  have hupright := hm.upright
  refine ⟨fun result => exists_body_of_settles_handle, fun value m' hbody result => ?_,
    fun index m' hbody result => ?_, fun err m' hbody halive => ?_, fun hheap outcome m' => ?_⟩
  · exact (settles_handle_value hbody).eq_iff
  · exact (settles_handle_internal hbody rfl).eq_iff
  · -- Of the errors only dead records pass a handler.
    have hkind : err.kind ≠ .internal := by
      intro hkind
      cases err with
      | deadRecord index => exact halive index rfl
      | _ => nomatch hkind
    have hm' := hm.of_settles hbody
    obtain ⟨back, hunwind, hunwound, hback⟩ := hm'.upright.exists_unwound m.stack.depth
    rw [max_eq_left hupright.depth_pos] at hunwound
    refine ⟨back, hunwind, hunwound, fun hfull => ?_, fun hroom => ?_⟩
    · obtain ⟨arena, hopen, hsame⟩ :=
        hback.pushRecord_of_isFull (hback.isFull_iff.2 hfull) handlerName .handler
      rw [hback.limit] at hopen
      exact ⟨arena, hsame, fun result =>
        (settles_handle_error hbody hkind hunwind hopen).eq_iff⟩
    · have hoccurs := hm'.unwindTo m.stack.depth
      rw [hunwind] at hoccurs
      -- There is room, so a scope can be opened for the handler.
      have hfree : back.stack.isFull = false := by
        rw [← Bool.not_eq_true, hback.isFull_iff]
        exact Nat.ne_of_lt hroom
      obtain ⟨id, opened, caught, hopen, hdefine, hcatches⟩ :=
        hoccurs.exists_caught hfree binding err
      have hcaught : caught.Occurs config := by
        have hopened := hoccurs.pushRecord handlerName .handler
        rw [hopen] at hopened
        have hdefined := hopened.define binding (.ofError err)
        rwa [hdefine] at hdefined
      exact ⟨id, caught, hcatches, fun outcome after =>
        settles_handle_caught_iff hbody hkind hunwind hopen hdefine hcaught⟩
  · refine ⟨fun hbody => ?_, hupright.stack_eq_of_settles hheap⟩
    have hstack := hupright.stack_eq_of_settles hheap hbody
    exact ⟨hstack, unwindTo_of_depth_le (by rw [hstack]; exact Nat.le_max_left _ _)⟩

/-! ### Handled in a function, and with no room to handle -/

/-- A scope was opened over that of the program, and a name is bound in each. -/
def inScope (limit : Nat) : Machine :=
  (Machine.define "err" (.integer 1)
    (pushRecord "f" .function (Machine.define "seen" .null (start ⟨limit⟩)).2).2).2

theorem occurs_inScope (limit : Nat) : (inScope limit).Occurs ⟨limit⟩ :=
  ((Occurs.start.define "seen" .null).pushRecord "f" .function).define "err" (.integer 1)

/-- A name of the program is assigned to, and an error raised that only the program calls
internal. -/
def failing : Expr :=
  .block [.assign "seen" (.int 7), .raise "internal" (.literal (.string "boom"))]

/-- Assigns the text of the error to the name of the program. -/
def noting : Expr :=
  .assign "seen" (.getAttribute (.name "err") "message")

theorem permits_inScope (limit : Nat) (hlimit : (inScope limit).heap = .empty) :
    (inScope limit).heap.Permits HostRoutine.KeepsStack := by
  rw [hlimit]
  exact Heap.permits_empty HostRoutine.keepsStack_count

/-- With room for one more scope the handler is evaluated: it assigns to the name of the program,
its own name means what it did before, and the stack is as before.  Without room the error is that,
and what was done before it stays. -/
theorem handle_exact_inScope :
    (inScope 3).Occurs ⟨3⟩ ∧ (inScope 2).Occurs ⟨2⟩ ∧
    (∃ (failed : Machine) (id : RecordId) (caught after : Machine),
      failed.Catches "err" (.raised "internal" "boom") id caught ∧
      Settles (eval · (.handle failing "err" noting)) (inScope 3) (.ok (.string "boom"), after) ∧
      after.lookup "seen" = .ok (.string "boom") ∧ after.lookup "err" = .ok (.integer 1) ∧
      after.stack = (inScope 3).stack) ∧
    ∃ after : Machine, Settles (eval · (.handle failing "err" noting)) (inScope 2)
      (.error (.depthExceeded 2 handlerName), after) ∧
      after.lookup "seen" = .ok (.integer 7) ∧ after.stack = (inScope 2).stack := by
  refine ⟨occurs_inScope 3, occurs_inScope 2, ?_, ?_⟩
  · have hbody : (eval 20 failing (inScope 3)).map (·.1) =
        some (.error (.raised "internal" "boom")) := by decide +kernel
    have hwhole : ((eval 20 (.handle failing "err" noting) (inScope 3)).map fun result =>
        (result.1, result.2.lookup "seen", result.2.lookup "err")) =
        some (.ok (.string "boom"), .ok (.string "boom"), .ok (.integer 1)) := by decide +kernel
    obtain ⟨⟨first, failed⟩, hbody, rfl⟩ := Option.map_eq_some_iff.1 hbody
    obtain ⟨⟨outcome, after⟩, hwhole, hresult⟩ := Option.map_eq_some_iff.1 hwhole
    obtain ⟨rfl, hlookups⟩ := Prod.mk.inj hresult
    obtain ⟨hseen, herr⟩ := Prod.mk.inj hlookups
    obtain ⟨-, -, -, herror, hlevel⟩ := handle_exact (occurs_inScope 3) failing "err" noting
    have hlevel := hlevel (permits_inScope 3 rfl)
    obtain ⟨hstack, hsame⟩ := (hlevel _ failed).1 (Strategy.eval_settles hbody)
    obtain ⟨back, hunwind, -, -, hroom⟩ := herror _ failed (Strategy.eval_settles hbody) nofun
    obtain rfl : back = failed := (Prod.mk.inj (hunwind.symm.trans hsame)).2
    obtain ⟨id, caught, hcatches, -⟩ := hroom (by rw [hstack]; decide)
    exact ⟨back, id, caught, after, hcatches, Strategy.eval_settles hwhole, hseen, herr,
      (hlevel _ after).2 (Strategy.eval_settles hwhole)⟩
  · have hbody : (eval 20 failing (inScope 2)).map (·.1) =
        some (.error (.raised "internal" "boom")) := by decide +kernel
    have hwhole : ((eval 20 (.handle failing "err" noting) (inScope 2)).map fun result =>
        result.2.lookup "seen") = some (.ok (.integer 7)) := by decide +kernel
    obtain ⟨⟨first, failed⟩, hbody, rfl⟩ := Option.map_eq_some_iff.1 hbody
    obtain ⟨⟨outcome, after⟩, hwhole, hseen⟩ := Option.map_eq_some_iff.1 hwhole
    obtain ⟨-, -, -, herror, hlevel⟩ := handle_exact (occurs_inScope 2) failing "err" noting
    have hlevel := hlevel (permits_inScope 2 rfl)
    obtain ⟨hstack, hsame⟩ := (hlevel _ failed).1 (Strategy.eval_settles hbody)
    obtain ⟨back, hunwind, -, hfull, -⟩ := herror _ failed (Strategy.eval_settles hbody) nofun
    obtain rfl : back = failed := (Prod.mk.inj (hunwind.symm.trans hsame)).2
    obtain ⟨arena, -, hsettles⟩ := hfull (by rw [hstack]; decide)
    obtain ⟨rfl, -⟩ := Prod.mk.inj ((hsettles (outcome, after)).1 (Strategy.eval_settles hwhole))
    exact ⟨after, Strategy.eval_settles hwhole, hseen,
      (hlevel _ after).2 (Strategy.eval_settles hwhole)⟩

/-! ### A routine of the host that opens a scope -/

/-- The machine of a host that offers a way to open scopes. -/
def pushing : Machine :=
  (defineHost "push" .push (start ⟨10⟩)).2

/-- The scope that the routine opens in the body is still open after it, though no error has
occurred. -/
theorem handle_leaves_scope : Attainable ⟨10⟩ pushing ∧ ∃ outcome m',
    Settles (eval · (.handle (.callName "push" [.literal (.string "scope")]) "err" (.int 0)))
      pushing (outcome, m') ∧ m'.stack ≠ pushing.stack := by
  have hrun : ((eval 20 (.handle (.callName "push" [.literal (.string "scope")]) "err" (.int 0))
      pushing).map fun result => (result.2.stack.depth, pushing.stack.depth)) = some (2, 1) := by
    decide +kernel
  obtain ⟨⟨outcome, m'⟩, heval, hdepths⟩ := Option.map_eq_some_iff.1 hrun
  refine ⟨Attainable.start.defineHost "push" .push, outcome, m',
    Strategy.eval_settles heval, fun hsame => ?_⟩
  simp [hsame] at hdepths
  omega

end ScriptCore
