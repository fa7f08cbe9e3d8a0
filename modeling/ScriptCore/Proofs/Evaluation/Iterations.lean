import Mathlib.Logic.Relation
import ScriptCore.Proofs.Evaluation.TailPosition

/-!
# Deferred calls, one after the other

A function that ends with a call of itself does not make the call but hands it back.  Its scope is
closed then, and the call is made in its place: running a function is a row of iterations, each of
which hands back the next one (`Iteration.HandsBack`).

However long the row is, every iteration finds the scopes as the first one has found them, since
running a body restores the scopes (`Machine.Restores`).  So each body is evaluated in one scope on
top of those that were open before the first iteration (`scopes_of_iteration`), and a stack that has
room for the first iteration has room for all of them.

`Iteration` holds what the loop holds between two iterations: the machine, the function that is to
be run, its arguments, and whether a call was handed back before.  A step from one to the next is a
run of the body that ends with a call handed back, within some number of steps; the relation does
not depend on which number, since more steps never change an outcome.

Records that were captured during earlier iterations are still live later, so the live records of an
iteration are those from before the first one, its own scope, and captured ones.
-/

namespace ScriptCore

open Machine Run

/-- A function that is about to be run, for the first time or because a call was handed back. -/
structure Iteration where
  machine : Machine
  repeated : Bool
  address : Address
  arguments : Arguments

namespace Iteration

variable {config : Config} {first now next later : Iteration} {m opened : Machine} {body : Expr}
  {steps : Nat}

/-- The function of an iteration. -/
def function (now : Iteration) : Function :=
  now.machine.heap.function now.address

/-- Runs the function once. -/
def invoke (now : Iteration) (steps : Nat) : Run Completion :=
  Strategy.deferring.invoke steps now.address now.arguments

/-- Runs the function, and the calls it hands back, until one ends with a value. -/
def drive (now : Iteration) (steps : Nat) : Run Value :=
  Strategy.deferring.drive steps now.repeated now.address now.arguments

/-- The iteration that running the function once hands back, if it does so within the steps. -/
def next? (steps : Nat) (now : Iteration) : Option Iteration :=
  match now.invoke steps now.machine with
  | some (.ok (.deferred address arguments), machine) =>
    some { machine, repeated := true, address, arguments }
  | _ => none

/-- Running the function once hands back the next iteration. -/
def HandsBack (now next : Iteration) : Prop :=
  ∃ steps, now.next? steps = some next

/-- The body of the function, and what opening a scope for it comes to, once the parameters are
bound. -/
def opening? (now : Iteration) : Option (Expr × Except RuntimeError Unit × Machine) :=
  match now.function.callable with
  | .closure scope body =>
    match now.function.parameters.bind now.function.name now.arguments with
    | .ok bound =>
      some (body, openFunctionRecord now.function.name scope bound now.machine)
    | .error _ => none
  | _ => none

/-! ## Running a function -/

theorem HandsBack.repeated (hnext : now.HandsBack next) : next.repeated = true := by
  obtain ⟨steps, hnext⟩ := hnext
  unfold next? at hnext
  split at hnext
  · rw [← Option.some.inj hnext]
  · nomatch hnext

theorem HandsBack.exists_invoke (hnext : now.HandsBack next) : ∃ steps,
    now.invoke steps now.machine =
      some (.ok (.deferred next.address next.arguments), next.machine) := by
  obtain ⟨steps, hnext⟩ := hnext
  refine ⟨steps, ?_⟩
  unfold next? at hnext
  split at hnext
  · rename_i hinvoke
    rw [hinvoke, ← Option.some.inj hnext]
  · nomatch hnext

theorem opening?_eq_some {outcome : Except RuntimeError Unit}
    (hopening : now.opening? = some (body, outcome, opened)) :
    ∃ scope bound, now.function.callable = .closure scope body ∧
      now.function.parameters.bind now.function.name now.arguments = .ok bound ∧
      openFunctionRecord now.function.name scope bound now.machine = (outcome, opened) := by
  unfold opening? at hopening
  split at hopening
  · rename_i scope body' hcallable
    split at hopening
    · rename_i bound hbound
      obtain ⟨rfl, hopen⟩ := Prod.mk.inj (Option.some.inj hopening)
      exact ⟨scope, bound, hcallable, hbound, hopen⟩
    · nomatch hopening
  · nomatch hopening

/-- Once its scope is opened, running a function is evaluating its body there and closing the scope
again. -/
theorem invoke_of_opening? (hopening : now.opening? = some (body, .ok (), opened)) (steps : Nat) :
    now.invoke (steps + 1) now.machine = (do
      let outcome ← outcomeOf (evalTail steps body)
      Machine.unwindTo now.machine.stack.depth
      ofOutcome outcome : Run Completion) opened := by
  obtain ⟨scope, bound, hcallable, hbound, hopen⟩ := opening?_eq_some hopening
  rw [invoke, Strategy.invoke, bind_on, get_on]
  simp only [function] at hcallable hbound hopen
  simp only [hcallable, bind_on, hbound, ofOutcome_on, lift_on, depth_on, Strategy.watch,
    Strategy.deferring, Bool.false_and, Bool.false_eq_true, if_false, hopen]
  rfl

/-- What is done when a body has ended: the function is marked, or the next call is made. -/
def goOn (now : Iteration) (steps : Nat) : Completion → Run Value
  | .value value => do
    if now.repeated then Machine.markOptimized now.address
    return value
  | .deferred next arguments => Strategy.deferring.drive steps true next arguments

theorem drive_succ (now : Iteration) (steps : Nat) :
    now.drive (steps + 1) = now.invoke steps >>= now.goOn steps := by
  rw [drive, Strategy.drive]
  refine congrArg _ (funext fun completion => ?_)
  cases completion <;> rfl

/-- What an iteration comes to is what the one that it hands back comes to. -/
theorem HandsBack.drive_iff (hnext : now.HandsBack next)
    (result : Except RuntimeError Value × Machine) :
    Settles now.drive now.machine result ↔ Settles next.drive next.machine result := by
  obtain ⟨steps, hinvoke⟩ := hnext.exists_invoke
  have hsettles : Settles now.invoke now.machine
      (.ok (.deferred next.address next.arguments), next.machine) :=
    (settles_iff fun steps => (Strategy.grows .deferring steps).invoke _ _).2 ⟨steps, hinvoke⟩
  have hgoOn : (now.goOn · (.deferred next.address next.arguments)) = next.drive := by
    funext steps
    rw [goOn, drive, hnext.repeated]
  rw [← hgoOn]
  exact (settles_succ_iff now.drive_succ).trans (settles_bind_iff hsettles)

theorem drive_iff_of_reflTransGen (hlater : Relation.ReflTransGen HandsBack first later)
    (result : Except RuntimeError Value × Machine) :
    Settles first.drive first.machine result ↔ Settles later.drive later.machine result := by
  induction hlater with
  | refl => exact .rfl
  | tail _ hnext ih => exact ih.trans (hnext.drive_iff result)

/-! ## The scopes of an iteration -/

theorem HandsBack.tended (hnow : Tended config HostRoutine.IsNeutral m now.machine)
    (hnext : now.HandsBack next) :
    Tended config HostRoutine.IsNeutral m next.machine := by
  obtain ⟨steps, hinvoke⟩ := hnext.exists_invoke
  exact (Strategy.respects (conserves_tended config id) .deferring steps).invoke now.address
    now.arguments hnow _ _ hinvoke

theorem tended_of_reflTransGen (hfirst : Tended config HostRoutine.IsNeutral m first.machine)
    (hlater : Relation.ReflTransGen HandsBack first later) :
    Tended config HostRoutine.IsNeutral m later.machine := by
  induction hlater with
  | refl => exact hfirst
  | tail _ hnext ih => exact hnext.tended ih

/-- A scope that is opened for an iteration is a new one with the name of its function. -/
theorem opens_of_opening? (hopening : now.opening? = some (body, .ok (), opened))
    (hnow : now.machine.arena.Tidy) :
    ∃ id record, now.machine.Opens id record opened ∧ record.kind = .function ∧
      record.name = now.function.name := by
  obtain ⟨scope, bound, -, -, hopen⟩ := opening?_eq_some hopening
  rw [openFunctionRecord, Attempt.discard_on] at hopen
  rcases openRecord_exact hnow now.function.name .function scope bound with
    ⟨id, record, opened', hopen', hopens, -, -, hname, hkind, -⟩ | ⟨err, arena, hfail, -⟩
  · rw [hopen'] at hopen
    obtain rfl := (Prod.mk.inj hopen).2
    exact ⟨id, record, hopens, hkind, hname⟩
  · rw [hfail] at hopen
    cases hopen

/-- There being no room for a scope is due to the stack. -/
theorem isFull_of_opening? {limit : Nat} {name : String}
    (hopening : now.opening? = some (body, .error (.depthExceeded limit name), opened))
    (hnow : now.machine.arena.Tidy) : now.machine.stack.isFull = true := by
  obtain ⟨scope, bound, -, -, hopen⟩ := opening?_eq_some hopening
  rw [openFunctionRecord, Attempt.discard_on] at hopen
  rcases openRecord_exact hnow now.function.name .function scope bound with
    ⟨id, record, opened', hopen', -⟩ | ⟨err, arena, hfail, -, -, ⟨rfl, -⟩ | ⟨-, hfull⟩⟩
  · rw [hopen'] at hopen
    cases hopen
  · rw [hfail] at hopen
    cases hopen
  · exact hfull

/-- **Deferred calls do not deepen the stack.**  However many calls were handed back, running a
function goes on from the iteration that is reached to the end that it would have come to from the
first one, and the body is evaluated in one new scope, named after the function, on top of just the
scopes that were open before the first iteration.  Live are then the records that were live before,
the new one and captured ones.  So there is room for every scope if there was room for the first.

Machines are upright wherever a host can come to (`Attainable.upright`), and in the midst of every
evaluation, too, since it leads only to machines that occur (`conserves_occurs`). -/
theorem scopes_of_iteration (hfirst : first.machine.Upright config)
    (hheap : first.machine.heap.Permits HostRoutine.IsNeutral)
    (hlater : Relation.ReflTransGen HandsBack first later) :
    (∀ result, Settles first.drive first.machine result ↔
      Settles later.drive later.machine result) ∧
    (∀ body opened, later.opening? = some (body, .ok (), opened) →
      (∀ steps, later.invoke (steps + 1) later.machine = (do
        let outcome ← outcomeOf (evalTail steps body)
        Machine.unwindTo later.machine.stack.depth
        ofOutcome outcome : Run Completion) opened) ∧
      ∃ id record, opened.stack =
          { first.machine.stack with records := first.machine.stack.records.push id } ∧
        first.machine.arena.isLive id = false ∧ later.machine.arena.isLive id = false ∧
        opened.arena.record? id = some record ∧ record.kind = .function ∧
        record.name = later.function.name ∧
        ∀ other, opened.arena.isLive other = true ↔
          first.machine.arena.isLive other = true ∨ other = id ∨ opened.arena.Captured other) ∧
    ∀ body opened, first.opening? = some (body, .ok (), opened) → ∀ body limit name failed,
      later.opening? ≠ some (body, .error (.depthExceeded limit name), failed) := by
  have htended := tended_of_reflTransGen ⟨hfirst, .refl first.machine, hheap⟩ hlater
  have htidy := htended.upright.tidy
  have hstack := htended.restores.stack
  refine ⟨drive_iff_of_reflTransGen hlater, fun body opened hopening =>
    ⟨invoke_of_opening? hopening, ?_⟩,
    fun body opened hopening body' limit name failed hfail => ?_⟩
  · obtain ⟨id, record, hopens, hkind, hname⟩ := opens_of_opening? hopening htidy
    have hdead : later.machine.arena.isLive id = false := by
      rw [ScopeArena.isLive, hopens.new, Option.isSome_none]
    have hlive : ∀ other, first.machine.arena.isLive other = true →
        later.machine.arena.isLive other = true := fun other =>
      (htended.restores.records other).isLive
    -- The slot of an earlier scope may be used again, but its handle is new: what was live before
    -- the first iteration still is.
    have hnew : first.machine.arena.isLive id = false := by
      rw [Bool.eq_false_iff]
      intro hbefore
      rw [hlive id hbefore] at hdead
      cases hdead
    refine ⟨id, { record with level := later.machine.stack.depth },
      by rw [hopens.stack, hstack], hnew, hdead, by rw [hopens.arena, if_pos rfl], hkind, hname,
      fun other => ⟨fun hother => ?_, ?_⟩⟩
    · by_cases hid : other = id
      · exact .inr (.inl hid)
      · rw [ScopeArena.isLive, hopens.arena, if_neg hid] at hother
        exact (htended.restores.new other hother).imp_right fun hcaptured =>
          .inr (hopens.captured hcaptured)
    · rintro (hbefore | rfl | hcaptured)
      · obtain ⟨held, hheld⟩ := ScopeArena.isLive_iff.1 (hlive other hbefore)
        exact ScopeArena.isLive_of_record? (hopens.record?_of_record? hheld)
      · rw [ScopeArena.isLive, hopens.arena, if_pos rfl, Option.isSome_some]
      · exact hcaptured.isLive
  · obtain ⟨id, record, hopens, -⟩ := opens_of_opening? hopening hfirst.tidy
    have hroom := hopens.room
    rw [← hstack, isFull_of_opening? hfail htidy] at hroom
    cases hroom

/-- The body of a function `f` of `n` that calls itself with smaller numbers down to zero, each time
after it has defined a function. -/
def capturing : Expr :=
  .block [.function "g" [] (.name "n") none,
    .conditional (.binary .greater (.name "n") (.int 0))
      (.callName "f" [.binary .subtract (.name "n") (.int 1)]) (some (.name "g"))]

/-- In the third iteration the scopes of the first two are closed but still there, as they were
captured, and that of the third is the second scope on the stack. -/
theorem scopes_of_iteration_capturing : ∃ first later : Iteration, ∃ body opened,
    first.machine.Upright ⟨2⟩ ∧ first.machine.heap.Permits HostRoutine.IsNeutral ∧
    Relation.ReflTransGen HandsBack first later ∧
    first.machine.arena.liveCount = 1 ∧ later.machine.arena.liveCount = 3 ∧
    later.opening? = some (body, .ok (), opened) ∧ opened.stack.depth = 2 ∧
    ∃ id, opened.stack =
        { first.machine.stack with records := first.machine.stack.records.push id } ∧
      ∀ other, opened.arena.isLive other = true ↔
        first.machine.arena.isLive other = true ∨ other = id ∨ opened.arena.Captured other := by
  let m := (defineFunction "f" (.required ["n"]) capturing (start ⟨2⟩)).2
  let first : Iteration := ⟨m, false, 0, ⟨[.integer 2], []⟩⟩
  have hstart : Tended ⟨2⟩ HostRoutine.IsNeutral (start ⟨2⟩) (start ⟨2⟩) :=
    Attainable.start.tended (Heap.permits_empty HostRoutine.isNeutral_count)
  have hm : Tended ⟨2⟩ HostRoutine.IsNeutral (start ⟨2⟩) m :=
    (conserves_tended ⟨2⟩ id).maintains_defineFunction "f" _ capturing _ hstart
  have hrun : ((first.next? 20).bind fun second => (second.next? 20).bind fun third =>
      third.opening?.map fun (_, outcome, opened) =>
        (third.machine.arena.liveCount, outcome, opened.stack.depth)) = some (3, .ok (), 2) := by
    decide +kernel
  obtain ⟨second, hsecond, hrun⟩ := Option.bind_eq_some_iff.1 hrun
  obtain ⟨third, hthird, hrun⟩ := Option.bind_eq_some_iff.1 hrun
  obtain ⟨⟨body, outcome, opened⟩, hopening, hresult⟩ := Option.map_eq_some_iff.1 hrun
  obtain ⟨hlive, hresult⟩ := Prod.mk.inj hresult
  obtain ⟨rfl, hdepth⟩ := Prod.mk.inj hresult
  have hlater : Relation.ReflTransGen HandsBack first third :=
    .tail (.single ⟨20, hsecond⟩) ⟨20, hthird⟩
  obtain ⟨-, hscope, -⟩ := scopes_of_iteration hm.upright hm.permits hlater
  obtain ⟨-, id, record, hstack, -, -, -, -, -, hrecords⟩ := hscope body opened hopening
  exact ⟨first, third, body, opened, hm.upright, hm.permits, hlater, by decide +kernel, hlive,
    hopening, hdepth, id, hstack, hrecords⟩

end Iteration

end ScriptCore
