import ScriptCore.Proofs.Run

/-!
# Programs of the host, run on a machine

A native function of the host is known by the requests that it makes.  Which ones these are depends
on what is answered to the ones before, so a program is a tree, and what can be said of all its
requests is said along the tree: `program.Asks kind` says that every request the program can come to
make is of some kind.

A run of the program does nothing but what it asks for, so it maintains whatever the requests of
that kind maintain (`HostProgram.Asks.maintains_run`).  Which properties those are is not known
here.  What is told here is by what requests can differ (`HostRequest.effect`): each property of
evaluations comes with the effects that it bears, and every routine that asks for nothing else bears
it, too.

The routines on offer are placed at the end, as instances of this.  All of them but three ask for
nothing that has an effect on the scopes by itself; the three open scopes, close scopes and collect
(`HostRoutine.asks_of_offered`).
-/

namespace ScriptCore

open Run

/-! ## What requests do by themselves -/

/-- What a request does to the scopes by itself, apart from the calls that are made for it: it does
nothing to them, it assigns or binds names in the current one, it opens or closes some, or it
collects. -/
inductive HostRequest.Effect
  | nothing
  | assigns
  | binds
  | opens
  | closes
  | collects
  deriving DecidableEq

/-- An expression is evaluated in the current scope, so it can bind names there. -/
def HostRequest.effect : HostRequest → Effect
  | call .. | tailCall .. | makeList _ | plainText _ | functionName _ | depth | currentName
  | lookup _ => .nothing
  | assign .. => .assigns
  | eval _ | evalTail _ | define .. | defineFunction .. => .binds
  | pushRecord .. => .opens
  | popRecord _ | unwindTo _ => .closes
  | collect _ => .collects

/-! ## All requests of a program -/

namespace HostProgram

variable {α β : Type} {kind kind' : HostRequest → Prop} {program : HostProgram α}

/-- Every request that a program can come to make is of some kind. -/
def Asks (kind : HostRequest → Prop) : HostProgram α → Prop
  | done _ => True
  | ask request next => kind request ∧ ∀ outcome, (next outcome).Asks kind

theorem asks_done (outcome : Except RuntimeError α) : (done outcome).Asks kind :=
  trivial

theorem asks_pure (value : α) : (pure value : HostProgram α).Asks kind :=
  trivial

theorem asks_request {request : HostRequest} (hrequest : kind request) :
    (HostProgram.request request).Asks kind :=
  ⟨hrequest, asks_done⟩

theorem Asks.bind {next : α → HostProgram β} (hprogram : program.Asks kind)
    (hnext : ∀ value, (next value).Asks kind) : (program >>= next).Asks kind := by
  change (program.bind next).Asks kind
  induction program with
  | done outcome =>
      cases outcome with
      | ok value => exact hnext value
      | error err => exact asks_done _
  | ask request rest ih => exact ⟨hprogram.1, fun outcome => ih outcome (hprogram.2 outcome)⟩

theorem asks_mapM (l : List α) {step : α → HostProgram β} (hstep : ∀ x, (step x).Asks kind) :
    (l.mapM step).Asks kind := by
  have hloop : ∀ done : List β, (List.mapM.loop step l done).Asks kind := by
    induction l with
    | nil => exact fun done => asks_pure _
    | cons x rest ih => exact fun done => (hstep x).bind fun value => ih (value :: done)
  exact hloop []

theorem Asks.mono (hprogram : program.Asks kind) (himp : ∀ request, kind request → kind' request) :
    program.Asks kind' := by
  induction program with
  | done outcome => exact asks_done outcome
  | ask request next ih =>
      exact ⟨himp request hprogram.1, fun outcome => ih outcome (hprogram.2 outcome)⟩

theorem asks_true (program : HostProgram α) : program.Asks fun _ => True := by
  induction program with
  | done outcome => exact asks_done outcome
  | ask request next ih => exact ⟨trivial, ih⟩

/-- A run of a program maintains what its requests maintain, however they are answered. -/
theorem Asks.maintains_run (hprogram : program.Asks kind) {evaluator : Evaluator}
    {inv : Machine → Prop}
    (hperform : ∀ request, kind request → ∀ m, inv m →
      (request.perform evaluator).Maintains m inv) {m : Machine} (hm : inv m) :
    (program.run evaluator).Maintains m inv := by
  induction program generalizing m with
  | done outcome => exact maintains_ofOutcome hm outcome
  | ask request next ih =>
      -- The program goes on after an error as well, so it is the outcome that is passed on.
      exact (hperform request hprogram.1 m hm).outcomeOf.bind fun outcome m hm =>
        ih outcome (hprogram.2 outcome) hm

end HostProgram

/-- The ways to evaluate that a routine has at hand within a number of steps. -/
def Strategy.evaluator (strategy : Strategy) (steps : Nat) : Evaluator where
  eval := strategy.eval steps
  evalTail := strategy.evalTail steps
  call := strategy.call steps
  tailCall := strategy.tailCall steps

theorem Strategy.callHost_succ (strategy : Strategy) (steps : Nat) (name : String)
    (routine : HostRoutine) (arguments : Arguments) :
    strategy.callHost (steps + 1) name routine arguments =
      (routine.program name arguments).run (strategy.evaluator steps) := by
  rw [Strategy.callHost, Strategy.evaluator]

/-! ## The routines on offer -/

namespace HostRoutine

open HostProgram

/-- Whatever a routine is called with, every request that it can come to make is of some kind. -/
def Asks (kind : HostRequest → Prop) (routine : HostRoutine) : Prop :=
  ∀ name arguments, (routine.program name arguments).Asks kind

variable {kind kind' : HostRequest → Prop} {routine : HostRoutine}

theorem Asks.mono (hroutine : routine.Asks kind) (himp : ∀ request, kind request → kind' request) :
    routine.Asks kind' :=
  fun name arguments => (hroutine name arguments).mono himp

theorem asks_true (routine : HostRoutine) : routine.Asks fun _ => True :=
  fun _ _ => HostProgram.asks_true _

theorem asks_count : count.Asks kind :=
  fun _ _ => asks_pure _

theorem count_offered : ("count", count) ∈ offered := by
  simp [offered]

theorem asks_collect : collect.Asks (·.effect = .collects) := by
  intro name arguments
  refine .bind (asks_request ?_) fun _ => asks_pure _
  rfl

theorem asks_push : push.Asks (·.effect ∈ [.nothing, .opens]) := by
  intro name arguments
  refine .bind (asks_done _) fun _ => .bind (asks_request ?_) fun _ =>
    .bind (asks_request ?_) fun _ => asks_pure _
  · exact List.mem_cons_self
  · exact List.mem_cons_of_mem _ List.mem_cons_self

theorem asks_unwind : unwind.Asks (·.effect = .closes) := by
  intro name arguments
  refine .bind (asks_done _) fun _ => .bind (asks_done _) fun _ => .bind (asks_request ?_) fun _ =>
    asks_pure _
  rfl

theorem asks_tailApply : tailApply.Asks (·.effect = .nothing) := by
  intro name arguments
  refine .bind (asks_done _) fun _ => .bind (asks_request ?_) fun completion => ?_
  · rfl
  cases completion with
  | value value => exact asks_pure value
  | deferred next arguments =>
      refine .bind (asks_request ?_) fun _ => asks_pure _
      rfl

/-- All routines on offer but those that open scopes, close scopes or collect leave the scopes alone
by themselves. -/
theorem asks_nothing_of_offered {name : String} (hoffered : (name, routine) ∈ offered)
    (hname : name ∉ ["collect", "push", "unwind"]) : routine.Asks (·.effect = .nothing) := by
  -- A routine whose requests have no effect is followed through its sequence of requests.
  have hread : ∀ {request : HostRequest} {next : request.Answer → HostProgram Value},
      request.effect = .nothing → (∀ value, (next value).Asks (·.effect = .nothing)) →
      (HostProgram.request request >>= next).Asks (·.effect = .nothing) :=
    fun hrequest hnext => (asks_request hrequest).bind hnext
  simp only [offered, List.mem_cons, Prod.mk.injEq, List.not_mem_nil, or_false] at hoffered
  rcases hoffered with ⟨-, rfl⟩ | ⟨-, rfl⟩ | ⟨-, rfl⟩ | ⟨-, rfl⟩ | ⟨-, rfl⟩ | ⟨-, rfl⟩ | ⟨-, rfl⟩ |
    ⟨rfl, -⟩ | ⟨-, rfl⟩ | ⟨rfl, -⟩ | ⟨rfl, -⟩
  · refine fun name arguments => .bind (asks_mapM _ fun _ => asks_request ?_) fun _ =>
      asks_request ?_
    all_goals rfl
  · exact asks_count
  · exact fun name arguments => (asks_done _).bind fun _ => (asks_done _).bind fun _ => asks_pure _
  · exact fun name arguments => (asks_done _).bind fun _ => hread rfl fun _ => asks_pure _
  · exact fun name arguments => hread rfl fun _ => asks_pure _
  · exact fun name arguments => (asks_done _).bind fun _ => asks_request rfl
  · exact asks_tailApply
  · simp at hname
  · exact fun name arguments => (asks_done _).bind fun _ => hread rfl fun _ => asks_done _
  · simp at hname
  · simp at hname

/-- What the routine that is offered under a name does to the scopes by itself. -/
def effectsOf (name : String) : List HostRequest.Effect :=
  match name with
  | "collect" => [.collects]
  | "push" => [.nothing, .opens]
  | "unwind" => [.closes]
  | _ => [.nothing]

theorem effectsOf_eq {name : String} (hname : name ∉ ["collect", "push", "unwind"]) :
    effectsOf name = [.nothing] := by
  simp only [List.mem_cons, List.not_mem_nil, or_false, not_or] at hname
  obtain ⟨hcollect, hpush, hunwind⟩ := hname
  simp [effectsOf]

/-- Each routine on offer asks for no more than its name says. -/
theorem asks_of_offered {name : String} (hoffered : (name, routine) ∈ offered) :
    routine.Asks (·.effect ∈ effectsOf name) := by
  by_cases hname : name ∈ ["collect", "push", "unwind"]
  · simp only [List.mem_cons, List.not_mem_nil, or_false] at hname
    rcases hname with rfl | rfl | rfl
    · obtain rfl : routine = collect := by simpa [offered] using hoffered
      exact asks_collect.mono fun _ heffect => List.mem_singleton.2 heffect
    · obtain rfl : routine = push := by simpa [offered] using hoffered
      exact asks_push
    · obtain rfl : routine = unwind := by simpa [offered] using hoffered
      exact asks_unwind.mono fun _ heffect => List.mem_singleton.2 heffect
  · rw [effectsOf_eq hname]
    exact (asks_nothing_of_offered hoffered hname).mono fun _ heffect =>
      List.mem_singleton.2 heffect

/-- The routines on offer that neither open nor close scopes collect at most. -/
theorem asks_or_collects_of_offered {name : String} (hoffered : (name, routine) ∈ offered)
    (hname : name ∉ ["push", "unwind"]) : routine.Asks (·.effect ∈ [.nothing, .collects]) := by
  refine (asks_of_offered hoffered).mono fun _ heffect => ?_
  unfold effectsOf at heffect
  split at heffect <;> simp_all

end HostRoutine

end ScriptCore
