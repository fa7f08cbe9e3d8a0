import ScriptCore.Proofs.Evaluation.Conserved
import ScriptCore.Proofs.Evaluation.Operations
import ScriptCore.Proofs.Machine.Occurring

/-!
# The discipline of scopes

In every machine that a host can come to the stack and the live records fit each other
(`stack_of_attainable`), whatever it has asked for, in whatever order, collecting and closing scopes
at will included, and whatever has come of it.

An evaluation, moreover, leaves the scopes as it has found them, with a value as with an error
(`restores_of_attainable`): the same scopes are open, nothing that was live was freed, and what it
has made and not freed again is captured.

Both come from what the steps of an evaluation conserve (`Machine.Conserves`): they lead only to
machines that occur (`Machine.Occurs`), and those are upright.

Which machines occur does not depend on the routines of the host, since they work on the machine
through its operations (`respects_occurs`).  Restoring the scopes does.  A routine is neutral
(`HostRoutine.IsNeutral`) if it restores them as far as the evaluator does with which it is run;
that way the condition is about the routine alone and not about what it is made to call.  A routine
that opens no scope, closes none and does not collect by itself is neutral
(`HostRoutine.isNeutral_of_asks`), and of the routines on offer just those are neutral that restore
the scopes wherever they can be called (`isNeutral_iff_restores`).
-/

namespace ScriptCore

open Run

namespace Machine

/-- The machines a host can come to from the start by any operations, collecting included, and by
any work on the heap. -/
inductive Attainable (config : Config) : Machine → Prop
  | start : Attainable config (Machine.start config)
  | perform {m m' : Machine} (hm : Attainable config m) (operation : Operation)
      {outcome : Except RuntimeError Unit} (hperform : operation.perform m = some (outcome, m')) :
      Attainable config m'
  | tailCall {m m' : Machine} (hm : Attainable config m) (steps : Nat) (callee : Value)
      (arguments : Arguments) {outcome : Except RuntimeError Completion}
      (hcall : ScriptCore.tailCall steps callee arguments m = some (outcome, m')) :
      Attainable config m'
  | runProgram {m m' : Machine} (hm : Attainable config m) (steps : Nat) (program : List Expr)
      {outcome : Except RuntimeError Value}
      (hrun : ScriptCore.runProgram steps program m = some (outcome, m')) : Attainable config m'
  | defineHost {m : Machine} (hm : Attainable config m) (name : String) (routine : HostRoutine) :
      Attainable config (Machine.defineHost name routine m).2
  | collect {m : Machine} (hm : Attainable config m) (roots : List Value) :
      Attainable config (Machine.collect roots m).2
  | heap {m : Machine} (hm : Attainable config m) (heap : Heap) : Attainable config { m with heap }

variable {config : Config} {m m' m'' : Machine}

/-! ## Every machine of a run occurs -/

theorem Occurs.pushRecord (hm : m.Occurs config) (name : String) (kind : RecordKind) :
    (Machine.pushRecord name kind m).2.Occurs config := by
  rw [pushRecord_eq]
  exact hm.openRecord name kind _ []

/-- A machine occurs, whatever it started from. -/
def StaysOccurring (config : Config) (_start m : Machine) : Prop :=
  m.Occurs config

/-- The steps of an evaluation lead to machines that occur. -/
theorem conservesSteps_occurs (config : Config) :
    ConservesSteps (fun _ => True) (StaysOccurring config) where
  permits _ _ _ _ := trivial
  heap hm _ := hm.heap _
  assign name value hm := hm.assign name value
  define name value hm := hm.define name value
  captures hm := hm.capture
  fails {_ _ _ name kind scope bound _} hm hfail := by
    have hopened := hm.openRecord name kind scope bound
    rwa [hfail] at hopened
  opens {_ _ _ name kind scope bound _} hm hopen := by
    have hopened := hm.openRecord name kind scope bound
    rwa [hopen] at hopened
  closes _ _ hworked := ⟨hworked.unwindTo _, hworked.popRecord _⟩
  rewinds _ hm' := hm'.unwindTo _

/-- Whatever a routine of the host asks for leads to a machine that occurs. -/
theorem respects_occurs (config : Config) (routine : HostRoutine) :
    routine.Respects (StaysOccurring config) := by
  refine HostRoutine.respects_of_asks routine.asks_true fun request _ evaluator heval m₀ m hm => ?_
  have hoccurs : m.Occurs config := hm
  cases request with
  | pushRecord name kind => exact maintains_lift (hoccurs.pushRecord name kind)
  | popRecord id => exact maintains_lift (hoccurs.popRecord id)
  | unwindTo depth => exact maintains_lift (hoccurs.unwindTo depth)
  | collect roots => exact maintains_lift (hoccurs.collect roots)
  | _ =>
      exact (conservesSteps_occurs config).maintains_perform heval
        (by simp [HostRequest.effect]) hm

theorem conserves_occurs (config : Config) :
    Conserves (fun _ => True) (StaysOccurring config) where
  toConservesSteps := conservesSteps_occurs config
  host _ := respects_occurs config _

theorem maintains_defineHost (name : String) (routine : HostRoutine) :
    (Machine.defineHost name routine).Maintains (Occurs config) :=
  .bind (fun _ hm => hm.heap _) fun function =>
    .bind (fun _ hm => hm.define name function) fun _ => .pure function

theorem Occurs.perform (hm : m.Occurs config) (operation : Operation) :
    operation.perform.Maintains m (Occurs config) := by
  have hrel := conserves_occurs config
  -- A machine that occurs stays one from itself on, which is what an evaluation conserves.
  have hself : StaysOccurring config m m := hm
  cases operation with
  | eval steps expr => exact ((Strategy.respects hrel .deferring steps).eval expr hself).discard
  | evalTail steps expr =>
      exact ((Strategy.respects hrel .deferring steps).evalTail expr hself).discard
  | call steps callee arguments =>
      exact ((Strategy.respects hrel .deferring steps).call callee arguments hself).discard
  | callMethod steps receiver name arguments =>
      exact (Strategy.maintains_callMethod hrel hself receiver name arguments steps).discard
  | defineFunction name declarations body =>
      exact (maintains_lift (hrel.maintains_defineFunction name _ body m hself)).discard
  | assign name value => exact maintains_lift (hm.assign name value)
  | define name value => exact maintains_lift (hm.define name value)
  | pushRecord name kind => exact (maintains_lift (hm.pushRecord name kind)).discard
  | popRecord id => exact maintains_lift (hm.popRecord id)
  | unwindTo depth => exact maintains_lift (hm.unwindTo depth)

theorem Attainable.occurs (hm : Attainable config m) : m.Occurs config := by
  have hrel := conserves_occurs config
  induction hm with
  | start => exact .start
  | perform _ operation hperform ih => exact ih.perform operation _ _ hperform
  | @tailCall m _ _ steps callee arguments _ hcall ih =>
      have hself : StaysOccurring config m m := ih
      exact (Strategy.respects hrel .deferring steps).tailCall callee arguments hself _ _ hcall
  | @runProgram m _ _ steps program _ hrun ih =>
      have hself : StaysOccurring config m m := ih
      have hcollect : ∀ {m₀ m : Machine} roots, StaysOccurring config m₀ m →
          StaysOccurring config m₀ (Machine.collect roots m).2 := fun roots hm => hm.collect roots
      exact Strategy.maintains_runFrom hrel hcollect hself .null program steps _ _ hrun
  | defineHost _ name routine ih => exact maintains_defineHost name routine _ ih
  | collect _ roots ih => exact ih.collect roots
  | heap _ heap ih => exact ih.heap heap

theorem Attainable.upright (hm : Attainable config m) : m.Upright config :=
  hm.occurs.upright

/-- Wherever a host can come to, with any limit and whatever it has asked for: the scope of the
program is open and is the lowest, no scope is open twice, not more are open than there may be, each
of them is live and has the number of those below it for its level, and every live record is open or
captured. -/
theorem stack_of_attainable (hm : Attainable config m) :
    m.stack.records.toList.head? = some m.program ∧
    m.stack.records.toList.Nodup ∧
    m.stack.depth ≤ max config.maxDepth 1 ∧
    (∀ position id, m.stack.records[position]? = some id →
      ∃ record, m.arena.record? id = some record ∧ record.level = position) ∧
    ∀ id record, m.arena.record? id = some record →
      id ∈ m.stack.records.toList ∨ record.captured = true := by
  have hupright := hm.upright
  exact ⟨hupright.base, hupright.nodup, hupright.depth_le, hupright.levels, hupright.held⟩

theorem Attainable.performAll (hm : Attainable config m) {operations : List Operation}
    (hperform : Machine.performAll operations m = some m') : Attainable config m' := by
  induction operations generalizing m with
  | nil =>
      obtain rfl := Option.some.inj hperform
      exact hm
  | cons operation rest ih =>
      obtain ⟨⟨outcome, next⟩, hfirst, hrest⟩ := Option.bind_eq_some_iff.1 hperform
      exact ih (hm.perform operation hfirst) hrest

/-- A captured scope outlives its closing until it is collected, and a scope for which there is no
room leaves no record. -/
theorem stack_after_collecting : ∃ worked,
    performAll [.pushRecord "scope" .function, .defineFunction "f" [] (.name "f"), .unwindTo 0,
      .pushRecord "again" .function, .pushRecord "more" .function] (start ⟨2⟩) = some worked ∧
    worked.stack.depth = 2 ∧ worked.arena.liveCount = 3 ∧
    (collect [] worked).2.arena.liveCount = 2 ∧
    ∀ id record, (collect [] worked).2.arena.record? id = some record →
      id ∈ (collect [] worked).2.stack.records.toList ∨ record.captured = true := by
  have hrun : ((performAll [.pushRecord "scope" .function, .defineFunction "f" [] (.name "f"),
      .unwindTo 0, .pushRecord "again" .function, .pushRecord "more" .function] (start ⟨2⟩)).map
      fun worked => (worked.stack.depth, worked.arena.liveCount,
        (collect [] worked).2.arena.liveCount)) = some (2, 3, 2) := by decide +kernel
  obtain ⟨worked, hworked, hcounts⟩ := Option.map_eq_some_iff.1 hrun
  obtain ⟨hdepth, hcounts⟩ := Prod.mk.inj hcounts
  obtain ⟨hlive, hcollected⟩ := Prod.mk.inj hcounts
  exact ⟨worked, hworked, hdepth, hlive, hcollected,
    (stack_of_attainable ((Attainable.start.performAll hworked).collect [])).2.2.2.2⟩

/-! ## Evaluations restore the scopes -/

/-- The same scopes are open, every record that was live still is, and every new one is captured. -/
structure Restores (m m' : Machine) : Prop extends Evolves m m' where
  new : ∀ id, m'.arena.isLive id = true → m.arena.isLive id = true ∨ m'.arena.Captured id

theorem Restores.refl (m : Machine) : m.Restores m :=
  ⟨.refl m, fun _ hlive => .inl hlive⟩

theorem restores_withHeap (m : Machine) (heap : Heap) : m.Restores { m with heap } :=
  ⟨⟨rfl, rfl, rfl, .refl _⟩, fun _ hlive => .inl hlive⟩

theorem Restores.trans (hfirst : m.Restores m') (hsecond : m'.Restores m'') : m.Restores m'' where
  toEvolves := hfirst.toEvolves.trans hsecond.toEvolves
  new id hlive := by
    rcases hsecond.new id hlive with hbefore | hcaptured
    · exact (hfirst.new id hbefore).imp_right (hsecond.records id).captured
    · exact .inr hcaptured

theorem restores_of_renews {arena : ScopeArena} (harena : m.arena.Renews arena) :
    m.Restores { m with arena } :=
  ⟨⟨rfl, rfl, rfl, harena.persists⟩, fun id hlive => .inl (harena.old id hlive)⟩

/-- Whatever opens a scope, restores the scopes in it and closes it again restores the scopes. -/
theorem Opens.restores_of_closes {opened worked closed : Machine} {id : RecordId}
    {before after : Record} (hopens : m.Opens id before opened) (hworked : opened.Restores worked)
    (hafter : worked.arena.record? id = some after) (hcloses : worked.Closes id after closed) :
    m.Restores closed where
  toEvolves := hopens.evolves_of_closes hworked.toEvolves hcloses
  new other hlive := by
    obtain ⟨held, hheld⟩ := ScopeArena.isLive_iff.1 hlive
    have hworked? : worked.arena.record? other = some held ∧
        ¬ (other = id ∧ after.captured = false) := by
      rw [hcloses.arena] at hheld
      split at hheld
      · nomatch hheld
      · exact ⟨hheld, ‹_›⟩
    -- What is captured within the scope is captured after it was closed.
    have hcaptured : held.captured = true → closed.arena.Captured other := fun hyes =>
      ⟨held, hheld, hyes⟩
    rcases hworked.new other (ScopeArena.isLive_of_record? hworked?.1) with hopened | hyes
    · by_cases hother : other = id
      · subst other
        obtain rfl : after = held := Option.some.inj (hafter.symm.trans hworked?.1)
        exact .inr (hcaptured (by simpa using hworked?.2))
      · rw [ScopeArena.isLive, hopens.arena, if_neg hother] at hopened
        exact .inl hopened
    · obtain ⟨held', hheld', hyes⟩ := hyes
      obtain rfl : held = held' := Option.some.inj (hworked?.1.symm.trans hheld')
      exact .inr (hcaptured hyes)

/-- The scopes are as at the start but for what was captured, and the routines of the host that the
heap may have are of some kind. -/
structure Tended (config : Config) (allowed : HostRoutine → Prop) (start m : Machine) : Prop where
  upright : m.Upright config
  restores : start.Restores m
  permits : m.heap.Permits allowed

end Machine

open Machine in
/-- A routine of the host restores the scopes as far as what it has evaluated does. -/
def HostRoutine.IsNeutral (routine : HostRoutine) : Prop :=
  ∀ config allowed, routine.Respects (Tended config allowed)

namespace Machine

variable {config : Config} {allowed : HostRoutine → Prop} {m m' m'' : Machine}

theorem Tended.renew {start : Machine} (hm : Tended config allowed start m) {arena : ScopeArena}
    (harena : m.arena.Renews arena) : Tended config allowed start { m with arena } :=
  ⟨hm.upright.withArena harena, hm.restores.trans (restores_of_renews harena), hm.permits⟩

/-- The steps of an evaluation conserve that the scopes are restored. -/
theorem conservesSteps_tended (config : Config) (allowed : HostRoutine → Prop) :
    ConservesSteps allowed (Tended config allowed) where
  permits hm := hm.permits
  heap {_ m heap} hm hheap :=
    ⟨hm.upright.withHeap heap, hm.restores.trans (restores_withHeap m heap), hheap⟩
  assign name value hm := hm.renew (hm.upright.tidy.renews_assign _ name value)
  define name value hm := hm.renew (hm.upright.tidy.renews_define _ name value)
  captures hm := hm.renew (hm.upright.tidy.renews_capture _)
  fails hm hfail := by
    obtain ⟨arena, rfl, harena⟩ := renews_of_openRecord hm.upright.tidy hfail
    exact hm.renew harena
  opens hm hopen := by
    obtain ⟨record, hopens, hopened⟩ := hm.upright.opens hopen
    refine ⟨hopened, .refl _, ?_⟩
    rw [hopens.heap]
    exact hm.permits
  closes {m₀ _ _ _ _ _ _ _ _} hm hopen hworked := by
    obtain ⟨record, hopens, -⟩ := hm.upright.opens hopen
    obtain ⟨after, closed, hunwind, hpop, hafter, hcloses, hclosed⟩ :=
      hm.upright.close hopens hworked.upright hworked.restores.stack
    have htended : Tended config allowed m₀ closed := by
      refine ⟨hclosed,
        hm.restores.trans (hopens.restores_of_closes hworked.restores hafter hcloses), ?_⟩
      rw [hcloses.heap]
      exact hworked.permits
    rw [hunwind, hpop]
    exact ⟨htended, htended⟩
  rewinds {_ m m'} hm hm' := by
    -- The scopes are the same ones, so there is nothing to close.
    have hdepth : m'.stack.depth ≤ max m.stack.depth 1 := by
      rw [hm'.restores.stack, ← hm.restores.stack]
      exact Nat.le_max_left _ _
    rw [unwindTo_of_depth_le hdepth]
    exact hm'

theorem conserves_tended (config : Config)
    (hallowed : ∀ {routine : HostRoutine}, allowed routine → routine.IsNeutral) :
    Conserves allowed (Tended config allowed) where
  toConservesSteps := conservesSteps_tended config _
  host hroutine := hallowed hroutine config _

theorem Attainable.tended (hm : Attainable config m) (hheap : m.heap.Permits allowed) :
    Tended config allowed m m :=
  ⟨hm.upright, .refl m, hheap⟩

/-! ### Which routines of the host are neutral -/

end Machine

namespace HostRoutine

variable {routine : HostRoutine}

/-- A routine is neutral if by itself it opens no scope, closes none and does not collect. -/
theorem isNeutral_of_asks (hroutine : routine.Asks (·.effect ∈ [.nothing, .assigns, .binds])) :
    routine.IsNeutral :=
  fun config allowed => respects_of_asks hroutine fun _ heffect _ heval _ _ hm =>
    (Machine.conservesSteps_tended config allowed).maintains_perform heval heffect hm

theorem isNeutral_of_offered {name : String} (hoffered : (name, routine) ∈ offered)
    (hname : name ∉ ["collect", "push", "unwind"]) : routine.IsNeutral :=
  isNeutral_of_asks ((asks_nothing_of_offered hoffered hname).mono fun _ heffect => by
    simp [heffect])

theorem isNeutral_count : count.IsNeutral :=
  isNeutral_of_offered count_offered (by decide)

end HostRoutine

namespace Machine

variable {config : Config} {m m' : Machine}

/-- A neutral routine restores the scopes wherever a host can call it. -/
theorem restores_of_isNeutral {routine : HostRoutine} (hroutine : routine.IsNeutral)
    (hm : Attainable config m) (hheap : m.heap.Permits HostRoutine.IsNeutral) (steps : Nat)
    (name : String) (arguments : Arguments) :
    (Strategy.deferring.callHost steps name routine arguments).Maintains m m.Restores := by
  intro outcome m' hcall
  have hrun := Strategy.respects (conserves_tended config id) .deferring steps
  exact (hrun.callHost name routine arguments hroutine (hm.tended hheap) _ _ hcall).restores

/-- A host has opened a scope, has defined a function in it, has done more and has emptied the
heap. -/
def afterOpening (operations : List Operation) : Option Machine :=
  (performAll ([.pushRecord "scope" .function, .defineFunction "f" [] (.name "f")] ++ operations)
    (start ⟨4⟩)).map fun m => { m with heap := .empty }

theorem attainable_of_afterOpening {operations : List Operation}
    (hm : afterOpening operations = some m) :
    Attainable ⟨4⟩ m ∧ m.heap.Permits HostRoutine.IsNeutral := by
  obtain ⟨worked, hworked, rfl⟩ := Option.map_eq_some_iff.1 hm
  exact ⟨(Attainable.start.performAll hworked).heap .empty,
    Heap.permits_empty HostRoutine.isNeutral_count⟩

/-- There are as many open scopes as before, and if the first one that was opened was live it still
is. -/
def keepsOpened (m m' : Machine) : Bool :=
  m'.stack.depth == m.stack.depth && (!m.arena.isLive ⟨1, 0⟩ || m'.arena.isLive ⟨1, 0⟩)

theorem Restores.keepsOpened (hrestores : m.Restores m') : m.keepsOpened m' = true := by
  rw [Machine.keepsOpened, hrestores.stack]
  cases hlive : m.arena.isLive ⟨1, 0⟩
  · simp
  · simp [(hrestores.records _).isLive hlive]

/-- A routine on offer that opens scopes, closes scopes or collects, called where a host can come
to, does not restore the scopes. -/
theorem exists_not_keepsOpened {name : String} {routine : HostRoutine}
    (hoffered : (name, routine) ∈ HostRoutine.offered)
    (hname : name ∈ ["collect", "push", "unwind"]) :
    ∃ operations arguments, ((afterOpening operations).bind fun m =>
      (Strategy.deferring.callHost 1 name routine arguments m).map fun result =>
        m.keepsOpened result.2) = some false := by
  simp only [List.mem_cons, List.not_mem_nil, or_false] at hname
  rcases hname with rfl | rfl | rfl
  · obtain rfl : routine = .collect := by simpa [HostRoutine.offered] using hoffered
    exact ⟨[.unwindTo 0], ⟨[], []⟩, by decide +kernel⟩
  · obtain rfl : routine = .push := by simpa [HostRoutine.offered] using hoffered
    exact ⟨[], ⟨[.string "s"], []⟩, by decide +kernel⟩
  · obtain rfl : routine = .unwind := by simpa [HostRoutine.offered] using hoffered
    exact ⟨[], ⟨[.integer 0], []⟩, by decide +kernel⟩

/-- Of the routines on offer those are neutral that restore the scopes wherever a host can call
them. -/
theorem isNeutral_iff_restores {name : String} {routine : HostRoutine}
    (hoffered : (name, routine) ∈ HostRoutine.offered) :
    routine.IsNeutral ↔ ∀ config m, Attainable config m → m.heap.Permits HostRoutine.IsNeutral →
      ∀ steps name arguments,
        (Strategy.deferring.callHost steps name routine arguments).Maintains m m.Restores := by
  refine ⟨fun hroutine config m hm hheap => restores_of_isNeutral hroutine hm hheap,
    fun hrestores => ?_⟩
  by_cases hname : name ∈ ["collect", "push", "unwind"]
  · obtain ⟨operations, arguments, hrun⟩ := exists_not_keepsOpened hoffered hname
    obtain ⟨m, hm, hrun⟩ := Option.bind_eq_some_iff.1 hrun
    obtain ⟨⟨outcome, m'⟩, hcall, hkeeps⟩ := Option.map_eq_some_iff.1 hrun
    obtain ⟨hattainable, hheap⟩ := attainable_of_afterOpening hm
    have hkept := (hrestores _ m hattainable hheap 1 _ arguments outcome m' hcall).keepsOpened
    rw [hkept] at hkeeps
    exact absurd hkeeps nofun
  · exact HostRoutine.isNeutral_of_offered hoffered hname

/-! ### Every run -/

/-- **An evaluation restores the scopes**, whatever it evaluates and whatever comes of it, a value
or an error of any kind: the same scopes are open as before, every record that was live still is,
and the records it has made are captured or were freed.  It is only asked that the routines of the
host restore the scopes themselves as far as what they have evaluated does. -/
theorem restores_of_attainable (hm : Attainable config m)
    (hheap : m.heap.Permits HostRoutine.IsNeutral) (steps : Nat) :
    (∀ expr, (eval steps expr).Maintains m m.Restores) ∧
    (∀ expr, (evalTail steps expr).Maintains m m.Restores) ∧
    (∀ callee arguments, (call steps callee arguments).Maintains m m.Restores) ∧
    ∀ receiver name arguments,
      (callMethod steps receiver name arguments).Maintains m m.Restores := by
  have hrel := conserves_tended config id
  have hself := hm.tended hheap
  have hrun := Strategy.respects hrel .deferring steps
  -- What is conserved says more than that the scopes are restored, for the induction needs an
  -- upright machine and neutral routines throughout.
  have hrestores : ∀ {α : Type} {run : Run α},
      run.Maintains m (Tended config HostRoutine.IsNeutral m) → run.Maintains m m.Restores :=
    fun hrun outcome m' hresult =>
    (hrun outcome m' hresult).restores
  exact ⟨fun expr => hrestores (hrun.eval expr hself),
    fun expr => hrestores (hrun.evalTail expr hself),
    fun callee arguments => hrestores (hrun.call callee arguments hself),
    fun receiver name arguments => hrestores
      (Strategy.maintains_callMethod hrel hself receiver name arguments steps)⟩

/-- The machine of a host that offers a way to call functions. -/
def applying : Machine :=
  (defineHost "apply" .apply (start ⟨4⟩)).2

/-- A function that calls itself until the stack is full, and a handler of that error that fails
itself after it has defined a function. -/
def recurring : Expr :=
  .handle
    (.call (.name "apply") [.function "f" [] (.unary .not (.call (.name "f") [] [])) none] [])
    "err"
    (.block [.function "g" [] (.name "err") none,
      .raise "again" (.getAttribute (.name "err") "kind")])

/-- The scopes of the calls are gone; that of the handler is held by the function. -/
theorem restores_recurring : ∃ outcome m',
    eval 30 recurring applying = some (outcome, m') ∧ outcome.toOption.isNone = true ∧
    applying.arena.liveCount = 1 ∧ m'.arena.liveCount = 2 ∧ applying.Restores m' := by
  have hattainable : Attainable ⟨4⟩ applying := Attainable.start.defineHost "apply" .apply
  have hheap : applying.heap.Permits HostRoutine.IsNeutral := by
    have hoffered : ("apply", HostRoutine.apply) ∈ HostRoutine.offered := by
      simp [HostRoutine.offered]
    refine (Heap.permits_empty HostRoutine.isNeutral_count).newFunction "apply" _
      fun routine hroutine => ?_
    rw [← Callable.host.inj hroutine]
    exact HostRoutine.isNeutral_of_offered hoffered (by decide)
  have hrun : ((eval 30 recurring applying).map fun result =>
      (result.1.toOption.isNone, result.2.arena.liveCount)) = some (true, 2) := by decide +kernel
  obtain ⟨⟨outcome, m'⟩, heval, hresult⟩ := Option.map_eq_some_iff.1 hrun
  obtain ⟨hfailed, hlive⟩ := Prod.mk.inj hresult
  exact ⟨outcome, m', heval, hfailed, by decide +kernel, hlive,
    (restores_of_attainable hattainable hheap 30).1 recurring outcome m' heval⟩

end Machine

end ScriptCore
