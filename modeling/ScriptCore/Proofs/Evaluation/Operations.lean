import ScriptCore.Proofs.Evaluation.Soundness

/-!
# Runs of operations

A host works on a machine by operations: it has expressions evaluated and values called, it defines
functions, binds names and opens and closes scopes, in whatever order and whatever comes of each.
Between them it works on containers of its own.  `Reachable` says what machines this can come to
when nothing is collected.

All of them are intact (`intact_of_reachable`): nothing that is freed when its scope is closed is
needed afterwards.  Each operation keeps the machine sound, and a sound machine is intact.

Collections are left out because they are where things can be lost: what the collector overlooks is
freed although it is needed, and the machine is then sound only for what remains.  That is the
subject of `ScriptCore.Proofs.Machine.Needed` and `ScriptCore.Proofs.Evaluation.Sessions`.
-/

namespace ScriptCore

/-- The containers are such as their own operations leave them. -/
structure Heap.WellFormed (h : Heap) : Prop where
  list : ∀ address, ∃ items, (h.list address).Holds items
  dict : ∀ address, ∃ rows, (h.dict address).Holds hashText rows
  module : ∀ address, (h.module address).Sound fun _ => True
  struct : ∀ address, (h.struct address).fields.Valid

theorem Heap.wellFormed_empty : Heap.empty.WellFormed where
  list _ := ⟨[], ResizableArray.holds_empty⟩
  dict _ := ⟨[], HashTable.holds_empty⟩
  module _ := Module.sound_default
  struct _ := NameTable.valid_empty

namespace Machine

/-- What a host can ask of a machine. -/
inductive Operation
  | eval (steps : Nat) (expr : Expr)
  | evalTail (steps : Nat) (expr : Expr)
  | call (steps : Nat) (callee : Value) (arguments : Arguments)
  | callMethod (steps : Nat) (receiver : Value) (name : String) (arguments : Arguments)
  | defineFunction (name : String) (declarations : List (String × ParameterDefault)) (body : Expr)
  | assign (name : String) (value : Value)
  | define (name : String) (value : Value)
  | pushRecord (name : String) (kind : RecordKind)
  | popRecord (id : RecordId)
  | unwindTo (depth : Nat)

/-- Carries out an operation; its result is left aside. -/
def Operation.perform : Operation → Run Unit
  | eval steps expr => discard <| ScriptCore.eval steps expr
  | evalTail steps expr => discard <| ScriptCore.evalTail steps expr
  | call steps callee arguments => discard <| ScriptCore.call steps callee arguments
  | callMethod steps receiver name arguments =>
    discard <| ScriptCore.callMethod steps receiver name arguments
  | defineFunction name declarations body =>
    discard (Machine.defineFunction name (.ofList declarations) body : Run Value)
  | assign name value => Machine.assign name value
  | define name value => Machine.define name value
  | pushRecord name kind => discard (Machine.pushRecord name kind : Run RecordId)
  | popRecord id => Machine.popRecord id
  | unwindTo depth => Machine.unwindTo depth

/-- Carries out operations one after the other, whatever their outcomes. -/
def performAll : List Operation → Machine → Option Machine
  | [], m => some m
  | operation :: rest, m => do
    let (_, m) ← operation.perform m
    performAll rest m

/-- The machines a host can come to from the start, without collecting and without making functions
in any other way. -/
inductive Reachable : Machine → Prop
  | start (config : Config) : Reachable (Machine.start config)
  | step {m m' : Machine} (hm : Reachable m) (operation : Operation)
      {outcome : Except RuntimeError Unit}
      (hperform : operation.perform m = some (outcome, m')) : Reachable m'
  | containers {m : Machine} {heap : Heap} (hm : Reachable m) (hheap : heap.WellFormed)
      (hfunctions : heap.functions = m.heap.functions) : Reachable { m with heap }

/-- Nothing that is still needed was freed. -/
structure Intact (m : Machine) : Prop where
  /-- Every open scope is live. -/
  stack : ∀ id ∈ m.stack.records.toList, m.arena.isLive id = true
  /-- A link leads to a live record that binds the name itself. -/
  owned : ∀ id record name owner, m.arena.record? id = some record →
    record.member? name = some (.link owner) → m.arena.Owns owner name
  /-- What a captured record links to is captured. -/
  closed : ∀ id record name owner, m.arena.record? id = some record → record.captured = true →
    record.member? name = some (.link owner) → m.arena.Captured owner
  /-- The scope a function was defined in is live and captured. -/
  scopes : ∀ address scope body, (m.heap.function address).callable = .closure scope body →
    m.arena.Captured scope

variable {m : Machine}

theorem Sound.intact {usable : Value → Prop} (hm : m.Sound usable)
    (husable : ∀ address, usable (.function address)) : m.Intact where
  stack := hm.arena.stack_live
  owned id record name owner hrecord hlink :=
    (hm.arena.records id record hrecord).owned name owner hlink
  closed id record name owner hrecord hyes hlink :=
    (hm.arena.records id record hrecord).closed hyes name owner hlink
  scopes address scope body hcallable :=
    (hm.heap.function address (husable address)).scope scope body hcallable

/-! ## What one operation does -/

/-- Any value may be used. -/
abbrev Anything : Value → Prop := fun _ => True

theorem fit_anything (expr : Expr) : expr.Fit Anything :=
  fun _ _ => trivial

theorem arguments_anything (arguments : Arguments) : arguments.Fit Anything :=
  ⟨fun _ _ => trivial, fun _ _ => trivial⟩

theorem keeps_of_later {α : Type} {usable : Value → Prop} {good : α → Prop} {run : Run α}
    (hrun : run.Keeps m (Later usable m) good) :
    (discard run : Run PUnit).Keeps m (Sound usable) fun _ => True :=
  hrun.discard.mono (fun _ hm' => hm'.sound) fun _ _ => trivial

/-- An operation keeps the machine sound and does not meet a dead record. -/
theorem Sound.perform (hm : m.Sound Anything) (operation : Operation) :
    operation.perform.Keeps m (Sound Anything) fun _ => True := by
  have hlater := hm.later
  cases operation with
  | eval steps expr =>
      exact keeps_of_later ((Strategy.preserves _ _ steps).eval hlater (fit_anything expr))
  | evalTail steps expr =>
      exact keeps_of_later ((Strategy.preserves _ _ steps).evalTail hlater (fit_anything expr))
  | call steps callee arguments =>
      exact keeps_of_later
        ((Strategy.preserves _ _ steps).call hlater trivial (arguments_anything arguments))
  | callMethod steps receiver name arguments =>
      exact keeps_of_later
        (Strategy.keeps_callMethod hlater trivial name (arguments_anything arguments) steps)
  | defineFunction name declarations body =>
      have hparameters : (Parameters.ofList declarations).Fit Anything :=
        Parameters.fit_ofList fun _ _ _ => trivial
      exact keeps_of_later
        (Run.keeps_lift hlater (keeps_defineFunction name hparameters (fit_anything body)))
  | assign name value =>
      exact (Run.keeps_lift hlater (keeps_assign name trivial)).mono (fun _ hm' => hm'.sound)
        fun _ _ => trivial
  | define name value =>
      exact (Run.keeps_lift hlater (keeps_define name trivial)).mono (fun _ hm' => hm'.sound)
        fun _ _ => trivial
  | pushRecord name kind =>
      have hpush : (liftM (Machine.pushRecord name kind) : Run RecordId).Keeps m (Sound Anything)
          fun _ => True := by
        -- A scope may not open for want of room; either way the machine is sound.
        obtain ⟨rest, current, -, hcurrent⟩ := hm.exists_top
        rcases hm.openRecord (setsUp_pushRecord name kind hcurrent) with
          ⟨id, opened, hopen, hsound, -⟩ | ⟨-, id, after, hopen, hsound, -⟩
        · exact Run.keeps_lift_of_eq hopen hsound trivial
        · exact Run.keeps_lift_of_eq hopen hsound nofun
      exact hpush.discard
  | popRecord id =>
      obtain ⟨m', hpop, hsound⟩ := hm.popRecord id
      exact Run.keeps_lift_of_eq hpop hsound trivial
  | unwindTo depth =>
      obtain ⟨m', hunwind, hsound⟩ := hm.unwindTo depth
      exact Run.keeps_lift_of_eq hunwind hsound trivial

/-! ## What a whole run does -/

theorem Sound.withContainers {captured : RecordId → Prop} {h heap : Heap}
    (hh : h.Sound Anything captured) (hheap : heap.WellFormed)
    (hfunctions : heap.functions = h.functions) : heap.Sound Anything captured where
  unmade _ _ := trivial
  list address _ := by
    obtain ⟨items, hitems⟩ := hheap.list address
    exact ⟨items, hitems, fun _ _ => trivial⟩
  dict address _ := by
    obtain ⟨rows, hrows⟩ := hheap.dict address
    exact ⟨rows, hrows, fun _ _ => ⟨trivial, trivial⟩⟩
  module address _ := hheap.module address
  struct address _ := ⟨hheap.struct address, fun _ _ => trivial⟩
  function address _ := by
    rw [Heap.function, hfunctions]
    exact hh.function address trivial

theorem Reachable.performAll (hm : Reachable m) {operations : List Operation} {m' : Machine}
    (hperform : Machine.performAll operations m = some m') : Reachable m' := by
  induction operations generalizing m with
  | nil =>
      obtain rfl := Option.some.inj hperform
      exact hm
  | cons operation rest ih =>
      obtain ⟨⟨outcome, next⟩, hfirst, hrest⟩ := Option.bind_eq_some_iff.1 hperform
      exact ih (hm.step operation hfirst) hrest

theorem sound_of_reachable (hm : Reachable m) : m.Sound Anything := by
  induction hm with
  | start config => exact sound_start config fun _ => Heap.sound_empty fun _ => trivial
  | step _ operation hperform ih => exact (ih.perform operation _ _ hperform).1
  | containers _ hheap hfunctions ih =>
      exact ⟨ih.arena, Sound.withContainers ih.heap hheap hfunctions, ih.base⟩

/-- Freeing the record of a scope as soon as the scope is closed is safe: wherever a host can come
to without collecting, nothing that is still needed was freed, and nothing it can ask for meets a
dead record. -/
theorem intact_of_reachable (hm : Reachable m) :
    m.Intact ∧ ∀ (operation : Operation) outcome m', operation.perform m = some (outcome, m') →
      m'.Intact ∧ ∀ index, outcome ≠ .error (.deadRecord index) := by
  have hsound := sound_of_reachable hm
  refine ⟨hsound.intact fun _ => trivial, fun operation outcome m' hperform => ?_⟩
  obtain ⟨hafter, hcalm⟩ := hsound.perform operation outcome m' hperform
  exact ⟨hafter.intact fun _ => trivial, hcalm.ne_deadRecord⟩

/-- A function that was defined in a scope keeps the scope after it was closed. -/
theorem intact_after_closing : ∃ closed,
    performAll [.pushRecord "scope" .function, .defineFunction "f" [] (.name "f"), .unwindTo 1]
      (start ⟨2⟩) = some closed ∧
    closed.stack.depth = 1 ∧ closed.arena.liveCount = 2 ∧ closed.Intact := by
  have hrun : ((performAll [.pushRecord "scope" .function, .defineFunction "f" [] (.name "f"),
      .unwindTo 1] (start ⟨2⟩)).map fun closed => (closed.stack.depth, closed.arena.liveCount)) =
      some (1, 2) := by decide +kernel
  obtain ⟨closed, hclosed, hcounts⟩ := Option.map_eq_some_iff.1 hrun
  obtain ⟨hdepth, hlive⟩ := Prod.mk.inj hcounts
  exact ⟨closed, hclosed, hdepth, hlive,
    (intact_of_reachable ((Reachable.start ⟨2⟩).performAll hclosed)).1⟩

end Machine

end ScriptCore
