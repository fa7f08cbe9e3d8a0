import ScriptCore.Proofs.Evaluation.Rules
import ScriptCore.Proofs.Machine.Handler

/-!
# Calls and scopes that cannot start

A call whose arguments do not fit stops before a record is made for it.  A call or a scope for which
there is no room on the stack has a record already, with its links and parameters, which has to be
given back.  Either way nothing is left of it (`Machine.NoTrace`): what differs from before are the
numbers of records made and freed, both by one, and the vacant slot that was used in between.

`Machine.Refuses` lists what keeps a call from starting.  Wherever a machine occurs, a call that is
refused comes to that error without a trace, and so does one that was handed back by the body of a
function and is made in its place (`Occurs.settles_of_refuses`).

A container method is refused by the count of its arguments and a template by binding them; neither
makes a record, so the machine is the same as before.  A function is refused by binding its
arguments or by the opening of its scope, which fails if the stack is full or the scope that it was
defined in is gone.
-/

namespace ScriptCore

open Run

namespace Machine

variable {config : Config} {m m' : Machine}

/-! ## The arena of a machine that occurs -/

/-- What is done to the arena alone. -/
theorem maintains_onArena {α : Type} {attempt : Attempt ScopeArena α} {inv : ScopeArena → Prop}
    (hattempt : attempt.Maintains inv) : (onArena attempt).Maintains fun m => inv m.arena :=
  fun m hm => hattempt m.arena hm

theorem maintains_setUpCall (scope : RecordId) (bound : List (String × Value)) (id : RecordId) :
    (setUpCall scope bound id).Maintains ScopeArena.Occurs := by
  unfold setUpCall
  refine .bind (fun a ha => ha.perform (.appendRecords id scope)) fun _ => ?_
  exact .forM bound fun entry a ha => ha.perform (.define id entry.1 entry.2)

theorem maintains_releaseRecord (id : RecordId) :
    (releaseRecord id).Maintains fun m => m.arena.Occurs :=
  maintains_onArena fun _ ha => ha.release id

theorem maintains_pushOnStack (id : RecordId) :
    (pushOnStack id).Maintains fun m => m.arena.Occurs := by
  intro m hm
  rw [pushOnStack_on, CallStack.push]
  cases hrecord : m.arena.record? id with
  | none => simpa [ScopeArena.get, hrecord] using hm
  | some record =>
      have hlevel := ScopeArena.Occurs.update hm id fun record =>
        { record with level := m.stack.depth }
      rw [ScopeArena.update_of_record? hrecord] at hlevel
      simp only [ScopeArena.get_of_record? hrecord]
      split
      · exact hm
      · exact hlevel

theorem maintains_openRecord (record : Record) {setUp : RecordId → Attempt ScopeArena Unit}
    (hsetUp : ∀ id, (setUp id).Maintains ScopeArena.Occurs) :
    (Machine.openRecord record setUp).Maintains fun m => m.arena.Occurs := by
  unfold Machine.openRecord
  refine .bind (maintains_onArena fun a ha => ha.alloc record) fun id => ?_
  refine .bind (.tryCatch ?_ fun err => ?_) fun _ => .pure _
  · exact .bind (maintains_onArena (hsetUp id)) fun _ => maintains_pushOnStack id
  · exact .bind (.discard (maintains_releaseRecord id)) fun _ => .throw err

theorem maintains_closeTop : closeTop.Maintains fun m => m.arena.Occurs :=
  .bind (fun _ hm => hm) fun id => .discard (maintains_releaseRecord id)

theorem maintains_closeScopes (count : Nat) :
    (closeScopes count).Maintains fun m => m.arena.Occurs := by
  induction count with
  | zero => exact .pure ()
  | succ count ih => exact .bind maintains_closeTop fun _ => ih

/-- The arena of a machine that occurs is one that its operations build. -/
theorem Occurs.arena (hm : m.Occurs config) : m.arena.Occurs := by
  induction hm with
  | start => exact ScopeArena.Occurs.empty.alloc _
  | heap _ heap ih => exact ih
  | assign _ name value ih => exact ih.assign _ name value
  | define _ name value ih => exact ih.perform (.define _ name value)
  | capture _ ih => exact ih.capture _
  | openRecord _ name kind scope bound ih =>
      exact maintains_openRecord _ (maintains_setUpCall scope bound) _ ih
  | unwindTo _ depth ih => exact maintains_closeScopes _ _ ih
  | collect _ roots ih =>
      rw [collect_on]
      exact ih.collect _ _ roots
  | lock _ id locked ih => exact ih.update id _

/-! ## Without a trace -/

/-- Nothing but the arena differs, and of the arena nothing but vacant slots, their order and the
numbers of records made and freed, by as much as each other. -/
structure NoTrace (m m' : Machine) : Prop where
  rest_eq : m' = { m with arena := m'.arena }
  record?_eq : ∀ id, m'.arena.record? id = m.arena.record? id
  /-- A slot with a record is a slot of both. -/
  slot_iff : ∀ (index : Nat) (slot : Slot), slot.record.isSome = true →
    (m'.arena.slots[index]? = some slot ↔ m.arena.slots[index]? = some slot)
  liveCount_eq : m'.arena.liveCount = m.arena.liveCount
  /-- As many records more were made as freed. -/
  balance_eq : m'.arena.allocated + m.arena.reclaimed = m.arena.allocated + m'.arena.reclaimed

end Machine

namespace ScopeArena

variable {a b : ScopeArena}

theorem SameRecords.liveCount_eq (hab : a.SameRecords b) : b.liveCount = a.liveCount := by
  have hoccupied : b.occupied = a.occupied := by
    ext index
    rw [mem_occupied_iff, mem_occupied_iff]
    refine exists_congr fun generation => ?_
    have hstate : ∀ c : ScopeArena, c.isLive ⟨index, generation⟩ = true ↔
        c.stateAt index = some (generation, true) := fun _ => isLive_iff_stateAt
    rw [← hstate, ← hstate, isLive, isLive, hab.record?_eq]
  rw [liveCount_eq_card, liveCount_eq_card, hoccupied]

/-- Where there are no marks, a slot with a record is known from the record. -/
theorem slot_iff_record? (ha : a.Unmarked) {index : Nat} {slot : Slot} {record : Record}
    (hrecord : slot.record = some record) :
    a.slots[index]? = some slot ↔
      slot.marked = false ∧ a.record? ⟨index, slot.generation⟩ = some record := by
  rw [record?_eq_some_iff]
  constructor
  · intro hslot
    exact ⟨ha slot (Array.mem_of_getElem? hslot), slot, hslot, rfl, hrecord⟩
  · rintro ⟨hunmarked, other, hother, hgeneration, hheld⟩
    have hsame : other = slot := by
      obtain ⟨generation, held, marked⟩ := slot
      obtain ⟨generation', held', marked'⟩ := other
      have hunmarked' := ha _ (Array.mem_of_getElem? hother)
      simp_all
    exact hsame ▸ hother

end ScopeArena

namespace Machine

variable {config : Config} {m : Machine} {arena : ScopeArena}

theorem noTrace_of_sameRecords (hm : m.Occurs config) (hafter : Occurs config { m with arena })
    (hsame : m.arena.SameRecords arena) : m.NoTrace { m with arena } where
  rest_eq := rfl
  record?_eq := hsame.record?_eq
  slot_iff index slot hslot := by
    obtain ⟨record, hrecord⟩ := Option.isSome_iff_exists.1 hslot
    rw [ScopeArena.slot_iff_record? hafter.arena.unmarked hrecord,
      ScopeArena.slot_iff_record? hm.arena.unmarked hrecord, hsame.record?_eq]
  liveCount_eq := hsame.liveCount_eq
  balance_eq := by
    have hbefore := hm.arena.accounted.allocated_eq
    have hlater := hafter.arena.accounted.allocated_eq
    have hlive := hsame.liveCount_eq
    dsimp only at hlater ⊢
    omega

theorem Occurs.noTrace_self (hm : m.Occurs config) : m.NoTrace m :=
  noTrace_of_sameRecords hm hm hm.upright.tidy.same_self

/-! ## Scopes that cannot be opened -/

/-- A scope that is not opened leaves no trace. -/
theorem Occurs.openRecord_error (hm : m.Occurs config) {name : String} {kind : RecordKind}
    {scope : RecordId} {bound : List (String × Value)} {err : RuntimeError} {m' : Machine}
    (hfail : Machine.openRecord (.fresh name kind) (setUpCall scope bound) m = (.error err, m')) :
    m.NoTrace m' := by
  have hafter := hm.openRecord name kind scope bound
  rcases openRecord_exact hm.upright.tidy name kind scope bound with
    ⟨id, record, opened, hopen, -⟩ | ⟨err', arena, hfail', hsame, -⟩
  · nomatch hfail.symm.trans hopen
  · rw [hfail'] at hfail hafter
    obtain ⟨-, rfl⟩ := Prod.mk.inj hfail
    exact noTrace_of_sameRecords hm hafter hsame

/-! ## What keeps a call from starting -/

/-- What keeps a call from starting, with the error that it then comes to. -/
inductive Refuses (m : Machine) : Value → Arguments → RuntimeError → Prop
  /-- The parameters of a function do not take the arguments. -/
  | parameters {address : Address} {scope : RecordId} {body : Expr} {arguments : Arguments}
      {err : RuntimeError} (hcallable : (m.heap.function address).callable = .closure scope body)
      (hbound : (m.heap.function address).parameters.bind (m.heap.function address).name arguments =
        .error err) :
      Refuses m (.function address) arguments err
  /-- The scope of the call cannot be opened. -/
  | opening {address : Address} {scope : RecordId} {body : Expr} {arguments : Arguments}
      {bound : List (String × Value)} {err : RuntimeError}
      (hcallable : (m.heap.function address).callable = .closure scope body)
      (hbound : (m.heap.function address).parameters.bind (m.heap.function address).name arguments =
        .ok bound)
      (hopen : (openFunctionRecord (m.heap.function address).name scope bound m).1 = .error err) :
      Refuses m (.function address) arguments err
  /-- A method of a list does not take as many arguments. -/
  | listMethod {address receiver : Address} {method : ListMethod} {arguments : Arguments}
      {err : RuntimeError}
      (hcallable : (m.heap.function address).callable = .listMethod method receiver)
      (hcount : arguments.checkCount method.qualifiedName method.parameterNames.length
        method.parameterNames.length = .error err) :
      Refuses m (.function address) arguments err
  /-- A method of a dict does not take as many arguments. -/
  | dictMethod {address receiver : Address} {method : DictMethod} {arguments : Arguments}
      {err : RuntimeError}
      (hcallable : (m.heap.function address).callable = .dictMethod method receiver)
      (hcount : arguments.checkCount method.qualifiedName method.requiredNames.length
        (method.requiredNames.length + method.optionalNames.length) = .error err) :
      Refuses m (.function address) arguments err
  /-- The template of a module does not take the arguments. -/
  | template {address : Address} {template : Parameters} {arguments : Arguments}
      {err : RuntimeError} (htemplate : (m.heap.module address).template = some template)
      (hbound : template.bind (m.heap.module address).name arguments = .error err) :
      Refuses m (.module address) arguments err

/-- The scope of a call is opened as any other. -/
theorem openFunctionRecord_eq_error_iff {name : String} {scope : RecordId}
    {bound : List (String × Value)} {err : RuntimeError} {m' : Machine} :
    openFunctionRecord name scope bound m = (.error err, m') ↔
      Machine.openRecord (.fresh name .function) (setUpCall scope bound) m = (.error err, m') := by
  rw [openFunctionRecord, Attempt.discard_on]
  rcases Machine.openRecord (.fresh name .function) (setUpCall scope bound) m with
    ⟨_ | id, opened⟩
  · constructor
    · rintro ⟨⟩
      rfl
    · rintro ⟨⟩
      rfl
  · constructor <;> rintro ⟨⟩

/-- Where there is no room on the stack, a call of a function is refused. -/
theorem Occurs.refuses_of_isFull (hm : m.Occurs config) (hfull : m.stack.isFull = true)
    {address : Address} {scope : RecordId} {body : Expr} {arguments : Arguments}
    {bound : List (String × Value)}
    (hcallable : (m.heap.function address).callable = .closure scope body)
    (hbound : (m.heap.function address).parameters.bind (m.heap.function address).name arguments =
      .ok bound) :
    ∃ err, m.Refuses (.function address) arguments err ∧ (m.arena.isLive scope = true →
      err = .depthExceeded m.stack.limit (m.heap.function address).name) := by
  rcases openRecord_exact hm.upright.tidy (m.heap.function address).name .function scope bound with
    ⟨id, record, opened, -, hopens, -⟩ | ⟨err, arena, hfail, -, -, hcause⟩
  · nomatch hfull.symm.trans hopens.room
  · have hopen := openFunctionRecord_eq_error_iff.2 hfail
    refine ⟨err, .opening hcallable hbound (by rw [hopen]), fun hlive => ?_⟩
    rcases hcause with ⟨-, hdead⟩ | ⟨hlimit, -⟩
    · simp [ScopeArena.isLive, hdead] at hlive
    · exact hlimit

/-! ## Calls that cannot start -/

section Calls

variable {address : Address} {scope : RecordId} {body : Expr} {arguments : Arguments}
  {bound : List (String × Value)} {err : RuntimeError} {m' : Machine}

theorem settles_invoke_unbound
    (hcallable : (m.heap.function address).callable = .closure scope body)
    (hbound : (m.heap.function address).parameters.bind (m.heap.function address).name arguments =
      .error err) :
    Settles (Strategy.deferring.invoke · address arguments) m (.error err, m) := by
  refine .succ (fun steps => by rw [Strategy.invoke]) ?_
  refine .bind (.of_eq fun _ => rfl) ?_
  simp only [hcallable, hbound]
  exact .bind_error (.of_eq fun _ => rfl)

/-- Work on the heap that fails before it has changed anything. -/
theorem onHeap_error {attempt : Attempt Heap Value}
    (hfail : attempt m.heap = (.error err, m.heap)) : onHeap attempt m = (.error err, m) := by
  rw [onHeap_on, hfail]

/-- A call that is refused comes to its error and leaves no trace; the same goes for running the
function once. -/
theorem Occurs.settles_of_refuses (hm : m.Occurs config) {callee : Value}
    (hrefuses : m.Refuses callee arguments err) :
    ∃ m', m.NoTrace m' ∧
      Settles (Strategy.deferring.call · callee arguments) m (.error err, m') ∧
      ∀ address, callee = .function address → (m.heap.function address).callable.isNative = false →
        Settles (Strategy.deferring.invoke · address arguments) m (.error err, m') := by
  cases hrefuses with
  | parameters hcallable hbound =>
      have hinvoke := settles_invoke_unbound hcallable hbound
      refine ⟨m, hm.noTrace_self, ?_, fun _ hsame _ => Value.function.inj hsame ▸ hinvoke⟩
      exact Strategy.settles_call_function hcallable (Strategy.settles_drive_error hinvoke)
  | opening hcallable hbound hopen =>
      -- The record that was made for the call is released by the failed opening.
      obtain ⟨m', hopen'⟩ : ∃ m', openFunctionRecord _ _ _ m = (.error err, m') :=
        ⟨_, Prod.ext hopen rfl⟩
      have hinvoke := Strategy.settles_invoke_error hcallable hbound hopen'
      refine ⟨m', hm.openRecord_error (openFunctionRecord_eq_error_iff.1 hopen'), ?_,
        fun _ hsame _ => Value.function.inj hsame ▸ hinvoke⟩
      exact Strategy.settles_call_function hcallable (Strategy.settles_drive_error hinvoke)
  | listMethod hcallable hcount =>
      refine ⟨m, hm.noTrace_self, ?_, ?_⟩
      · refine onHeap_error ?_ ▸ Strategy.settles_call_listMethod hcallable
        simp only [ListMethod.call, Attempt.bind_on, Attempt.reading, hcount]
      · rintro _ hsame hclosure
        simp [← Value.function.inj hsame, hcallable, Callable.isNative] at hclosure
  | dictMethod hcallable hcount =>
      refine ⟨m, hm.noTrace_self, ?_, ?_⟩
      · refine onHeap_error ?_ ▸ Strategy.settles_call_dictMethod hcallable
        simp only [DictMethod.call, Attempt.bind_on, Attempt.reading, hcount]
      · rintro _ hsame hclosure
        simp [← Value.function.inj hsame, hcallable, Callable.isNative] at hclosure
  | template htemplate hbound =>
      refine ⟨m, hm.noTrace_self, ?_, by rintro _ ⟨⟩⟩
      refine .succ (fun steps => by rw [Strategy.call]) (.of_eq fun _ => ?_)
      rw [lift_on, onHeap_error]
      simp only [Heap.instantiate, htemplate, hbound]

end Calls

/-- **A call or a scope that cannot start leaves no trace.**  Wherever a machine occurs:

* a call that is refused comes to the error, whether it is made by an expression or a host or in the
  place of a function that has handed it back, and the machine is as before but for vacant slots and
  the numbers of records made and freed;
* where the stack is full every call of a function is refused whose arguments fit, with the error
  that says so unless the scope of the function is dead;
* where the stack is full no scope is opened over the current one, and a scope that is not opened
  leaves no trace. -/
theorem Occurs.no_trace_of_refusal (hm : m.Occurs config) :
    (∀ callee arguments err, m.Refuses callee arguments err → ∃ m', m.NoTrace m' ∧
      (∀ result, Settles (Strategy.deferring.call · callee arguments) m result ↔
        result = (.error err, m')) ∧
      ∀ address, callee = .function address → (m.heap.function address).callable.isNative = false →
        ∀ repeated result,
          Settles (Strategy.deferring.drive · repeated address arguments) m result ↔
            result = (.error err, m')) ∧
    (∀ address scope body arguments bound,
      (m.heap.function address).callable = .closure scope body →
      (m.heap.function address).parameters.bind (m.heap.function address).name arguments =
        .ok bound →
      m.stack.isFull = true →
      ∃ err, m.Refuses (.function address) arguments err ∧ (m.arena.isLive scope = true →
        err = .depthExceeded m.stack.limit (m.heap.function address).name)) ∧
    ∀ name kind,
      (m.stack.isFull = true → ∃ m', Machine.pushRecord name kind m =
        (.error (.depthExceeded m.stack.limit name), m')) ∧
      ∀ err m', Machine.pushRecord name kind m = (.error err, m') → m.NoTrace m' := by
  refine ⟨fun callee arguments err hrefuses => ?_, fun address scope body arguments bound hcallable
    hbound hfull => hm.refuses_of_isFull hfull hcallable hbound, fun name kind => ⟨fun hfull => ?_,
    fun err m' hfail => ?_⟩⟩
  · -- Within a row of iterations the same refusal ends the row.
    obtain ⟨m', htrace, hcall, hinvoke⟩ := hm.settles_of_refuses hrefuses
    refine ⟨m', htrace, fun _ => hcall.eq_iff, fun address hcallee hclosure repeated _ => ?_⟩
    exact (Strategy.settles_drive_error (hinvoke address hcallee hclosure)).eq_iff
  · obtain ⟨arena, hfail, -⟩ := hm.upright.pushRecord_of_isFull hfull name kind
    exact ⟨_, hfail⟩
  · rw [pushRecord_eq] at hfail
    exact hm.openRecord_error hfail

/-- A machine on which no second scope can be opened, with a function of one parameter. -/
def crowded : Machine :=
  { start { maxDepth := 1 } with
    heap := (Heap.empty.newFunction "f" (.required ["n"]) (.closure ⟨0, 0⟩ (.name "n"))).2 }

/-- Without its argument the call of the function is refused for that reason, and with it for want
of room. -/
theorem no_trace_crowded :
    crowded.Occurs { maxDepth := 1 } ∧
    (∃ m', crowded.NoTrace m' ∧
      Settles (Strategy.deferring.call · (.function 0) (.ofList [])) crowded
        (.error (.arity "f" (.missing "n")), m')) ∧
    (∃ m', crowded.NoTrace m' ∧
      Settles (Strategy.deferring.call · (.function 0) (.ofList [.null])) crowded
        (.error (.depthExceeded 1 "f"), m')) ∧
    ∃ m', Machine.pushRecord "scope" .function crowded = (.error (.depthExceeded 1 "scope"), m') ∧
      crowded.NoTrace m' := by
  have hm : crowded.Occurs { maxDepth := 1 } := Occurs.start.heap _
  obtain ⟨hcalls, hfull, hscopes⟩ := Occurs.no_trace_of_refusal hm
  refine ⟨hm, ?_, ?_, ?_⟩
  · obtain ⟨m', htrace, hcall, -⟩ := hcalls (.function 0) (.ofList [])
      (.arity "f" (.missing "n")) (.parameters rfl rfl)
    exact ⟨m', htrace, (hcall _).2 rfl⟩
  · obtain ⟨err, hrefuses, herr⟩ := hfull 0 ⟨0, 0⟩ (.name "n") (.ofList [.null]) [("n", .null)]
      rfl rfl rfl
    obtain rfl := herr rfl
    obtain ⟨m', htrace, hcall, -⟩ := hcalls _ _ _ hrefuses
    exact ⟨m', htrace, (hcall _).2 rfl⟩
  · obtain ⟨m', hfail⟩ := (hscopes "scope" .function).1 rfl
    exact ⟨m', hfail, (hscopes "scope" .function).2 _ _ hfail⟩

end Machine

end ScriptCore
