import ScriptCore.Proofs.Evaluation.Handling
import ScriptCore.Proofs.Evaluation.Refusals

/-!
# A locked record while evaluation goes on

`Machine.GuardedAmong config allowed id names start m` says that a record is open and locked and
that it binds just the given names, on a machine with the same open scopes as at the start.

Assigning does not change that, since a locked record takes no assignments, in whatever scope they
are made and along whatever links they come.  Binding a name in the current scope is a different
matter: it does not ask for the lock.  So a record is guarded as long as another scope is on top
(`conservesSteps_guardedBelow`), and calls, which bind names only in the scopes they open, leave it
guarded even if it is on top itself (`frames_guarded`).

A routine of the host is called without a scope of its own.  If it binds a name, it binds it in the
scope from which it is called.  So of a routine it is asked that it leaves a record guarded that is
on top as far as its calls do, and one further down as far as everything does that it has evaluated
(`HostRoutine.KeepsLocks`).  A routine that binds nothing by itself and neither opens scopes nor
closes them does both (`HostRoutine.keepsLocks_of_asks`).
-/

namespace ScriptCore

open Run

namespace Machine

variable {config : Config} {allowed : HostRoutine → Prop} {m start : Machine} {id : RecordId}
  {names : List String}

/-- A record is open and locked and binds the given names, the same scopes are open as at the
start, and the routines of the host that the heap may have are of some kind. -/
structure GuardedAmong (config : Config) (allowed : HostRoutine → Prop) (id : RecordId)
    (names : List String) (start m : Machine) : Prop where
  occurs : m.Occurs config
  permits : m.heap.Permits allowed
  stack_eq : m.stack = start.stack
  mem_stack : id ∈ m.stack.records.toList
  record : ∃ record, m.arena.record? id = some record ∧ record.locked = true ∧
    record.members.names = names

/-- The same, and the record is not the one on top. -/
def GuardedBelowAmong (config : Config) (allowed : HostRoutine → Prop) (id : RecordId)
    (names : List String) (start m : Machine) : Prop :=
  GuardedAmong config allowed id names start m ∧ start.stack.top? ≠ some id

/-- Whatever leaves the record as it is. -/
theorem GuardedAmong.withArena (hm : GuardedAmong config allowed id names start m)
    {arena : ScopeArena} (hoccurs : Occurs config { m with arena })
    (hsame : arena.record? id = m.arena.record? id) :
    GuardedAmong config allowed id names start { m with arena } where
  occurs := hoccurs
  permits := hm.permits
  stack_eq := hm.stack_eq
  mem_stack := hm.mem_stack
  record := by rw [hsame]; exact hm.record

theorem GuardedAmong.capture (hm : GuardedAmong config allowed id names start m) :
    GuardedAmong config allowed id names start
      (onArena (fun a => a.capture m.currentRecord) m).2 where
  occurs := hm.occurs.capture
  permits := hm.permits
  stack_eq := hm.stack_eq
  mem_stack := hm.mem_stack
  record := by
    obtain ⟨record, hrecord, hlocked, hnames⟩ := hm.record
    rw [onArena_on]
    dsimp only
    rw [ScopeArena.capture_eq, ScopeArena.record?_pin_all, hrecord]
    split
    · exact ⟨record.pinned, rfl, hlocked, hnames⟩
    · exact ⟨record, rfl, hlocked, hnames⟩

theorem GuardedAmong.assign (hm : GuardedAmong config allowed id names start m) (name : String)
    (value : Value) :
    GuardedAmong config allowed id names start (Machine.assign name value m).2 := by
  have hoccurs := hm.occurs.assign name value
  rw [assign_on, onArena_on] at hoccurs ⊢
  refine hm.withArena hoccurs ?_
  rw [ScopeArena.assign, ScopeArena.assignWithin_eq]
  obtain ⟨record, hrecord, hlocked, -⟩ := hm.record
  split
  · rename_i owner howner
    rw [ScopeArena.record?_update, if_neg]
    rintro rfl
    have hunlocked := ScopeArena.unlocked_of_assigneeWithin howner hrecord
    exact Bool.false_ne_true (hunlocked.symm.trans hlocked)
  · rfl

theorem GuardedAmong.collect (hm : GuardedAmong config allowed id names start m)
    (roots : List Value) :
    GuardedAmong config allowed id names start (Machine.collect roots m).2 := by
  have hoccurs := hm.occurs.collect roots
  rw [collect_on] at hoccurs ⊢
  exact hm.withArena hoccurs (ScopeArena.record?_collect_of_reached
    hm.occurs.upright.tidy.unmarked (.scope hm.mem_stack))

/-- Calls do nothing to a record that is guarded, whether or not it is the one on top: they bind
names in scopes of their own, and otherwise only assign. -/
theorem frames_guarded (config : Config) (allowed : HostRoutine → Prop) (id : RecordId)
    (names : List String) :
    Frames allowed (GuardedBelowAmong config allowed id names)
      (GuardedAmong config allowed id names) where
  permits hm := hm.permits
  heap hm hheap := ⟨hm.occurs.heap _, hheap, hm.stack_eq, hm.mem_stack, hm.record⟩
  fails {_ _ _ name kind scope bound _} hm hfail := by
    have htrace := hm.occurs.openRecord_error hfail
    have hoccurs := hm.occurs.openRecord name kind scope bound
    rw [hfail] at hoccurs
    rw [htrace.rest_eq] at hoccurs ⊢
    exact hm.withArena hoccurs (htrace.record?_eq id)
  opens {_ _ _ name kind scope bound _} hm hopen := by
    obtain ⟨record, hrecord, hlocked⟩ := hm.record
    obtain ⟨new, hopens, -⟩ := hm.occurs.upright.opens hopen
    have hoccurs := hm.occurs.openRecord name kind scope bound
    rw [hopen] at hoccurs
    refine ⟨⟨hoccurs, hopens.heap ▸ hm.permits, rfl, ?_,
      record, hopens.record?_of_record? hrecord, hlocked⟩, ?_⟩
    · rw [hopens.stack, Array.toList_push]
      exact List.mem_append_left _ hm.mem_stack
    · rw [hoccurs.upright.top?_eq, hopens.currentRecord]
      exact fun hsame => hopens.ne_of_record? hrecord (Option.some.inj hsame).symm
  closes {m₀ m _ worked _ _ _ _ _} hm hopen hworked := by
    obtain ⟨before, hbefore, -⟩ := hm.record
    obtain ⟨new, hopens, -⟩ := hm.occurs.upright.opens hopen
    obtain ⟨after, closed, hunwind, hpop, -, hcloses, -⟩ :=
      hm.occurs.upright.close hopens hworked.1.occurs.upright hworked.1.stack_eq
    have hoccurs := hworked.1.occurs.unwindTo m.stack.depth
    rw [hunwind] at hoccurs
    have hstack := hopens.stack_of_closes hworked.1.stack_eq hcloses
    -- After closing, the same scopes are open as before the opening, and the guarded record is not
    -- the one that went.
    have hguarded : GuardedAmong config allowed id names m₀ closed := {
      occurs := hoccurs
      permits := hcloses.heap ▸ hworked.1.permits
      stack_eq := hstack.trans hm.stack_eq
      mem_stack := hstack ▸ hm.mem_stack
      record := by
        rw [hcloses.arena, if_neg fun hsame => hopens.ne_of_record? hbefore hsame.1]
        exact hworked.1.record }
    rw [hunwind, hpop]
    exact ⟨hguarded, hguarded⟩

/-- Below the scope on top, the steps of an evaluation do nothing to a record that is guarded. -/
theorem conservesSteps_guardedBelow (config : Config) (allowed : HostRoutine → Prop)
    (id : RecordId) (names : List String) :
    ConservesSteps allowed (GuardedBelowAmong config allowed id names) where
  permits hm := hm.1.permits
  heap hm hheap := ⟨(frames_guarded config allowed id names).heap hm.1 hheap, hm.2⟩
  fails hm hfail := ⟨(frames_guarded config allowed id names).fails hm.1 hfail, hm.2⟩
  opens hm hopen := (frames_guarded config allowed id names).opens hm.1 hopen
  closes hm hopen hworked :=
    ((frames_guarded config allowed id names).closes hm.1 hopen hworked).imp (⟨·, hm.2⟩) (⟨·, hm.2⟩)
  assign name value hm := ⟨hm.1.assign name value, hm.2⟩
  define {_ m} name value hm := by
    have hoccurs := hm.1.occurs.define name value
    rw [define_on, onArena_on] at hoccurs ⊢
    refine ⟨hm.1.withArena hoccurs ?_, hm.2⟩
    -- What is bound is bound in another record, the one on top.
    rw [ScopeArena.define, ScopeArena.record?_update, if_neg]
    intro hsame
    have htop := hm.1.occurs.upright.top?_eq
    rw [hm.1.stack_eq, ← hsame] at htop
    exact hm.2 htop
  captures hm := ⟨hm.1.capture, hm.2⟩
  rewinds hm hm' := by
    rw [unwindTo_of_depth_le (by rw [hm'.1.stack_eq, ← hm.1.stack_eq]; exact Nat.le_max_left _ _)]
    exact hm'

/-! ## Binding names in the record itself -/

/-- A name is bound in the scope on top though it is locked. -/
theorem GuardedAmong.define (hm : GuardedAmong config allowed id names start m)
    (htop : start.stack.top? = some id) (name : String) (value : Value) :
    ∃ m' names', Machine.define name value m = (.ok (), m') ∧
      GuardedAmong config allowed id names' start m' ∧
      ∀ other, other ∈ names' ↔ other ∈ names ∨ name = other := by
  obtain ⟨record, hrecord, hlocked, rfl⟩ := hm.record
  have hcurrent : m.currentRecord = id := by
    have hsame := hm.occurs.upright.top?_eq
    rw [hm.stack_eq, htop] at hsame
    exact (Option.some.inj hsame).symm
  have hoccurs := hm.occurs.define name value
  rw [define_on, onArena_on, hcurrent, ScopeArena.define_of_record? hrecord] at hoccurs ⊢
  have hvalid := hm.occurs.proper id record hrecord
  refine ⟨_, (record.bind name (.value value)).members.names, rfl, ?_,
    fun other => hvalid.mem_names_set name other _⟩
  exact {
    occurs := hoccurs
    permits := hm.permits
    stack_eq := hm.stack_eq
    mem_stack := hm.mem_stack
    record := by
      refine ⟨record.bind name (.value value), ?_, hlocked, rfl⟩
      rw [ScopeArena.record?_put hrecord, if_pos rfl] }

/-- A function is bound in the scope on top though it is locked, unless that scope cannot be
captured. -/
theorem GuardedAmong.defineFunction (hm : GuardedAmong config allowed id names start m)
    (htop : start.stack.top? = some id) (name : String) (parameters : Parameters) (body : Expr) :
    (∃ err m', Machine.defineFunction name parameters body m = (.error err, m') ∧
      GuardedAmong config allowed id names start m') ∨
    ∃ address m' names', Machine.defineFunction name parameters body m =
        (.ok (.function address), m') ∧
      GuardedAmong config allowed id names' start m' ∧
      ∀ other, other ∈ names' ↔ other ∈ names ∨ name = other := by
  have hcaptured := hm.capture
  rw [Machine.defineFunction, Attempt.bind_on, Attempt.get_on]
  dsimp only
  rw [Attempt.bind_on]
  rcases hcapture : onArena (fun a => a.capture m.currentRecord) m with ⟨err | _, captured⟩
  · rw [hcapture] at hcaptured
    exact .inl ⟨err, captured, rfl, hcaptured⟩
  · rw [hcapture] at hcaptured
    have hclosure : ∀ routine, Callable.closure m.currentRecord body = .host routine →
        allowed routine := by simp
    have hpermits := hcaptured.permits.newFunction name parameters hclosure
    have hdefined := (frames_guarded config allowed id names).heap hcaptured hpermits
    obtain ⟨m', names', hdefine, hm', hnames⟩ :=
      hdefined.define htop name (.function captured.heap.functions.size)
    refine .inr ⟨captured.heap.functions.size, m', names', ?_, hm', hnames⟩
    simp only [Attempt.bind_on, onHeap_on, Heap.newFunction] at hdefine ⊢
    simp only [hdefine, Attempt.pure_on]

end Machine

/-! ## Routines of the host that keep locks -/

open Machine

/-- A routine leaves a locked record as it is: the one on top as far as its calls do, and one
further down as far as everything does that it has evaluated. -/
structure HostRoutine.KeepsLocks (routine : HostRoutine) : Prop where
  onTop : ∀ config allowed id names,
    routine.RespectsCalls (GuardedAmong config allowed id names)
  below : ∀ config allowed id names,
    routine.Respects (GuardedBelowAmong config allowed id names)

namespace HostRoutine

variable {routine : HostRoutine}

/-- A routine keeps locks if by itself it binds nothing but by assigning, opens no scope and closes
none. -/
theorem keepsLocks_of_asks
    (hroutine : routine.Asks (·.effect ∈ [.nothing, .assigns, .collects])) :
    routine.KeepsLocks where
  onTop config allowed id names := by
    refine respectsCalls_of_asks hroutine fun request heffect evaluator hcalls m₀ m hm => ?_
    have hframes := frames_guarded config allowed id names
    -- Assigning and collecting are the two effects that leave a locked record alone although it is
    -- on top.
    cases hrequest : request.effect with
    | nothing => exact hframes.maintains_perform hcalls hrequest hm
    | assigns =>
        cases request with
        | assign name value => exact maintains_lift (hm.assign name value)
        | _ => nomatch hrequest
    | collects =>
        cases request with
        | collect roots => exact maintains_lift (hm.collect roots)
        | _ => nomatch hrequest
    | _ => simp [hrequest] at heffect
  below config allowed id names := by
    refine respects_of_asks hroutine fun request heffect evaluator heval m₀ m hm => ?_
    have hsteps := conservesSteps_guardedBelow config allowed id names
    by_cases hcollects : request.effect = .collects
    · cases request with
      | collect roots => exact maintains_lift ⟨hm.1.collect roots, hm.2⟩
      | _ => nomatch hcollects
    · refine hsteps.maintains_perform heval ?_ hm
      simp only [List.mem_cons, List.not_mem_nil, or_false] at heffect ⊢
      exact heffect.imp_right fun hrest => .inl (hrest.resolve_right hcollects)

theorem keepsLocks_of_offered {name : String} (hoffered : (name, routine) ∈ offered)
    (hname : name ∉ ["push", "unwind"]) : routine.KeepsLocks :=
  keepsLocks_of_asks ((asks_or_collects_of_offered hoffered hname).mono fun _ heffect => by
    simp only [List.mem_cons, List.not_mem_nil, or_false] at heffect ⊢
    tauto)

theorem keepsLocks_count : count.KeepsLocks :=
  keepsLocks_of_offered count_offered (by decide)

end HostRoutine

namespace Machine

variable {config : Config} {m start : Machine} {id : RecordId} {names : List String}

/-- A record is guarded, and every routine of the host that the heap has keeps locks. -/
abbrev Guarded (config : Config) (id : RecordId) (names : List String) (start m : Machine) : Prop :=
  GuardedAmong config HostRoutine.KeepsLocks id names start m

/-- The same, and the record is not the one on top. -/
abbrev GuardedBelow (config : Config) (id : RecordId) (names : List String) (start m : Machine) :
    Prop :=
  GuardedBelowAmong config HostRoutine.KeepsLocks id names start m

theorem conserves_guardedBelow (config : Config) (id : RecordId) (names : List String) :
    Conserves HostRoutine.KeepsLocks (GuardedBelow config id names) where
  toConservesSteps := conservesSteps_guardedBelow config _ id names
  host hkeeps := hkeeps.below config _ id names

end Machine

end ScriptCore
