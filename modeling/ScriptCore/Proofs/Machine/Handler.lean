import ScriptCore.Evaluation
import ScriptCore.Proofs.Machine.Occurring
import ScriptCore.Proofs.Scope.Resolution
import ScriptCore.Proofs.Scope.Sharing

/-!
# The scope of a handler

A handler is evaluated in a scope of its own, opened over the current one, in which the error is
bound.  `Machine.Catches` says what that scope is: nothing but the new record tells the machine from
the one before, the error hides what its name stood for outside, and every other name is seen by
reference, so looking it up and assigning to it is the same as in the scope around.

Wherever a machine occurs the scope can be opened if there is room on the stack
(`Occurs.exists_caught`), and if there is none, trying leaves no trace
(`Upright.pushRecord_of_isFull`).

All that is said of names follows from the one record that is made.  It starts as links to what the
current scope sees, and binding the error takes the place of at most one of them.  An assignment
from the handler goes straight to the owner of a name, past a lock of the scope around, which is why
assignments are compared for a scope that is not locked.
-/

namespace ScriptCore

/-! ## A scope that sees another one -/

namespace ScopeArena

variable {a : ScopeArena} {id outer : RecordId} {record enclosing : Record} {name : String}

/-- A record made for a scope links the names of the scope, and no others. -/
theorem member?_linked (label : String) (kind : RecordKind) (hrecord : record.members.Valid)
    (id : RecordId) (name : String) :
    (withLinks (.fresh label kind) (linksInto id record)).member? name =
      (record.member? name).map fun bound => .link (bound.link?.getD id) := by
  obtain ⟨hlinked, hentries⟩ := entries_linked label kind hrecord id
  rw [Record.member?, Record.member?, hlinked.find?_eq, hrecord.find?_eq, hentries, List.find?_map,
    Option.map_map, Option.map_map]
  rfl

/-- A name that a scope does not have is not found from there. -/
theorem lookup_of_member?_eq_none (hrecord : a.record? id = some record)
    (hnone : record.member? name = none) : a.lookup id name = .error (.undefinedName name) := by
  rw [lookup, ownerOf, ownerWithin, get_of_record? hrecord]
  simp only [bind, Except.bind, hnone]

/-- Two live records share a name that the inner one links to where it leads from the outer one. -/
theorem shares_of_member? (ha : a.Proper) (hrecord : a.record? id = some record)
    (houter : a.record? outer = some enclosing) {binding : Binding}
    (hbinding : enclosing.member? name = some binding)
    (hlink : record.member? name = some (.link (binding.link?.getD outer))) :
    a.Shares name id outer :=
  ⟨binding.link?, ⟨enclosing, binding, houter, ha outer enclosing houter, hbinding, rfl⟩,
    record, _, hrecord, ha id record hrecord, hlink, rfl⟩

end ScopeArena

namespace Machine

/-! ## The scope in which an error is bound -/

/-- A scope for a handler was opened over the current one, with the error bound in it. -/
structure Catches (m : Machine) (binding : String) (err : RuntimeError) (id : RecordId)
    (caught : Machine) : Prop where
  new : m.arena.record? id = none
  stack : caught.stack = { m.stack with records := m.stack.records.push id }
  heap : caught.heap = m.heap
  program : caught.program = m.program
  config : caught.config = m.config
  /-- No other record has changed. -/
  others : ∀ other, other ≠ id → caught.arena.record? other = m.arena.record? other
  scope : ∃ record, caught.arena.record? id = some record ∧ record.name = handlerName ∧
    record.kind = .handler ∧ record.level = m.stack.depth ∧ record.locked = false ∧
    record.captured = false
  /-- The error is bound, whatever the name stands for outside. -/
  bound : caught.lookup binding = .ok (.ofError err)
  /-- Every other name stands for what it stands for in the scope around. -/
  lookup_eq : ∀ name, name ≠ binding →
    caught.lookup name = caught.arena.lookup m.currentRecord name
  /-- Assigning to a name of the scope around is assigning to it there. -/
  assign_eq : ∀ name, name ≠ binding → ∀ outer, m.arena.record? m.currentRecord = some outer →
    outer.member? name ≠ none → outer.locked = false → ∀ value,
      caught.arena.assign id name value = caught.arena.assign m.currentRecord name value

/-- The record of such a scope, over an outer one. -/
def handlerRecord (level : Nat) (scope : RecordId) (outer : Record) (binding : String)
    (err : RuntimeError) : Record :=
  { ScopeArena.withLinks (.fresh handlerName .handler) (ScopeArena.linksInto scope outer) with
    level }.bind binding (.value (.ofError err))

theorem handlerRecord_eq (level : Nat) (scope : RecordId) (outer : Record) (binding : String)
    (err : RuntimeError) : handlerRecord level scope outer binding err =
      { Record.fresh handlerName .handler with
        level
        members := (handlerRecord level scope outer binding err).members } := by
  rw [handlerRecord, ScopeArena.withLinks_eq]
  rfl

/-- The error is bound in it, and what else it has are links to the names of the outer one. -/
theorem member?_handlerRecord {outer : Record} (houter : outer.members.Valid) (level : Nat)
    (scope : RecordId) (binding : String) (err : RuntimeError) (name : String) :
    (handlerRecord level scope outer binding err).member? name =
      if name = binding then some (.value (.ofError err))
      else (outer.member? name).map fun bound => .link (bound.link?.getD scope) := by
  have hlinked := (ScopeArena.entries_linked handlerName .handler houter scope).1
  exact (ScopeArena.member?_bind hlinked binding _ name).trans
    (congrArg _ (ScopeArena.member?_linked handlerName .handler houter scope name))

section Names

variable {a : ScopeArena} {id scope : RecordId} {outer : Record} {level : Nat} {binding : String}
  {err : RuntimeError} (ha : a.Proper) (hscope : a.record? scope = some outer)
  (hid : a.record? id = some (handlerRecord level scope outer binding err))

include ha hscope hid

theorem lookup_binding : a.lookup id binding = .ok (.ofError err) := by
  refine ScopeArena.lookup_of_leadsTo (.refl a binding id) hid ?_
  rw [member?_handlerRecord (ha scope outer hscope), if_pos rfl]

/-- A name of the outer scope is shared with it. -/
theorem shares_of_ne_binding {name : String} (hname : name ≠ binding) {bound : Binding}
    (hbound : outer.member? name = some bound) : a.Shares name id scope := by
  refine ScopeArena.shares_of_member? ha hid hscope hbound ?_
  rw [member?_handlerRecord (ha scope outer hscope), if_neg hname, hbound, Option.map_some]

theorem lookup_of_ne_binding {name : String} (hname : name ≠ binding) :
    a.lookup id name = a.lookup scope name := by
  cases hbound : outer.member? name with
  | some bound => exact (shares_of_ne_binding ha hscope hid hname hbound).lookup_eq
  | none =>
      have hnone : (handlerRecord level scope outer binding err).member? name = none := by
        rw [member?_handlerRecord (ha scope outer hscope), if_neg hname, hbound, Option.map_none]
      rw [ScopeArena.lookup_of_member?_eq_none hid hnone,
        ScopeArena.lookup_of_member?_eq_none hscope hbound]

theorem assign_of_ne_binding {name : String} (hname : name ≠ binding)
    (hbound : outer.member? name ≠ none) (hunlocked : outer.locked = false) (value : Value) :
    a.assign id name value = a.assign scope name value := by
  obtain ⟨bound, hbound⟩ := Option.ne_none_iff_exists'.1 hbound
  refine (shares_of_ne_binding ha hscope hid hname hbound).assign_eq ?_ value
  intro other hother record hrecord
  rw [List.mem_cons, List.mem_singleton] at hother
  rcases hother with rfl | rfl
  · obtain rfl := Option.some.inj (hid.symm.trans hrecord)
    rw [handlerRecord_eq]
    rfl
  · obtain rfl := Option.some.inj (hscope.symm.trans hrecord)
    exact hunlocked

end Names

variable {config : Config} {m : Machine}

/-- The scope on top is live. -/
theorem Upright.exists_current (hm : m.Upright config) :
    ∃ record, m.arena.record? m.currentRecord = some record := by
  obtain ⟨records, id, hstack⟩ := Array.exists_push_of_size_pos hm.depth_pos
  have hcurrent : m.currentRecord = id := by
    rw [currentRecord, CallStack.top?, hstack, Array.back?_push, Option.getD_some]
  exact hm.live (by simp [hcurrent, hstack])

/-- What opening a scope over the current one comes to: it is linked to the current one, unless
there is no room. -/
theorem Upright.pushRecord_exact (hm : m.Upright config) (name : String) (kind : RecordKind) :
    (∃ id outer opened, pushRecord name kind m = (.ok id, opened) ∧
      m.arena.record? m.currentRecord = some outer ∧
      m.Opens id (ScopeArena.withLinks (.fresh name kind)
        (ScopeArena.linksInto m.currentRecord outer)) opened) ∨
    ∃ arena, pushRecord name kind m = (.error (.depthExceeded m.stack.limit name),
        { m with arena }) ∧ m.arena.SameRecords arena ∧ m.stack.isFull = true := by
  obtain ⟨outer, houter⟩ := hm.exists_current
  rw [pushRecord_eq]
  rcases openRecord_exact hm.tidy name kind m.currentRecord [] with
    ⟨id, record, opened, hopen, hopens, -, -, -, -, enclosing, rfl, hseen | ⟨hdead, -⟩⟩ |
    ⟨err, arena, hfail, hsame, -, ⟨-, hdead⟩ | ⟨rfl, hfull⟩⟩
  · obtain rfl : outer = enclosing := Option.some.inj (houter.symm.trans hseen)
    exact .inl ⟨id, outer, opened, hopen, houter, hopens⟩
  · nomatch houter.symm.trans hdead
  · nomatch houter.symm.trans hdead
  · exact .inr ⟨arena, hfail, hsame, hfull⟩

/-- Without room on the stack no scope is opened, and nothing is left of the attempt. -/
theorem Upright.pushRecord_of_isFull (hm : m.Upright config) (hfull : m.stack.isFull = true)
    (name : String) (kind : RecordKind) :
    ∃ arena, pushRecord name kind m = (.error (.depthExceeded m.stack.limit name),
      { m with arena }) ∧ m.arena.SameRecords arena := by
  rcases hm.pushRecord_exact name kind with ⟨id, outer, opened, -, -, hopens⟩ |
    ⟨arena, hfail, hsame, -⟩
  · nomatch hfull.symm.trans hopens.room
  · exact ⟨arena, hfail, hsame⟩

/-- With room on the stack a scope for a handler can be opened and the error bound in it. -/
theorem Occurs.exists_caught (hm : m.Occurs config) (hroom : m.stack.isFull = false)
    (binding : String) (err : RuntimeError) :
    ∃ id opened caught, pushRecord handlerName .handler m = (.ok id, opened) ∧
      Machine.define binding (.ofError err) opened = (.ok (), caught) ∧
      m.Catches binding err id caught := by
  rcases hm.upright.pushRecord_exact handlerName .handler with
    ⟨id, outer, opened, hopen, houter, hopens⟩ | ⟨arena, -, -, hfull⟩
  -- There is room, so the scope is open.
  swap
  · nomatch hroom.symm.trans hfull
  have hid : opened.arena.record? id = some { ScopeArena.withLinks (.fresh handlerName .handler)
      (ScopeArena.linksInto m.currentRecord outer) with level := m.stack.depth } := by
    rw [hopens.arena, if_pos rfl]
  have hdefine : Machine.define binding (.ofError err) opened = (.ok (), { opened with
      arena := opened.arena.put id.index
        (handlerRecord m.stack.depth m.currentRecord outer binding err) }) := by
    rw [define_on, hopens.currentRecord, onArena_on, ScopeArena.define_of_record? hid]
    rfl
  have hcaught := ((hm.openRecord handlerName .handler m.currentRecord []).define binding
    (.ofError err)).proper
  rw [← pushRecord_eq, hopen, hdefine] at hcaught
  have hrecord? := ScopeArena.record?_put hid
    (handlerRecord m.stack.depth m.currentRecord outer binding err)
  have hid' := (hrecord? id).trans (if_pos rfl)
  have hscope := ((hrecord? m.currentRecord).trans (if_neg (hopens.ne_of_record? houter))).trans
    (hopens.record?_of_record? houter)
  have hcurrent : ∀ arena, currentRecord { opened with arena } = id := fun _ =>
    hopens.currentRecord
  -- What is left is read off the record that stands on top now.
  refine ⟨id, opened, _, hopen, hdefine, ?_⟩
  exact {
    new := hopens.new
    stack := hopens.stack
    heap := hopens.heap
    program := hopens.program
    config := hopens.config
    others := by
      intro other hother
      rw [hrecord?, if_neg hother, hopens.arena, if_neg hother]
    scope := by
      refine ⟨_, hid', ?_⟩
      rw [handlerRecord_eq]
      exact ⟨rfl, rfl, rfl, rfl, rfl⟩
    bound := by
      rw [Machine.lookup, hcurrent]
      exact lookup_binding hcaught hscope hid'
    lookup_eq := by
      intro name hname
      rw [Machine.lookup, hcurrent]
      exact lookup_of_ne_binding hcaught hscope hid' hname
    assign_eq := by
      intro name hname outer' houter' hbound hunlocked value
      obtain rfl : outer = outer' := Option.some.inj (houter.symm.trans houter')
      exact assign_of_ne_binding hcaught hscope hid' hname hbound hunlocked value }

end Machine

end ScriptCore
