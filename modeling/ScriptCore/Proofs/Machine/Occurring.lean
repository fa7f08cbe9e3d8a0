import ScriptCore.Proofs.Machine.Upright
import ScriptCore.Proofs.Scope.Accounts

/-!
# The machines that occur

Whatever a host asks for, and at every point of an evaluation, a machine takes steps of a few kinds:
work on the heap, names bound in the current scope, that scope captured, a scope opened, scopes
closed, records collected and records locked.  `Machine.Occurs` says which machines such steps can
come to.  It is the widest reading of a state of a run, with everything in it that happens in the
midst of an expression.

Machines that occur are upright (`Occurs.upright`), and in their live records each name has one
place (`Occurs.proper`), so that reading a name after binding it can be told from its record alone.
-/

namespace ScriptCore

/-! ## Arenas in which each name has one place -/

namespace ScopeArena

/-- The live records are tables in which each name has one place. -/
def Proper (a : ScopeArena) : Prop :=
  ∀ id record, a.record? id = some record → record.members.Valid

variable {a b : ScopeArena}

/-- It is enough that the live records were so before. -/
theorem Proper.of_record? (ha : a.Proper)
    (hab : ∀ id record, b.record? id = some record → a.record? id = some record) : b.Proper :=
  fun id record hrecord => ha id record (hab id record hrecord)

theorem Proper.update (ha : a.Proper) (id : RecordId) {change : Record → Record}
    (hchange : ∀ record : Record, record.members.Valid → (change record).members.Valid) :
    (a.update id change).2.Proper := by
  intro other later hlater
  rw [record?_update] at hlater
  split at hlater
  · obtain ⟨record, hrecord, rfl⟩ := Option.map_eq_some_iff.1 hlater
    exact hchange record (ha other record hrecord)
  · exact ha other later hlater

theorem Proper.define (ha : a.Proper) (id : RecordId) (name : String) (value : Value) :
    (a.define id name value).2.Proper :=
  ha.update id fun _ hrecord => (hrecord.set name _).1

theorem Proper.assign (ha : a.Proper) (id : RecordId) (name : String) (value : Value) :
    (a.assign id name value).2.Proper := by
  rw [ScopeArena.assign, assignWithin_eq]
  split
  · exact ha.define _ name value
  · exact ha

theorem Proper.capture (ha : a.Proper) (id : RecordId) : (a.capture id).2.Proper := by
  rw [capture_eq]
  intro other later hlater
  rw [record?_pin_all] at hlater
  split at hlater
  · obtain ⟨record, hrecord, rfl⟩ := Option.map_eq_some_iff.1 hlater
    exact ha other record hrecord
  · exact ha other later hlater

end ScopeArena

namespace Machine

theorem valid_withValues {record : Record} (hrecord : record.members.Valid)
    (bound : List (String × Value)) : (record.withValues bound).members.Valid := by
  induction bound generalizing record with
  | nil => exact hrecord
  | cons entry rest ih => exact ih (hrecord.set entry.1 _).1

theorem valid_scopeRecord (name : String) (kind : RecordKind) (scope : RecordId)
    {enclosing : Record} (henclosing : enclosing.members.Valid) (bound : List (String × Value)) :
    (scopeRecord name kind scope enclosing bound).members.Valid :=
  valid_withValues (ScopeArena.entries_linked name kind henclosing scope).1 bound

/-! ## What occurs -/

/-- The machines that steps of the kinds a machine takes can come to from the start. -/
inductive Occurs (config : Config) : Machine → Prop
  | start : Occurs config (Machine.start config)
  | heap {m : Machine} (hm : Occurs config m) (heap : Heap) : Occurs config { m with heap }
  | assign {m : Machine} (hm : Occurs config m) (name : String) (value : Value) :
      Occurs config (Machine.assign name value m).2
  | define {m : Machine} (hm : Occurs config m) (name : String) (value : Value) :
      Occurs config (Machine.define name value m).2
  | capture {m : Machine} (hm : Occurs config m) :
      Occurs config (onArena (fun a => a.capture m.currentRecord) m).2
  /-- A scope is opened, or there is no room for it. -/
  | openRecord {m : Machine} (hm : Occurs config m) (name : String) (kind : RecordKind)
      (scope : RecordId) (bound : List (String × Value)) :
      Occurs config (Machine.openRecord (.fresh name kind) (setUpCall scope bound) m).2
  | unwindTo {m : Machine} (hm : Occurs config m) (depth : Nat) :
      Occurs config (Machine.unwindTo depth m).2
  | collect {m : Machine} (hm : Occurs config m) (roots : List Value) :
      Occurs config (Machine.collect roots m).2
  | lock {m : Machine} (hm : Occurs config m) (id : RecordId) (locked : Bool) :
      Occurs config { m with
        arena := (m.arena.update id fun record => { record with locked }).2 }

variable {config : Config} {m : Machine}

theorem Occurs.popRecord (hm : m.Occurs config) (id : RecordId) :
    (Machine.popRecord id m).2.Occurs config := by
  cases hposition : m.stack.positionOf? id with
  | some position =>
      rw [popRecord_of_positionOf? hposition]
      exact hm.unwindTo position
  | none =>
      rw [popRecord_of_positionOf?_eq_none hposition]
      exact hm

/-! ### The stack and the live records -/

/-- Locks do not matter. -/
theorem Upright.lock (hm : m.Upright config) (id : RecordId) (locked : Bool) :
    Upright config { m with
      arena := (m.arena.update id fun record => { record with locked }).2 } := by
  have hrecord? := m.arena.record?_update id fun record => { record with locked }
  exact {
    tidy := by
      cases hrecord : m.arena.record? id with
      -- Nothing is locked if the handle is dead.
      | none => simpa [ScopeArena.update, ScopeArena.get, hrecord] using hm.tidy
      | some record =>
          rw [ScopeArena.update_of_record? hrecord]
          exact hm.tidy.put hrecord _
    config_eq := hm.config_eq
    base := hm.base
    nodup := hm.nodup
    limit := hm.limit
    depth_le := hm.depth_le
    levels := by
      intro position other hother
      obtain ⟨record, hrecord, hlevel⟩ := hm.levels position other hother
      rw [hrecord?, hrecord]
      split
      · exact ⟨_, rfl, hlevel⟩
      · exact ⟨record, rfl, hlevel⟩
    held := by
      intro other later hlater
      rw [hrecord?] at hlater
      split at hlater
      · obtain ⟨record, hrecord, rfl⟩ := Option.map_eq_some_iff.1 hlater
        exact hm.held other record hrecord
      · exact hm.held other later hlater }

theorem Upright.openRecord (hm : m.Upright config) (name : String) (kind : RecordKind)
    (scope : RecordId) (bound : List (String × Value)) :
    (Machine.openRecord (.fresh name kind) (setUpCall scope bound) m).2.Upright config := by
  rcases openRecord_cases hm.tidy name kind scope bound with
    ⟨id, record, opened, hopen, hopens, hopened⟩ | ⟨err, arena, hfail, harena⟩
  · rw [hopen]
    exact hm.of_opens hopens hopened
  · rw [hfail]
    exact hm.withArena harena

theorem Occurs.upright (hm : m.Occurs config) : m.Upright config := by
  induction hm with
  | start => exact upright_start config
  | heap _ heap ih => exact ih.withHeap heap
  | assign _ name value ih => exact ih.withArena (ih.tidy.renews_assign _ name value)
  | define _ name value ih => exact ih.withArena (ih.tidy.renews_define _ name value)
  | capture _ ih => exact ih.withArena (ih.tidy.renews_capture _)
  | openRecord _ name kind scope bound ih => exact ih.openRecord name kind scope bound
  | unwindTo _ depth ih => exact ih.unwindTo depth
  | collect _ roots ih => exact ih.collect roots
  | lock _ id locked ih => exact ih.lock id locked

/-! ### The names in the live records -/

theorem proper_openRecord (hm : m.arena.Tidy) (hproper : m.arena.Proper) (name : String)
    (kind : RecordKind) (scope : RecordId) (bound : List (String × Value)) :
    (Machine.openRecord (.fresh name kind) (setUpCall scope bound) m).2.arena.Proper := by
  rcases openRecord_exact hm name kind scope bound with
    ⟨id, record, opened, hopen, hopens, -, -, -, -, enclosing, rfl, henclosing⟩ |
      ⟨err, arena, hfail, hsame, -⟩
  · rw [hopen]
    have hvalid : enclosing.members.Valid := by
      rcases henclosing with hscope | ⟨-, rfl⟩
      · exact hproper scope enclosing hscope
      · exact NameTable.valid_empty
    intro other held hheld
    rw [hopens.arena] at hheld
    split at hheld
    · obtain rfl := Option.some.inj hheld
      exact valid_scopeRecord name kind scope hvalid bound
    · exact hproper other held hheld
  · rw [hfail]
    exact hproper.of_record? fun other held hheld => by rwa [hsame.record?_eq] at hheld

theorem Upright.proper_collect (hm : m.Upright config) (hproper : m.arena.Proper)
    (roots : List Value) : (Machine.collect roots m).2.arena.Proper := by
  refine hproper.of_record? fun id record hrecord => ?_
  rw [collect_on] at hrecord
  by_cases hreached : Reached m.arena m.heap m.stack.records.toList roots (.record id)
  · rwa [ScopeArena.record?_collect_of_reached hm.tidy.unmarked hreached] at hrecord
  · rw [ScopeArena.record?_collect_of_not_reached hm.tidy.unmarked hreached] at hrecord
    nomatch hrecord

theorem Occurs.proper (hm : m.Occurs config) : m.arena.Proper := by
  induction hm with
  | start =>
      intro id record hrecord
      -- The record of the program is the only one, and it has no names.
      have hrecord? := ScopeArena.record?_alloc ScopeArena.vacancies_empty
        (.fresh programName .program) id
      rw [show (Machine.start config).arena.record? id = _ from hrecord?] at hrecord
      split at hrecord
      · obtain rfl := Option.some.inj hrecord
        exact NameTable.valid_empty
      · nomatch hrecord
  | heap _ heap ih => exact ih
  | assign _ name value ih => exact ih.assign _ name value
  | define _ name value ih => exact ih.define _ name value
  | capture _ ih => exact ih.capture _
  | openRecord hm name kind scope bound ih =>
      exact proper_openRecord hm.upright.tidy ih name kind scope bound
  | unwindTo hm depth ih =>
      obtain ⟨back, hunwind, hunwound, -⟩ := hm.upright.exists_unwound depth
      rw [hunwind]
      exact ih.of_record? fun id record hrecord => hunwound.record?_of_record? hrecord
  | collect hm roots ih => exact hm.upright.proper_collect ih roots
  | lock _ id locked ih => exact ih.update id fun _ hrecord => hrecord

end Machine

end ScriptCore
