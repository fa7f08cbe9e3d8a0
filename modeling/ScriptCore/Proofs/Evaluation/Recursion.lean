import ScriptCore.Proofs.Evaluation.Rules
import ScriptCore.Proofs.Scope.Resolution

/-!
# Functions that call themselves

A function that is defined over a scope without other names sees itself there, and nothing else
(`Machine.Offers`).  In the scope of a call it sees itself by a link, and its parameters
(`Machine.InCall`).  If the body leaves the records as they were the call does so, too, but for
vacant slots and for the number of records that were ever made (`SettlesInPlace`).

A program that defines such a function first comes to rest with only its own scope open and live
(`Machine.Resting`).

The sums that are written with such functions are computed with exact accounts of the records made,
so in-place settling counts them: `made` is the number of records that a run has made and freed
again by the time it settles.
-/

namespace ScriptCore

open Machine Run

/-! ## Leaving everything as it was -/

/-- The runs come to an outcome and leave everything as it was, but for a number of records that
were made and freed on the way. -/
def SettlesInPlace {α : Type} (runs : Nat → Run α) (m : Machine) (made : Nat)
    (outcome : Except RuntimeError α) : Prop :=
  ∃ arena, Settles runs m (outcome, { m with arena }) ∧ m.arena.SameRecords arena ∧
    arena.allocated = m.arena.allocated + made

theorem settlesInPlace_of_settles {α : Type} {runs : Nat → Run α} {m : Machine}
    {outcome : Except RuntimeError α} (hm : m.arena.Tidy) (hsettles : Settles runs m (outcome, m)) :
    SettlesInPlace runs m 0 outcome :=
  ⟨m.arena, hsettles, hm.same_self, rfl⟩

/-- A call that hands back nothing comes to what the body comes to. -/
theorem SettlesInPlace.drive {m : Machine} {address : Address} {arguments : Arguments} {made : Nat}
    {outcome : Except RuntimeError Value}
    (hinvoke : SettlesInPlace (Strategy.deferring.invoke · address arguments) m made
      (outcome.map .value)) :
    SettlesInPlace (Strategy.deferring.drive · false address arguments) m made outcome := by
  obtain ⟨arena, hsettles, harena⟩ := hinvoke
  refine ⟨arena, ?_, harena⟩
  cases outcome with
  | error err => exact Strategy.settles_drive_error hsettles
  | ok value => exact Strategy.settles_drive_value hsettles

namespace Machine

variable {m opened : Machine} {address : Address} {function : Function} {scope : RecordId}
  {bound : List (String × Value)} {record : Record}

theorem member?_withValues_of_not_mem (hrecord : record.members.Valid) {name : String}
    (hname : name ∉ bound.map (·.1)) :
    (record.withValues bound).member? name = record.member? name := by
  induction bound generalizing record with
  | nil => rfl
  | cons entry rest ih =>
      rw [List.map_cons, List.mem_cons, not_or] at hname
      obtain ⟨hfirst, hrest⟩ := hname
      rw [Record.withValues_cons, ih (hrecord.set _ _).1 hrest,
        ScopeArena.member?_bind hrecord, if_neg hfirst]

theorem member?_withValues (hrecord : record.members.Valid) (hnodup : (bound.map (·.1)).Nodup)
    {name : String} {value : Value} (hmem : (name, value) ∈ bound) :
    (record.withValues bound).member? name = some (.value value) := by
  induction bound generalizing record with
  | nil => nomatch hmem
  | cons entry rest ih =>
      obtain ⟨hfirst, hrest⟩ := List.nodup_cons.1 hnodup
      rw [Record.withValues_cons]
      rcases List.mem_cons.1 hmem with rfl | hlater
      · rw [member?_withValues_of_not_mem (hrecord.set _ _).1 hfirst,
          ScopeArena.member?_bind hrecord, if_pos rfl]
      · exact ih (hrecord.set _ _).1 hrest hlater

/-- A scope over one that owns a single name links that name and binds the parameters. -/
theorem member?_scopeRecord {name own : String} {kind : RecordKind} {enclosing : Record}
    {value : Value} (hentries : enclosing.members.entries = [(own, .value value)])
    (hnodup : (bound.map (·.1)).Nodup) (hown : own ∉ bound.map (·.1)) :
    (scopeRecord name kind scope enclosing bound).member? own = some (.link scope) ∧
      ∀ parameter argument, (parameter, argument) ∈ bound →
        (scopeRecord name kind scope enclosing bound).member? parameter =
          some (.value argument) := by
  have hlinked : ((Record.fresh name kind).bind own (.link scope)).members.Valid :=
    (NameTable.valid_empty.set _ _).1
  rw [scopeRecord, ScopeArena.linksInto, hentries]
  refine ⟨(member?_withValues_of_not_mem hlinked hown).trans ?_, fun parameter argument hmem =>
    member?_withValues hlinked hnodup hmem⟩
  exact (ScopeArena.member?_bind NameTable.valid_empty _ _ _).trans (if_pos rfl)

/-- A function stands at an address, and a scope binds nothing but its name, to the function. -/
structure Offers (m : Machine) (address : Address) (function : Function) (scope : RecordId) :
    Prop where
  tidy : m.arena.Tidy
  depth_pos : 0 < m.stack.depth
  stored : m.heap.functions[address]? = some function
  enclosing : ∃ record, m.arena.record? scope = some record ∧ record.members.Valid ∧
    record.members.entries = [(function.name, .value (.function address))]

/-- The current scope is that of a call of the function, with its parameters bound. -/
structure InCall (m : Machine) (address : Address) (function : Function) (scope : RecordId)
    (bound : List (String × Value)) : Prop extends Offers m address function scope where
  running : m.currentName = .ok function.name
  itself : m.lookup function.name = .ok (.function address)
  parameters : ∀ name value, (name, value) ∈ bound → m.lookup name = .ok value

theorem Offers.function_eq (hm : m.Offers address function scope) :
    m.heap.function address = function := by
  rw [Heap.function, Array.getD_eq_getD_getElem?, hm.stored, Option.getD_some]

theorem Offers.exists_owner (hm : m.Offers address function scope) :
    ∃ record, m.arena.record? scope = some record ∧
      record.member? function.name = some (.value (.function address)) := by
  obtain ⟨record, hrecord, hvalid, hentries⟩ := hm.enclosing
  refine ⟨record, hrecord, ?_⟩
  rw [Record.member?, hvalid.find?_eq_some_iff, hentries]
  exact List.mem_cons_self

theorem Offers.withArena (hm : m.Offers address function scope) {arena : ScopeArena}
    (harena : m.arena.SameRecords arena) : Offers { m with arena } address function scope where
  tidy := harena.tidy
  depth_pos := hm.depth_pos
  stored := hm.stored
  enclosing := by
    obtain ⟨record, hrecord, henclosing⟩ := hm.enclosing
    exact ⟨record, by rw [harena.record?_eq, hrecord], henclosing⟩

/-- If there is no room for its scope, a call fails in place. -/
theorem Offers.fails (hm : m.Offers address function scope) (hfull : m.stack.isFull = true)
    (bound : List (String × Value)) :
    ∃ arena, openFunctionRecord function.name scope bound m =
        (.error (.depthExceeded m.stack.limit function.name), { m with arena }) ∧
      m.arena.SameRecords arena ∧ arena.allocated = m.arena.allocated + 1 := by
  obtain ⟨record, hrecord, -⟩ := hm.enclosing
  rw [openFunctionRecord, Attempt.discard_on]
  rcases openRecord_exact hm.tidy function.name .function scope bound with
    ⟨id, _, opened, -, hopens, -⟩ | ⟨err, arena, hfail, hsame, hmade, ⟨-, hdead⟩ | ⟨rfl, -⟩⟩
  · rw [hopens.room] at hfull
    cases hfull
  · rw [hrecord] at hdead
    cases hdead
  · exact ⟨arena, by rw [hfail], hsame, hmade⟩

/-- If there is room, a scope is opened in which the parameters and the function are seen. -/
theorem Offers.opens (hm : m.Offers address function scope) (hroom : m.stack.isFull = false)
    (hnodup : (bound.map (·.1)).Nodup) (hname : function.name ∉ bound.map (·.1)) :
    ∃ id record opened, openFunctionRecord function.name scope bound m = (.ok (), opened) ∧
      m.Opens id record opened ∧ record.captured = false ∧
      opened.arena.allocated = m.arena.allocated + 1 ∧
      opened.InCall address function scope bound := by
  obtain ⟨enclosing, henclosing, hvalid, hentries⟩ := hm.enclosing
  rw [openFunctionRecord, Attempt.discard_on]
  rcases openRecord_exact hm.tidy function.name .function scope bound with
    ⟨id, record, opened, hopen, hopens, htidy, hmade, hrecordName, -, seen, hrecord, hseen⟩ |
    ⟨err, arena, -, -, -, ⟨-, hdead⟩ | ⟨-, hfull⟩⟩
  · have hscope := hopens.record?_of_record? henclosing
    have hid : opened.arena.record? id = some { record with level := m.stack.depth } := by
      rw [hopens.arena, if_pos rfl]
    have hcurrent := hopens.currentRecord
    have hcall : record = scopeRecord function.name .function scope enclosing bound := by
      rw [henclosing] at hseen
      rcases hseen with hsame | ⟨hnone, -⟩
      · rw [hrecord, Option.some.inj hsame]
      · cases hnone
    obtain ⟨hlinks, hbinds⟩ := member?_scopeRecord hentries hnodup hname
    have hlink : opened.arena.nameLink? function.name id = some scope :=
      ScopeArena.nameLink?_eq_some_iff.2 ⟨_, hid, by rw [hcall]; exact hlinks⟩
    have hfree : record.captured = false := by rw [hcall, scopeRecord_eq]; rfl
    have hoffers : opened.Offers address function scope := by
      refine ⟨htidy, ?_, by rw [hopens.heap, hm.stored], enclosing, hscope, hvalid, hentries⟩
      rw [hopens.stack, CallStack.depth, Array.size_push]
      exact Nat.succ_pos _
    refine ⟨id, record, opened, by rw [hopen], hopens, hfree, hmade, hoffers, ?_, ?_, ?_⟩
    · rw [currentName, hcurrent, ScopeArena.get_of_record? hid]
      exact congrArg Except.ok hrecordName
    -- The new record links the name of the function to the scope that owns it.
    · obtain ⟨owner, howner, hmember⟩ := hoffers.exists_owner
      rw [Machine.lookup, hcurrent]
      exact ScopeArena.lookup_of_leadsTo (.head hlink (.refl _ _ _)) howner hmember
    · intro name value hmem
      rw [Machine.lookup, hcurrent]
      exact ScopeArena.lookup_of_leadsTo (.refl _ _ _) hid (by rw [hcall]; exact hbinds _ _ hmem)
  · rw [henclosing] at hdead
    cases hdead
  · rw [hroom] at hfull
    cases hfull

/-- A call leaves the machine as it was if the body does so in the scope of the call. -/
theorem Offers.settles_invoke (hm : m.Offers address function scope) {body : Expr}
    {arguments : Arguments} {made : Nat} {outcome : Except RuntimeError Completion}
    (hcallable : function.callable = .closure scope body)
    (hbound : function.parameters.bind function.name arguments = .ok bound)
    (hnodup : (bound.map (·.1)).Nodup) (hname : function.name ∉ bound.map (·.1))
    (hroom : m.stack.isFull = false)
    (hbody : ∀ opened : Machine, opened.InCall address function scope bound →
      opened.stack.depth = m.stack.depth + 1 → opened.stack.limit = m.stack.limit →
      SettlesInPlace (Strategy.deferring.evalTail · body) opened made outcome) :
    SettlesInPlace (Strategy.deferring.invoke · address arguments) m (made + 1) outcome := by
  obtain ⟨id, record, opened, hopen, hopens, hfree, hnew, hcall⟩ := hm.opens hroom hnodup hname
  have hdepth : opened.stack.depth = m.stack.depth + 1 := by
    rw [hopens.stack, CallStack.depth, Array.size_push, CallStack.depth]
  obtain ⟨arena, hsettles, hsame, hmade⟩ := hbody opened hcall hdepth (by rw [hopens.stack])
  -- The body left the records as they were, so closing takes away the one that opening has made.
  obtain ⟨later, hclose, hlater, hkept⟩ := hopens.close_same hm.depth_pos hfree hsame
  have hinvoke := Strategy.settles_invoke (m := m) (by rw [hm.function_eq, hcallable])
    (by rw [hm.function_eq, hbound]) (by rw [hm.function_eq, hopen]) hsettles hclose
  exact ⟨later, hinvoke, hlater, by omega⟩

/-! ## Programs that define one function -/

/-- A function as it is after its definition over a scope. -/
def definedFunction (f : String) (parameters : Parameters) (scope : RecordId) (body : Expr) :
    Function :=
  { name := f
    parameters
    callable := .closure scope body
    doc := none
    tailCallOptimized := false }

/-- Only the scope of the program is open and live, and it binds only the name of the function. -/
structure Resting (m : Machine) (address : Address) (function : Function) : Prop
    extends Offers m address function m.program where
  records : m.stack.records = #[m.program]
  alone : ∀ id, m.arena.isLive id = true → id = m.program

theorem Resting.depth_eq (hm : m.Resting address function) : m.stack.depth = 1 := by
  rw [CallStack.depth, hm.records]
  rfl

theorem Resting.isLive_iff (hm : m.Resting address function) (id : RecordId) :
    m.arena.isLive id = true ↔ id = m.program := by
  refine ⟨hm.alone id, ?_⟩
  rintro rfl
  obtain ⟨record, hrecord, -⟩ := hm.enclosing
  exact ScopeArena.isLive_of_record? hrecord

theorem Resting.lookup_eq (hm : m.Resting address function) :
    m.lookup function.name = .ok (.function address) := by
  obtain ⟨record, hrecord, hmember⟩ := hm.exists_owner
  have hcurrent : m.currentRecord = m.program := by
    rw [currentRecord, CallStack.top?, hm.records]
    rfl
  rw [Machine.lookup, hcurrent]
  exact ScopeArena.lookup_of_leadsTo (.refl _ _ _) hrecord hmember

theorem Resting.withArena (hm : m.Resting address function) {arena : ScopeArena}
    (harena : m.arena.SameRecords arena) : Resting { m with arena } address function where
  toOffers := hm.toOffers.withArena harena
  records := hm.records
  alone id hlive := by
    rw [ScopeArena.isLive, harena.record?_eq] at hlive
    exact hm.alone id hlive

/-- Marking the function changes nothing else. -/
theorem Resting.markIf (hm : m.Resting address function) (marks : Bool) :
    (m.markIf marks address).Resting address
      { function with tailCallOptimized := function.tailCallOptimized || marks } := by
  cases marks with
  | false =>
      rw [Bool.or_false]
      exact hm
  | true =>
      rw [Bool.or_true]
      refine ⟨⟨hm.tidy, hm.depth_pos, ?_, hm.enclosing⟩, hm.records, hm.alone⟩
      obtain ⟨hlt, -⟩ := Array.getElem?_eq_some_iff.1 hm.stored
      rw [← hm.function_eq]
      exact Array.getElem?_setIfInBounds_self_of_lt hlt

/-- There is nothing to collect. -/
theorem Resting.collected (hm : m.Resting address function) (roots : List Value) :
    (collect roots m).2.Resting address function ∧
      (collect roots m).2.arena.allocated = m.arena.allocated := by
  have hsame : m.arena.SameRecords
      (m.arena.collect m.heap m.stack.records.toList roots).2 := by
    refine ⟨⟨ScopeArena.vacancies_collect hm.tidy.vacancies hm.tidy.unmarked,
      ScopeArena.unmarked_sweep _⟩, fun id => ?_⟩
    by_cases hid : id = m.program
    · refine ScopeArena.record?_collect_of_reached hm.tidy.unmarked (.scope ?_)
      rw [hm.records, hid]
      exact List.mem_singleton_self _
    · have hdead : ∀ {a : ScopeArena}, a.isLive id ≠ true → a.record? id = none := fun hlive =>
        Option.not_isSome_iff_eq_none.1 hlive
      rw [hdead fun hlive => hid (hm.alone id hlive), hdead fun hlive => hid (hm.alone id
        ((ScopeArena.isLive_collect_iff hm.tidy.unmarked _ _ _ id).1 hlive).1)]
  exact ⟨hm.withArena hsame, rfl⟩

theorem record?_start (config : Config) (id : RecordId) :
    (start config).arena.record? id =
      if id = (start config).program then some (.fresh programName .program) else none :=
  ScopeArena.record?_alloc ScopeArena.vacancies_empty (.fresh programName .program) id

/-- A function that is defined before anything else is captures the scope of the program, which
links to nothing. -/
theorem resting_of_defineFunction (config : Config) (f : String) (declared : Parameters)
    (body : Expr) : ∃ m, defineFunction f declared body (start config) = (.ok (.function 0), m) ∧
      m.Resting 0 (definedFunction f declared m.program body) ∧
      m.stack = (start config).stack ∧
      m.arena.allocated = (start config).arena.allocated := by
  have hsound : (start config).Sound Anything :=
    sound_start config fun _ => Heap.sound_empty fun _ => trivial
  have hprogram := (record?_start config (start config).program).trans (if_pos rfl)
  -- The record of the program has no links yet, so capturing it captures nothing else.
  have hreached : ∀ other, (start config).arena.LinkReached (start config).program other →
      other = (start config).program := by
    intro other hother
    induction hother with
    | self => rfl
    | link _ hlive hlink ih =>
        subst ih
        obtain rfl := Option.some.inj (hlive.symm.trans hprogram)
        nomatch hlink
  have hrecord := ScopeArena.record?_capture fun other hother => by
    rw [hreached other hother]
    exact ScopeArena.isLive_of_record? hprogram
  have hpinned := (hrecord (start config).program).trans (if_pos .self)
  rw [hprogram, Option.map_some] at hpinned
  have hput := ScopeArena.record?_put hpinned
    ((Record.fresh programName .program).pinned.bind f (.value (.function 0)))
  have hdefine := ScopeArena.define_of_record? hpinned f
    ((start config).heap.newFunction f declared (.closure (start config).program body)).1
  have hcurrent : (start config).currentRecord = (start config).program := rfl
  have hm := hsound.defineFunction_eq f declared body
  rw [hcurrent, hdefine] at hm
  obtain ⟨hvalid, hentries⟩ := NameTable.valid_empty.set f (Binding.value (.function 0))
  refine ⟨_, hm, ⟨⟨?_, Nat.one_pos, rfl, ?_⟩, rfl, fun id hlive => ?_⟩, rfl, ?_⟩
  · have htidy : ((start config).arena.capture (start config).program).2.Tidy :=
      ⟨hsound.arena.vacancies.capture _, hsound.arena.unmarked.capture _⟩
    exact htidy.put hpinned _
  · exact ⟨_, (hput _).trans (if_pos rfl), hvalid, hentries⟩
  · by_contra hother
    have hdead := (hput id).trans (if_neg hother)
    rw [hrecord id, if_neg fun hreach => hother (hreached id hreach), record?_start,
      if_neg hother] at hdead
    nomatch (congrArg Option.isSome hdead).symm.trans hlive
  · exact ScopeArena.allocated_capture (start config).arena (start config).program

/-- A program that begins with the definition of a function goes on at rest. -/
theorem settles_runProgram {config : Config} {f : String}
    {parameters : List (String × Option Expr)} {declared : Parameters} (body : Expr)
    (rest : List Expr) (hparameters : Settles
      (Strategy.deferring.evalParameters · .empty parameters) (start config)
      (.ok declared, start config)) :
    ∃ m, m.Resting 0 (definedFunction f declared m.program body) ∧
      m.stack = (start config).stack ∧ m.arena.allocated = (start config).arena.allocated ∧
      ∀ {result}, Settles (Strategy.deferring.runFrom · (.function 0) rest) m result →
        Settles (runProgram · (.function f parameters body none :: rest)) (start config)
          result := by
  obtain ⟨m, hdefine, hm, hstack, hmade⟩ := resting_of_defineFunction config f declared body
  obtain ⟨hcollected, hkept⟩ := hm.collected [.function 0]
  refine ⟨_, hcollected, hstack, hkept.trans hmade, fun hrest => ?_⟩
  exact Strategy.settles_runFrom_cons (Strategy.settles_function hparameters hdefine) hrest

/-- A program that ends with a call of its function ends at rest. -/
theorem Resting.settles_callName (hm : m.Resting address function) {body : Expr}
    (hcallable : function.callable = .closure m.program body) {argument last : Value}
    {outcome : Except RuntimeError Value} {after : Machine} {function' : Function}
    (hdrive : Settles (Strategy.deferring.drive · false address ⟨[argument], []⟩) m
      (outcome, after)) (hafter : after.Resting address function') :
    ∃ final, Settles (Strategy.deferring.runFrom · last
        [.callName function.name [.literal argument]]) m (outcome, final) ∧
      final.Resting address function' ∧ final.arena.allocated = after.arena.allocated := by
  have harguments := Strategy.settles_evalList_cons
    (Strategy.settles_literal .deferring argument m) (Strategy.settles_evalList_nil .deferring m)
  have hcall := Strategy.settles_callName hm.lookup_eq harguments
    (Strategy.settles_call_function (by rw [hm.function_eq, hcallable]) hdrive)
  cases outcome with
  | error err => exact ⟨after, Strategy.settles_runFrom_error hcall, hafter, rfl⟩
  | ok value =>
      exact ⟨_, Strategy.settles_runFrom_cons hcall (Strategy.settles_runFrom_nil ..),
        hafter.collected [value]⟩

end Machine

end ScriptCore
