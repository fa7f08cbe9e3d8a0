import ScriptCore.Proofs.Machine.Stack

/-!
# The stack and the live records

`Machine.Upright config m` ties the stack of a machine to its arena: the open scopes are live and
know how deep they stand, the scope of the program is the lowest, there are not more of them than
there may be, and every other live record is captured.  Nothing is asked of the heap, of links or of
what names are bound to, so the invariant also holds where handles are dead.

Here is what one step does to it.  Steps that leave the open scopes alone renew the arena
(`ScopeArena.Renews`): the same records stay live.  Opening a scope either adds one record to the
stack or leaves no trace (`openRecord_cases`); closing takes one away (`closeTop_of_record?`), and
so does any number of times what closes down to a depth or to a handle.

The invariant is what a claim about the stack can rest on in every state, also in one in which links
or closures lead to dead records: after a collection that overlooked something the program may fail,
but its stack is still in order.
-/

namespace ScriptCore

/-! ## Arenas with the same live records -/

namespace ScopeArena

/-- Vacant slots are vacant indeed, and no collection is under way. -/
structure Tidy (a : ScopeArena) : Prop where
  vacancies : a.Vacancies
  unmarked : a.Unmarked

/-- The same records are live, each with its name, kind, level and lock; captured ones stay
captured. -/
structure Renews (a b : ScopeArena) : Prop where
  tidy : b.Tidy
  persists : ∀ id, a.Persists b id
  old : ∀ id, b.isLive id = true → a.isLive id = true

/-- The same records are live, each as it was; only vacant slots may differ. -/
structure SameRecords (a b : ScopeArena) : Prop where
  tidy : b.Tidy
  record?_eq : ∀ id, b.record? id = a.record? id

variable {a b : ScopeArena} {id : RecordId} {record : Record}

theorem tidy_empty : empty.Tidy :=
  ⟨vacancies_empty, by simp [Unmarked, empty]⟩

theorem Tidy.alloc (ha : a.Tidy) (new : Record) : (a.alloc new).2.Tidy :=
  ⟨ha.vacancies.alloc new, ha.unmarked.alloc new⟩

theorem Tidy.same_self (ha : a.Tidy) : a.SameRecords a :=
  ⟨ha, fun _ => rfl⟩

theorem SameRecords.trans {c : ScopeArena} (hab : a.SameRecords b) (hbc : b.SameRecords c) :
    a.SameRecords c :=
  ⟨hbc.tidy, fun id => (hbc.record?_eq id).trans (hab.record?_eq id)⟩

theorem SameRecords.renews (hab : a.SameRecords b) : a.Renews b where
  tidy := hab.tidy
  persists id := .of_eq (hab.record?_eq id)
  old id hlive := by rwa [isLive, hab.record?_eq] at hlive

theorem Tidy.renews_self (ha : a.Tidy) : a.Renews a :=
  ha.same_self.renews

theorem Tidy.put (ha : a.Tidy) (hrecord : a.record? id = some record) (new : Record) :
    (a.put id.index new).Tidy :=
  ⟨ha.vacancies.put hrecord new, ha.unmarked.put _ _⟩

theorem Tidy.free (ha : a.Tidy) (hrecord : a.record? id = some record) :
    (a.free id.index).Tidy :=
  ⟨ha.vacancies.free hrecord, ha.unmarked.free _⟩

/-- Freeing a record that was just made leaves no trace of it, whatever was bound in it. -/
theorem Tidy.same_of_freed (ha : a.Tidy) {new : Record} {made : ScopeArena}
    (halloc : a.alloc new = (id, made)) (hb : b.Tidy) (hid : b.record? id = some record)
    (hothers : ∀ other, other ≠ id → b.record? other = made.record? other) :
    a.SameRecords (b.free id.index) := by
  have hnew := record?_alloc_self ha.vacancies new
  have hmade := record?_alloc ha.vacancies new
  simp only [halloc] at hnew hmade
  refine ⟨hb.free hid, fun other => ?_⟩
  rw [record?_free hid]
  split
  · subst other
    exact hnew.symm
  · rw [hothers other ‹_›, hmade, if_neg ‹_›]

theorem allocated_alloc (a : ScopeArena) (new : Record) :
    (a.alloc new).2.allocated = a.allocated + 1 := by
  unfold alloc
  split <;> rfl

theorem allocated_free (a : ScopeArena) (index : Nat) :
    (a.free index).allocated = a.allocated := by
  unfold free
  split <;> rfl

theorem allocated_pin (a : ScopeArena) (id : RecordId) : (a.pin id).allocated = a.allocated := by
  unfold pin update
  split <;> rfl

theorem allocated_capture (a : ScopeArena) (id : RecordId) :
    (a.capture id).2.allocated = a.allocated := by
  have hall : ∀ (ids : List RecordId) (a : ScopeArena),
      (ids.foldl pin a).allocated = a.allocated := by
    intro ids
    induction ids with
    | nil => exact fun _ => rfl
    | cons id rest ih => exact fun a => (ih (a.pin id)).trans (allocated_pin a id)
  rw [capture_eq]
  exact hall _ a

/-- Binding a name in a live record renews the arena. -/
theorem Tidy.renews_bind (ha : a.Tidy) (hrecord : a.record? id = some record) (name : String)
    (binding : Binding) : a.Renews (a.put id.index (record.bind name binding)) where
  tidy := ha.put hrecord _
  persists := persists_define hrecord name binding
  old other hlive := by
    rw [isLive, record?_put hrecord] at hlive
    split at hlive
    · subst other
      exact isLive_of_record? hrecord
    · exact hlive

theorem Tidy.renews_define (ha : a.Tidy) (id : RecordId) (name : String) (value : Value) :
    a.Renews (a.define id name value).2 := by
  cases hrecord : a.record? id with
  | none => simpa [define, update, get, hrecord] using ha.renews_self
  | some record =>
      rw [define_of_record? hrecord]
      exact ha.renews_bind hrecord name _

theorem Tidy.renews_assignWithin (ha : a.Tidy) (name : String) (value : Value) (steps : Nat)
    (id : RecordId) : a.Renews (a.assignWithin name value steps id).2 := by
  induction steps generalizing id with
  | zero => exact ha.renews_self
  | succ steps ih =>
      cases hrecord : a.record? id with
      | none => simpa [assignWithin, get, hrecord] using ha.renews_self
      | some record =>
          rw [assignWithin, get_of_record? hrecord]
          dsimp only
          split
          · exact ha.renews_self
          · split
            · exact ih _
            · exact ha.renews_bind hrecord name _

theorem Tidy.renews_assign (ha : a.Tidy) (id : RecordId) (name : String) (value : Value) :
    a.Renews (a.assign id name value).2 :=
  ha.renews_assignWithin name value (a.slots.size + 1) id

/-- Capturing renews the arena even if it comes upon a dead record. -/
theorem Tidy.renews_capture (ha : a.Tidy) (id : RecordId) : a.Renews (a.capture id).2 := by
  have hrecord? : ∀ other, (a.capture id).2.record? other =
      if other ∈ (a.followLinks [] [id]).2 then (a.record? other).map Record.pinned
      else a.record? other := by
    intro other
    rw [capture_eq, record?_pin_all]
  refine ⟨⟨ha.vacancies.capture id, ha.unmarked.capture id⟩, fun other held hheld => ?_,
    fun other hlive => ?_⟩
  · rw [hrecord?]
    split
    · exact ⟨held.pinned, by simp [hheld], rfl, rfl, rfl, rfl, fun _ => rfl⟩
    · exact ⟨held, hheld, rfl, rfl, rfl, rfl, fun hyes => hyes⟩
  · rw [isLive, hrecord?] at hlive
    split at hlive
    · simpa [isLive] using hlive
    · exact hlive

end ScopeArena

namespace Machine

/-- The stack and the live records fit each other. -/
structure Upright (config : Config) (m : Machine) : Prop where
  tidy : m.arena.Tidy
  config_eq : m.config = config
  /-- The scope of the program is the lowest. -/
  base : m.stack.records.toList.head? = some m.program
  /-- No scope is open twice. -/
  nodup : m.stack.records.toList.Nodup
  limit : m.stack.limit = max config.maxDepth 1
  depth_le : m.stack.depth ≤ max config.maxDepth 1
  /-- An open scope is live, and its level is the number of those below it. -/
  levels : ∀ position id, m.stack.records[position]? = some id →
    ∃ record, m.arena.record? id = some record ∧ record.level = position
  /-- Every live record is open or captured. -/
  held : ∀ id record, m.arena.record? id = some record →
    id ∈ m.stack.records.toList ∨ record.captured = true

variable {config : Config} {m m' : Machine} {id : RecordId} {record : Record}

theorem upright_start (config : Config) : (start config).Upright config where
  tidy := ScopeArena.tidy_empty.alloc _
  config_eq := rfl
  base := rfl
  nodup := List.nodup_singleton _
  limit := rfl
  depth_le := Nat.le_max_right _ _
  levels position id hid := by
    -- The scope of the program is the only one that is open.
    obtain ⟨rfl, rfl⟩ : position = 0 ∧ id = ⟨0, 0⟩ := by
      cases position with
      | zero => exact ⟨rfl, (Option.some.inj hid).symm⟩
      | succ position => nomatch hid
    exact ⟨.fresh programName .program, rfl, rfl⟩
  held id record hrecord := by
    have hrecord? := ScopeArena.record?_alloc ScopeArena.vacancies_empty
      (.fresh programName .program) id
    split at hrecord?
    · subst id
      exact .inl (List.mem_singleton_self _)
    · exact nomatch hrecord?.symm.trans hrecord

theorem Upright.live (hm : m.Upright config) (hid : id ∈ m.stack.records.toList) :
    ∃ record, m.arena.record? id = some record := by
  obtain ⟨position, hposition⟩ := List.mem_iff_getElem?.1 hid
  obtain ⟨record, hrecord, -⟩ := hm.levels position id (by simpa using hposition)
  exact ⟨record, hrecord⟩

theorem Upright.depth_pos (hm : m.Upright config) : 0 < m.stack.depth := by
  have hbase := hm.base
  rw [CallStack.depth, ← Array.length_toList]
  cases hlist : m.stack.records.toList with
  | nil => simp [hlist] at hbase
  | cons first rest => simp

theorem Upright.top?_eq (hm : m.Upright config) : m.stack.top? = some m.currentRecord := by
  obtain ⟨records, top, hstack⟩ := Array.exists_push_of_size_pos hm.depth_pos
  rw [currentRecord, CallStack.top?, hstack, Array.back?_push, Option.getD_some]

/-- The heap does not matter. -/
theorem Upright.withHeap (hm : m.Upright config) (heap : Heap) :
    Upright config { m with heap } :=
  { hm with }

theorem Upright.withArena (hm : m.Upright config) {arena : ScopeArena}
    (harena : m.arena.Renews arena) : Upright config { m with arena } where
  tidy := harena.tidy
  config_eq := hm.config_eq
  base := hm.base
  nodup := hm.nodup
  limit := hm.limit
  depth_le := hm.depth_le
  levels position id hid := by
    obtain ⟨record, hrecord, hlevel⟩ := hm.levels position id hid
    obtain ⟨later, hlater, -, -, hsame, -, -⟩ := harena.persists id record hrecord
    exact ⟨later, hlater, hsame.trans hlevel⟩
  held id later hlater := by
    obtain ⟨record, hrecord⟩ :=
      ScopeArena.isLive_iff.1 (harena.old id (ScopeArena.isLive_of_record? hlater))
    obtain ⟨later', hlater', -, -, -, -, hyes⟩ := harena.persists id record hrecord
    obtain rfl : later = later' := Option.some.inj (hlater.symm.trans hlater')
    exact (hm.held id record hrecord).imp_right hyes

/-! ## Opening a scope -/

theorem Upright.of_opens {opened : Machine} (hm : m.Upright config)
    (hopens : m.Opens id record opened) (htidy : opened.arena.Tidy) :
    opened.Upright config where
  tidy := htidy
  config_eq := hopens.config.trans hm.config_eq
  base := by
    rw [hopens.stack, hopens.program, Array.toList_push, List.head?_append, hm.base]
    rfl
  nodup := by
    rw [hopens.stack, Array.toList_push, List.nodup_append]
    refine ⟨hm.nodup, List.nodup_singleton id, fun other hother new hnew => ?_⟩
    obtain ⟨held, hheld⟩ := hm.live hother
    rw [List.mem_singleton.1 hnew]
    exact hopens.ne_of_record? hheld
  limit := by rw [hopens.stack, hm.limit]
  depth_le := by
    have hroom := hopens.room
    rw [CallStack.isFull, decide_eq_false_iff_not, hm.limit, CallStack.depth] at hroom
    rw [hopens.stack, CallStack.depth, Array.size_push]
    omega
  levels position other hother := by
    rw [hopens.stack, Array.getElem?_push] at hother
    split at hother
    · obtain rfl := Option.some.inj hother
      exact ⟨_, by rw [hopens.arena, if_pos rfl], Eq.symm ‹_›⟩
    · obtain ⟨held, hheld, hlevel⟩ := hm.levels position other hother
      exact ⟨held, hopens.record?_of_record? hheld, hlevel⟩
  held other held hheld := by
    rw [hopens.arena] at hheld
    rw [hopens.stack, Array.toList_push, List.mem_append, List.mem_singleton]
    split at hheld
    · exact .inl (.inr ‹_›)
    · exact (hm.held other held hheld).imp_left .inl

theorem withValues_eq (record : Record) (bound : List (String × Value)) :
    record.withValues bound = { record with members := (record.withValues bound).members } := by
  induction bound generalizing record with
  | nil => rfl
  | cons entry rest ih =>
      rw [Record.withValues_cons, ih]
      rfl

/-- The record of a scope that sees what another one sees, and the given values. -/
def scopeRecord (name : String) (kind : RecordKind) (scope : RecordId) (enclosing : Record)
    (bound : List (String × Value)) : Record :=
  (ScopeArena.withLinks (.fresh name kind) (ScopeArena.linksInto scope enclosing)).withValues bound

/-- Nothing but what is bound in it tells it from a fresh one. -/
theorem scopeRecord_eq (name : String) (kind : RecordKind) (scope : RecordId) (enclosing : Record)
    (bound : List (String × Value)) : scopeRecord name kind scope enclosing bound =
      { Record.fresh name kind with
        members := (scopeRecord name kind scope enclosing bound).members } := by
  rw [scopeRecord, withValues_eq, ScopeArena.withLinks_eq]

/-- Setting up a record over a live scope binds its names and changes nothing else. -/
theorem setUpCall_of_live {a : ScopeArena} {name : String} {kind : RecordKind} {scope : RecordId}
    {enclosing : Record} (ha : a.Tidy) (hid : a.record? id = some (.fresh name kind))
    (hscope : a.record? scope = some enclosing) (bound : List (String × Value)) :
    ∃ a', setUpCall scope bound id a = (.ok (), a') ∧ a'.Tidy ∧ a'.allocated = a.allocated ∧
      ∀ other, a'.record? other =
        if other = id then some (scopeRecord name kind scope enclosing bound)
        else a.record? other := by
  have hrecord? := ScopeArena.record?_put hid
    (ScopeArena.withLinks (.fresh name kind) (ScopeArena.linksInto scope enclosing))
  obtain ⟨a', hdefine, ⟨htidy, hallocated⟩, hrecords⟩ := define_all
    (fun later => later.Tidy ∧ later.allocated = a.allocated) bound
    (fun later record entry _ hlater hrecord => ⟨hlater.1.put hrecord _, hlater.2⟩)
    ⟨ha.put hid _, rfl⟩ (by rw [hrecord?, if_pos rfl])
  have happend : a.appendRecords id scope = (.ok (), a.put id.index
      (ScopeArena.withLinks (.fresh name kind) (ScopeArena.linksInto scope enclosing))) := by
    simp only [ScopeArena.appendRecords, ScopeArena.get_of_record? hscope,
      ScopeArena.update_of_record? hid]
  refine ⟨a', ?_, htidy, hallocated, fun other => ?_⟩
  · rw [setUpCall, Attempt.bind_on, Attempt.ofStep, happend]
    exact hdefine
  · rw [hrecords, hrecord?]
    by_cases hother : other = id
    · rw [if_pos hother, if_pos hother, scopeRecord]
    · rw [if_neg hother, if_neg hother, if_neg hother]

theorem setUpCall_of_dead {a : ScopeArena} {scope : RecordId} (hscope : a.record? scope = none)
    (bound : List (String × Value)) (id : RecordId) :
    setUpCall scope bound id a = (.error (.deadRecord scope.index), a) := by
  rw [setUpCall, Attempt.bind_on, Attempt.ofStep, ScopeArena.appendRecords, ScopeArena.get, hscope]

/-- Opening a scope adds a record to the stack, set up as it is to be, or it fails and leaves no
trace, since the scope that the new one is to see is dead or there is no room on the stack. -/
theorem openRecord_exact (hm : m.arena.Tidy) (name : String) (kind : RecordKind)
    (scope : RecordId) (bound : List (String × Value)) :
    (∃ id record opened, Machine.openRecord (.fresh name kind) (setUpCall scope bound) m =
        (.ok id, opened) ∧ m.Opens id record opened ∧ opened.arena.Tidy ∧
      opened.arena.allocated = m.arena.allocated + 1 ∧ record.name = name ∧ record.kind = kind ∧
      ∃ enclosing, record = scopeRecord name kind scope enclosing bound ∧
        (m.arena.record? scope = some enclosing ∨
          m.arena.record? scope = none ∧ enclosing = .fresh name kind)) ∨
    ∃ err arena, Machine.openRecord (.fresh name kind) (setUpCall scope bound) m =
        (.error err, { m with arena }) ∧ m.arena.SameRecords arena ∧
      arena.allocated = m.arena.allocated + 1 ∧
      (err = .deadRecord scope.index ∧ m.arena.record? scope = none ∨
        err = .depthExceeded m.stack.limit name ∧ m.stack.isFull = true) := by
  have hnew := ScopeArena.record?_alloc_self hm.vacancies (.fresh name kind)
  have hmade := ScopeArena.record?_alloc hm.vacancies (.fresh name kind)
  have htidy := hm.alloc (.fresh name kind)
  have hallocated := m.arena.allocated_alloc (.fresh name kind)
  rcases halloc : m.arena.alloc (.fresh name kind) with ⟨id, a⟩
  simp only [halloc] at hnew hmade htidy hallocated
  have hid : a.record? id = some (.fresh name kind) := by rw [hmade, if_pos rfl]
  cases hscope : a.record? scope with
  | none =>
      have hdead : m.arena.record? scope = none := by
        rw [hmade] at hscope
        split at hscope
        · cases hscope
        · exact hscope
      have hreleased : a.release id = (.ok true, a.free id.index) :=
        ScopeArena.release_of_record? hid
      have hopen := openRecord_eq halloc (setUpCall_of_dead hscope bound id) hid
      rw [hreleased] at hopen
      exact .inr ⟨_, a.free id.index, hopen, hm.same_of_freed halloc htidy hid fun _ _ => rfl,
        (a.allocated_free _).trans hallocated, .inl ⟨rfl, hdead⟩⟩
  | some enclosing =>
      obtain ⟨a', hset, htidy', hallocated', hrecords⟩ := setUpCall_of_live htidy hid hscope bound
      have hid' := hrecords id
      rw [if_pos rfl, scopeRecord_eq] at hid'
      have hreleased : a'.release id = (.ok true, a'.free id.index) :=
        ScopeArena.release_of_record? hid'
      have hopen := openRecord_eq halloc hset hid'
      rw [hreleased] at hopen
      cases hfull : m.stack.isFull with
      | true =>
          rw [hfull] at hopen
          have hsame := hm.same_of_freed halloc htidy' hid' fun other hne => by
            rw [hrecords, if_neg hne]
          exact .inr ⟨_, a'.free id.index, hopen, hsame,
            (a'.allocated_free _).trans (hallocated'.trans hallocated), .inr ⟨rfl, rfl⟩⟩
      | false =>
          rw [hfull, ← scopeRecord_eq] at hopen
          refine .inl ⟨id, scopeRecord name kind scope enclosing bound, _, hopen, ?_,
            htidy'.put hid' _, hallocated'.trans hallocated, by rw [scopeRecord_eq]; rfl,
            by rw [scopeRecord_eq]; rfl, enclosing, rfl, ?_⟩
          · exact {
              new := hnew
              room := hfull
              arena := by
                intro other
                rw [ScopeArena.record?_put hid']
                split
                · rfl
                · rw [hrecords, if_neg ‹_›, hmade, if_neg ‹_›]
              stack := rfl
              heap := rfl
              program := rfl
              config := rfl }
          -- A dead handle may be that of the new record, which then sees nothing.
          · rw [hmade] at hscope
            split at hscope
            · subst scope
              exact .inr ⟨hnew, (Option.some.inj hscope).symm⟩
            · exact .inl hscope

/-- Opening a scope adds a record to the stack, or it fails and gives the record back. -/
theorem openRecord_cases (hm : m.arena.Tidy) (name : String) (kind : RecordKind)
    (scope : RecordId) (bound : List (String × Value)) :
    (∃ id record opened, Machine.openRecord (.fresh name kind) (setUpCall scope bound) m =
      (.ok id, opened) ∧ m.Opens id record opened ∧ opened.arena.Tidy) ∨
    ∃ err arena, Machine.openRecord (.fresh name kind) (setUpCall scope bound) m =
      (.error err, { m with arena }) ∧ m.arena.Renews arena := by
  rcases openRecord_exact hm name kind scope bound with
    ⟨id, record, opened, hopen, hopens, hopened, -⟩ | ⟨err, arena, hfail, hsame, -⟩
  · exact .inl ⟨id, record, opened, hopen, hopens, hopened⟩
  · exact .inr ⟨err, arena, hfail, hsame.renews⟩

theorem opens_of_openRecord {opened : Machine} {name : String} {kind : RecordKind}
    {scope : RecordId} {bound : List (String × Value)} (hm : m.arena.Tidy)
    (hopen : Machine.openRecord (.fresh name kind) (setUpCall scope bound) m = (.ok id, opened)) :
    ∃ record, m.Opens id record opened ∧ opened.arena.Tidy := by
  rcases openRecord_cases hm name kind scope bound with
    ⟨id', record, opened', hopen', hopens, hopened⟩ | ⟨err, arena, hfail, -⟩
  · rw [hopen] at hopen'
    obtain ⟨hid, rfl⟩ := Prod.mk.inj hopen'
    obtain rfl := Except.ok.inj hid
    exact ⟨record, hopens, hopened⟩
  · rw [hopen] at hfail
    nomatch hfail

theorem renews_of_openRecord {name : String} {kind : RecordKind} {scope : RecordId}
    {bound : List (String × Value)} {err : RuntimeError} (hm : m.arena.Tidy)
    (hfail : Machine.openRecord (.fresh name kind) (setUpCall scope bound) m = (.error err, m')) :
    ∃ arena, m' = { m with arena } ∧ m.arena.Renews arena := by
  rcases openRecord_cases hm name kind scope bound with
    ⟨id, record, opened, hopen, -, -⟩ | ⟨err', arena, hfail', harena⟩
  · rw [hfail] at hopen
    nomatch hopen
  · rw [hfail] at hfail'
    exact ⟨arena, (Prod.mk.inj hfail').2, harena⟩

theorem Upright.opens {opened : Machine} {name : String} {kind : RecordKind} {scope : RecordId}
    {bound : List (String × Value)} (hm : m.Upright config)
    (hopen : Machine.openRecord (.fresh name kind) (setUpCall scope bound) m = (.ok id, opened)) :
    ∃ record, m.Opens id record opened ∧ opened.Upright config := by
  obtain ⟨record, hopens, hopened⟩ := opens_of_openRecord hm.tidy hopen
  exact ⟨record, hopens, hm.of_opens hopens hopened⟩

/-! ## Closing scopes -/

theorem Upright.of_closes {closed : Machine} (hm : m.Upright config)
    (hcloses : m.Closes id record closed) (htop : m.arena.record? id = some record)
    (hpos : 0 < closed.stack.depth) (htidy : closed.arena.Tidy) : closed.Upright config := by
  have hlist : m.stack.records.toList = closed.stack.records.toList ++ [id] := by
    rw [hcloses.stack, Array.toList_push]
  have hnodup := hm.nodup
  rw [hlist, List.nodup_append] at hnodup
  -- The top is open once, so what becomes of its record does not touch the others.
  have hne : ∀ other ∈ closed.stack.records.toList, other ≠ id := fun other hother =>
    hnodup.2.2 other hother id List.mem_cons_self
  exact {
    tidy := htidy
    config_eq := hcloses.config.trans hm.config_eq
    base := by
      have hbase := hm.base
      rw [hlist, List.head?_append] at hbase
      rw [hcloses.program, ← hbase]
      cases hrecords : closed.stack.records.toList with
      | nil => simp [CallStack.depth, Array.toList_eq_nil_iff.1 hrecords] at hpos
      | cons first rest => rfl
    nodup := hnodup.1
    limit := by rw [← hm.limit, hcloses.stack]
    depth_le := by
      have hdepth := hm.depth_le
      rw [hcloses.stack, CallStack.depth, Array.size_push] at hdepth
      exact Nat.le_of_succ_le hdepth
    levels := by
      intro position other hother
      have hlt := (Array.getElem?_eq_some_iff.1 hother).1
      obtain ⟨held, hheld, hlevel⟩ := hm.levels position other (by
        simpa [hcloses.stack, Array.getElem?_push, Nat.ne_of_lt hlt] using hother)
      refine ⟨held, ?_, hlevel⟩
      rw [hcloses.arena, if_neg fun hsame => hne other ?_ hsame.1, hheld]
      exact Array.mem_toList_iff.2 (Array.mem_of_getElem? hother)
    held := by
      intro other held hheld
      rw [hcloses.arena] at hheld
      split at hheld
      · cases hheld
      · rename_i hnot
        have hmem := hm.held other held hheld
        rw [hlist, List.mem_append, List.mem_singleton] at hmem
        rcases hmem with (hmem | rfl) | hyes
        · exact .inl hmem
        · -- The record of the top is still there, so it was captured.
          obtain rfl : record = held := Option.some.inj (htop.symm.trans hheld)
          exact .inr (by simpa using hnot)
        · exact .inr hyes }

/-- Closing a live top scope leaves a tidy arena. -/
theorem closeTop_of_record? (hm : m.arena.Tidy) {records : Array RecordId}
    (hstack : m.stack.records = records.push id) (hrecord : m.arena.record? id = some record) :
    ∃ closed, Machine.closeTop m = (.ok (), closed) ∧ m.Closes id record closed ∧
      closed.arena.Tidy := by
  obtain ⟨closed, hclose, hreleased, hcloses⟩ := closeTop_eq hstack hrecord
  refine ⟨closed, hclose, hcloses, ?_⟩
  rw [hreleased, ScopeArena.release_of_record? hrecord]
  split
  · exact hm
  · exact hm.free hrecord

theorem Upright.closeTop (hm : m.Upright config) (hdepth : 1 < m.stack.depth) :
    ∃ id record closed, Machine.closeTop m = (.ok (), closed) ∧
      m.arena.record? id = some record ∧ m.Closes id record closed ∧ closed.Upright config := by
  obtain ⟨records, id, hstack⟩ := Array.exists_push_of_size_pos hm.depth_pos
  have hopen : id ∈ m.stack.records.toList := by simp [hstack]
  obtain ⟨record, hrecord⟩ := hm.live hopen
  obtain ⟨closed, hclose, hcloses, htidy⟩ := closeTop_of_record? hm.tidy hstack hrecord
  have hpos : 0 < closed.stack.depth := by
    rw [hcloses.stack, CallStack.depth, Array.size_push] at hdepth
    exact Nat.lt_of_succ_lt_succ hdepth
  exact ⟨id, record, closed, hclose, hrecord, hcloses, hm.of_closes hcloses hrecord hpos htidy⟩

/-- The scopes above a height were closed.  Those below stand as they did, and of the records only
those of the closed scopes are gone, as far as they were not captured. -/
structure Unwound (m : Machine) (height : Nat) (m' : Machine) : Prop where
  stack : m'.stack = { m.stack with records := m.stack.records.take height }
  heap : m'.heap = m.heap
  program : m'.program = m.program
  config : m'.config = m.config
  kept : ∀ id, id ∉ m.stack.records.toList.drop height ∨ m.arena.Captured id →
    m'.arena.record? id = m.arena.record? id
  freed : ∀ id, id ∈ m.stack.records.toList.drop height → ¬ m.arena.Captured id →
    m'.arena.record? id = none

theorem unwound_self {height : Nat} (hheight : m.stack.depth ≤ height) : m.Unwound height m where
  stack := by rw [Array.take_eq_extract, Array.extract_eq_self_of_le hheight]
  heap := rfl
  program := rfl
  config := rfl
  kept _ _ := rfl
  freed id hid := by
    rw [List.drop_of_length_le (by rwa [Array.length_toList])] at hid
    nomatch hid

/-- A record is as it was or gone. -/
theorem Unwound.record?_of_record? {height : Nat} (hunwound : m.Unwound height m')
    (hrecord : m'.arena.record? id = some record) : m.arena.record? id = some record := by
  by_cases hkept : id ∉ m.stack.records.toList.drop height ∨ m.arena.Captured id
  · rwa [← hunwound.kept id hkept]
  · rw [not_or, not_not] at hkept
    nomatch (hunwound.freed id hkept.1 hkept.2).symm.trans hrecord

/-- Closing the top scope and then those above a height closes all above the height. -/
theorem Closes.unwound {closed back : Machine} {height : Nat} (hcloses : m.Closes id record closed)
    (htop : m.arena.record? id = some record) (hheight : height ≤ closed.stack.depth)
    (hunwound : closed.Unwound height back) : m.Unwound height back := by
  have hdrop : m.stack.records.toList.drop height =
      closed.stack.records.toList.drop height ++ [id] := by
    rw [hcloses.stack, Array.toList_push, List.drop_append_of_le_length]
    rwa [Array.length_toList]
  exact {
    stack := by
      rw [hunwound.stack, hcloses.stack, Array.take_eq_extract, Array.take_eq_extract,
        Array.extract_push_of_le hheight]
    heap := hunwound.heap.trans hcloses.heap
    program := hunwound.program.trans hcloses.program
    config := hunwound.config.trans hcloses.config
    kept := by
      intro other hother
      -- What stays was not the top, or was captured; either way closing left it alone.
      have hsame : ¬ (other = id ∧ record.captured = false) := by
        rintro ⟨rfl, hfree⟩
        rcases hother with hnot | ⟨held, hheld, hyes⟩
        · exact hnot (by simp [hdrop])
        · obtain rfl : record = held := Option.some.inj (htop.symm.trans hheld)
          simp [hfree] at hyes
      have hclosed : closed.arena.record? other = m.arena.record? other := by
        rw [hcloses.arena, if_neg hsame]
      rw [hdrop, List.mem_append, not_or] at hother
      refine (hunwound.kept other (hother.imp And.left ?_)).trans hclosed
      rintro ⟨held, hheld, hyes⟩
      exact ⟨held, hclosed.trans hheld, hyes⟩
    freed := by
      intro other hother hfree
      by_contra hlive
      obtain ⟨held, hheld⟩ := Option.ne_none_iff_exists'.1 hlive
      have hbefore := hunwound.record?_of_record? hheld
      rw [hcloses.arena] at hbefore
      split at hbefore
      · nomatch hbefore
      · rename_i hkept
        have hno : held.captured ≠ true := fun hyes => hfree ⟨held, hbefore, hyes⟩
        rw [hdrop, List.mem_append, List.mem_singleton] at hother
        -- What goes was closed further down, or it was the top and was freed at once.
        rcases hother with hbelow | rfl
        · have hclosed : ¬ closed.arena.Captured other := by
            rintro ⟨later, hlater, hyes⟩
            obtain rfl : held = later :=
              Option.some.inj ((hunwound.record?_of_record? hheld).symm.trans hlater)
            exact hno hyes
          nomatch (hunwound.freed other hbelow hclosed).symm.trans hheld
        · obtain rfl : record = held := Option.some.inj (htop.symm.trans hbefore)
          exact hkept ⟨rfl, by simpa using hno⟩ }

/-- Closing scopes down to a height above the scope of the program goes well. -/
theorem Upright.closeScopes (hm : m.Upright config) {height count : Nat} (hheight : 0 < height)
    (hcount : m.stack.depth - height = count) :
    ∃ back, Machine.closeScopes count m = (.ok (), back) ∧ m.Unwound height back ∧
      back.Upright config := by
  induction count generalizing m with
  | zero => exact ⟨m, rfl, unwound_self (Nat.sub_eq_zero_iff_le.1 hcount), hm⟩
  | succ count ih =>
      obtain ⟨id, record, closed, hclose, htop, hcloses, hclosed⟩ := hm.closeTop (by omega)
      have hdepth : m.stack.depth = closed.stack.depth + 1 := by
        rw [hcloses.stack, CallStack.depth, Array.size_push, CallStack.depth]
      obtain ⟨back, hrest, hunwound, hback⟩ := ih hclosed (by omega)
      refine ⟨back, ?_, hcloses.unwound htop (by omega) hunwound, hback⟩
      simp only [Machine.closeScopes, Attempt.bind_on, hclose, hrest]

/-- The scope of the program is never closed, so closing down to any depth goes well. -/
theorem Upright.exists_unwound (hm : m.Upright config) (depth : Nat) :
    ∃ back, Machine.unwindTo depth m = (.ok (), back) ∧ m.Unwound (max depth 1) back ∧
      back.Upright config :=
  hm.closeScopes (lt_sup_of_lt_right Nat.one_pos) (Eq.refl (m.stack.depth - max depth 1))

theorem Upright.unwindTo (hm : m.Upright config) (depth : Nat) :
    (Machine.unwindTo depth m).2.Upright config := by
  obtain ⟨back, hunwind, -, hback⟩ := hm.exists_unwound depth
  rwa [hunwind]

theorem Upright.exists_popped (hm : m.Upright config) (id : RecordId) :
    ∃ closed, Machine.popRecord id m = (.ok (), closed) := by
  cases hposition : m.stack.positionOf? id with
  | some position =>
      obtain ⟨back, hunwind, -⟩ := hm.exists_unwound position
      exact ⟨back, (popRecord_of_positionOf? hposition).trans hunwind⟩
  | none => exact ⟨m, popRecord_of_positionOf?_eq_none hposition⟩

/-- A scope that was opened, and then was the top one again, can be closed by depth or by handle,
with the same result. -/
theorem Upright.close {opened worked : Machine} (hm : m.Upright config)
    (hopens : m.Opens id record opened) (hworked : worked.Upright config)
    (hstack : worked.stack = opened.stack) :
    ∃ after closed, Machine.unwindTo m.stack.depth worked = (.ok (), closed) ∧
      Machine.popRecord id worked = (.ok (), closed) ∧ worked.arena.record? id = some after ∧
      worked.Closes id after closed ∧ closed.Upright config := by
  have hpos := hm.depth_pos
  have hrecords : worked.stack.records = m.stack.records.push id := by rw [hstack, hopens.stack]
  have hdepth : worked.stack.depth = m.stack.depth + 1 := by
    rw [CallStack.depth, hrecords, Array.size_push, CallStack.depth]
  obtain ⟨top, after, closed, hclose, htop, hcloses, hclosed⟩ := hworked.closeTop (by omega)
  obtain ⟨-, rfl⟩ := hcloses.records_eq hrecords
  have hunwind := unwindTo_of_closeTop hpos hdepth hclose
  exact ⟨after, closed, hunwind, (popRecord_of_top hrecords).trans hunwind, htop, hcloses, hclosed⟩

/-- If the records are in a scope as they were when it was opened, closing it leaves them as they
were before. -/
theorem Opens.close_same {opened : Machine} {arena : ScopeArena} (hopens : m.Opens id record opened)
    (hpos : 0 < m.stack.depth) (hfree : record.captured = false)
    (harena : opened.arena.SameRecords arena) :
    ∃ later, Machine.unwindTo m.stack.depth { opened with arena } =
        (.ok (), { m with arena := later }) ∧
      m.arena.SameRecords later ∧ later.allocated = arena.allocated := by
  have hid : arena.record? id = some { record with level := m.stack.depth } := by
    rw [harena.record?_eq, hopens.arena, if_pos rfl]
  have hrecords : opened.stack.records = m.stack.records.push id := by rw [hopens.stack]
  have hdepth : opened.stack.depth = m.stack.depth + 1 := by
    rw [CallStack.depth, hrecords, Array.size_push, CallStack.depth]
  obtain ⟨closed, hclose, hreleased, hcloses⟩ :=
    closeTop_eq (m := { opened with arena }) hrecords hid
  have hworked : opened.Evolves { opened with arena } :=
    ⟨rfl, rfl, rfl, harena.renews.persists⟩
  have hevolves := hopens.evolves_of_closes hworked hcloses
  -- Only the arena can differ: the stack is back at its height, and no other part was touched.
  have hclosed : closed = { m with arena := closed.arena } := by
    obtain ⟨config, heap, later, stack, program⟩ := closed
    obtain ⟨rfl, rfl, rfl, -⟩ := hevolves
    obtain rfl : heap = m.heap := hcloses.heap.trans hopens.heap
    rfl
  have hfreed : closed.arena = arena.free id.index := by
    rw [hreleased, ScopeArena.release_of_record? hid]
    exact congrArg Prod.snd (if_neg (by simp [hfree]))
  refine ⟨closed.arena, ?_, ⟨?_, fun other => ?_⟩, ?_⟩
  · rw [← hclosed]
    exact unwindTo_of_closeTop hpos hdepth hclose
  · rw [hfreed]
    exact harena.tidy.free hid
  · rw [hfreed, ScopeArena.record?_free hid, harena.record?_eq, hopens.arena]
    split
    · subst other
      exact hopens.new.symm
    · rfl
  · rw [hfreed, ScopeArena.allocated_free]

/-! ## Collecting -/

theorem collect_on (roots : List Value) (m : Machine) :
    Machine.collect roots m =
      (.ok (m.arena.collect m.heap m.stack.records.toList roots).1, { m with
        arena := (m.arena.collect m.heap m.stack.records.toList roots).2 }) :=
  rfl

/-- A collection keeps the open scopes, and only frees records. -/
theorem Upright.collect (hm : m.Upright config) (roots : List Value) :
    (Machine.collect roots m).2.Upright config where
  tidy := ⟨ScopeArena.vacancies_collect hm.tidy.vacancies hm.tidy.unmarked,
    ScopeArena.unmarked_sweep _⟩
  config_eq := hm.config_eq
  base := hm.base
  nodup := hm.nodup
  limit := hm.limit
  depth_le := hm.depth_le
  levels position id hid := by
    obtain ⟨record, hrecord, hlevel⟩ := hm.levels position id hid
    -- The open scopes are where the collector starts.
    have hopen : id ∈ m.stack.records.toList := Array.mem_toList_iff.2 (Array.mem_of_getElem? hid)
    refine ⟨record, ?_, hlevel⟩
    rw [collect_on, ScopeArena.record?_collect_of_reached hm.tidy.unmarked (.scope hopen), hrecord]
  held id record hrecord := by
    rw [collect_on] at hrecord
    by_cases hreached : Reached m.arena m.heap m.stack.records.toList roots (.record id)
    · rw [ScopeArena.record?_collect_of_reached hm.tidy.unmarked hreached] at hrecord
      exact hm.held id record hrecord
    · rw [ScopeArena.record?_collect_of_not_reached hm.tidy.unmarked hreached] at hrecord
      nomatch hrecord

end Machine

end ScriptCore
