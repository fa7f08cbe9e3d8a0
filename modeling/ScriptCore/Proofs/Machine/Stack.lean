import ScriptCore.Proofs.Machine.Sound

/-!
# Opening and closing scopes

`Opens m id record m'` says that `m'` is `m` with one more scope open, and `Closes m id m'` that it
is `m` without the top one.  They are exact about the records, so whatever opens a scope, works in
it and closes it again is seen to keep the stack and every record that was live before
(`Opens.evolves_of_closes`).

What the two operations come to is told once, without any invariant (`openRecord_eq`,
`closeTop_eq`).

Setting up a scope may fail half way, if a scope that is to be linked is dead; what was made is
released then, and the stack is as before.  On a sound machine it cannot fail, because the current
scope and the scopes of usable functions are live (`setsUp_call`), so a full stack is the only
reason for a scope not to open.
-/

namespace ScriptCore

/-- A record with values bound in it. -/
def Record.withValues (record : Record) (bound : List (String × Value)) : Record :=
  bound.foldl (fun record (name, value) => record.bind name (.value value)) record

theorem Record.withValues_cons (record : Record) (name : String) (value : Value)
    (rest : List (String × Value)) : record.withValues ((name, value) :: rest) =
      (record.bind name (.value value)).withValues rest :=
  rfl

namespace Machine

variable {usable : Value → Prop} {m m' m'' : Machine} {id : RecordId} {record : Record}

/-! ## Opening a scope -/

/-- A record that was made stands on top of the stack; nothing else changed. -/
structure Opens (m : Machine) (id : RecordId) (record : Record) (m' : Machine) : Prop where
  new : m.arena.record? id = none
  room : m.stack.isFull = false
  arena : ∀ other, m'.arena.record? other =
    if other = id then some { record with level := m.stack.depth } else m.arena.record? other
  stack : m'.stack = { m.stack with records := m.stack.records.push id }
  heap : m'.heap = m.heap
  program : m'.program = m.program
  config : m'.config = m.config

/-- A record may be set up as the given one: from the moment it was made until it is, the arena is
sound with the record on top. -/
def SetsUp (usable : Value → Prop) (m : Machine) (setUp : RecordId → Attempt ScopeArena Unit)
    (name : String) (kind : RecordKind) (record : RecordId → Record) : Prop :=
  ∀ id a, m.arena.record? id = none → a.record? id = some (.fresh name kind) →
    (∀ other, other ≠ id → a.record? other = m.arena.record? other) →
    a.Sound usable (m.stack.records.toList ++ [id]) →
    ∃ a', setUp id a = (.ok (), a') ∧ a'.Sound usable (m.stack.records.toList ++ [id]) ∧
      ∀ other, a'.record? other = if other = id then some (record id) else a.record? other

theorem depth_on (m : Machine) : Machine.depth m = (.ok m.stack.depth, m) :=
  rfl

theorem pushOnStack_on (id : RecordId) (m : Machine) :
    pushOnStack id m = ((m.stack.push m.arena id).1, { m with
      stack := (m.stack.push m.arena id).2.1
      arena := (m.stack.push m.arena id).2.2 }) :=
  rfl

theorem Opens.ne_of_record? (hopens : m.Opens id record m') {other : RecordId} {held : Record}
    (hheld : m.arena.record? other = some held) : other ≠ id := by
  rintro rfl
  simp [hopens.new] at hheld

/-- The records that were live stay as they are. -/
theorem Opens.record?_of_record? (hopens : m.Opens id record m') {other : RecordId} {held : Record}
    (hheld : m.arena.record? other = some held) : m'.arena.record? other = some held := by
  rw [hopens.arena, if_neg (hopens.ne_of_record? hheld), hheld]

theorem Opens.captured (hopens : m.Opens id record m') {other : RecordId}
    (hcaptured : m.arena.Captured other) : m'.arena.Captured other := by
  obtain ⟨held, hheld, hyes⟩ := hcaptured
  exact ⟨held, hopens.record?_of_record? hheld, hyes⟩

theorem Opens.currentRecord (hopens : m.Opens id record m') : m'.currentRecord = id := by
  rw [Machine.currentRecord, CallStack.top?, hopens.stack, Array.back?_push, Option.getD_some]

/-- A machine with one more scope open is sound if its arena is. -/
theorem Opens.sound (hopens : m.Opens id record m') (hm : m.Sound usable)
    (harena : m'.arena.Sound usable (m.stack.records.toList ++ [id])) : m'.Sound usable where
  arena := by
    rwa [hopens.stack, Array.toList_push]
  heap := by
    rw [hopens.heap]
    exact hm.heap.mono fun _ => hopens.captured
  base := by
    rw [hopens.stack, Array.toList_push, List.head?_append, hm.base, hopens.program]
    rfl

/-- What opening a scope comes to, once its record is set up: the record goes on the stack, or it is
released again. -/
theorem openRecord_eq {new held : Record} {setUp : RecordId → Attempt ScopeArena Unit}
    {a a' : ScopeArena} {outcome : Except RuntimeError Unit} (halloc : m.arena.alloc new = (id, a))
    (hset : setUp id a = (outcome, a')) (hid : a'.record? id = some held) :
    Machine.openRecord new setUp m =
      match outcome with
      | .error err => (.error err, { m with arena := (a'.release id).2 })
      | .ok _ =>
        if m.stack.isFull then
          (.error (.depthExceeded m.stack.limit held.name), { m with arena := (a'.release id).2 })
        else
          (.ok id, { m with
            stack := { m.stack with records := m.stack.records.push id }
            arena := a'.put id.index { held with level := m.stack.depth } }) := by
  have hreleased : ∃ freed, (a'.release id).1 = .ok freed := by
    rw [ScopeArena.release_of_record? hid]
    split <;> exact ⟨_, rfl⟩
  -- The new record is live, so releasing it does not fail and the first error is what comes out.
  obtain ⟨freed, hfreed⟩ := hreleased
  cases outcome with
  | error err =>
      simp only [Machine.openRecord, Attempt.bind_on, onArena_on, halloc, Attempt.tryCatch_on,
        hset, Attempt.discard_on, releaseRecord, hfreed, Attempt.throw_on]
  | ok _ =>
      cases hfull : m.stack.isFull with
      | true =>
          simp only [Machine.openRecord, Attempt.bind_on, onArena_on, halloc, Attempt.tryCatch_on,
            hset, pushOnStack_on, CallStack.push, ScopeArena.get_of_record? hid, hfull, if_true,
            Attempt.discard_on, releaseRecord, hfreed, Attempt.throw_on]
      | false =>
          simp only [Machine.openRecord, Attempt.bind_on, onArena_on, halloc, Attempt.tryCatch_on,
            hset, pushOnStack_on, CallStack.push, ScopeArena.get_of_record? hid, hfull,
            Bool.false_eq_true, if_false, Attempt.pure_on]

/-- A handler's scope is opened like that of a call without arguments. -/
theorem pushRecord_eq (name : String) (kind : RecordKind) (m : Machine) :
    Machine.pushRecord name kind m =
      Machine.openRecord (.fresh name kind) (setUpCall m.currentRecord []) m := by
  have hsetUp : (fun id => Attempt.ofStep fun a => a.appendRecords id m.currentRecord) =
      setUpCall m.currentRecord [] := by
    funext id a
    simp only [setUpCall, Attempt.bind_on, Attempt.ofStep]
    rcases a.appendRecords id m.currentRecord with ⟨_ | _, _⟩ <;> rfl
  rw [Machine.pushRecord, Attempt.bind_on, Attempt.get_on]
  exact congrArg (fun setUp => Machine.openRecord (.fresh name kind) setUp m) hsetUp

/-- Opening a scope either succeeds or, when the stack is full, changes nothing that was there. -/
theorem Sound.openRecord (hm : m.Sound usable) {setUp : RecordId → Attempt ScopeArena Unit}
    {name : String} {kind : RecordKind} {record : RecordId → Record}
    (hsetUp : SetsUp usable m setUp name kind record) :
    (∃ id m', Machine.openRecord (.fresh name kind) setUp m = (.ok id, m') ∧ m'.Sound usable ∧
      m.Opens id (record id) m') ∨
    (m.stack.isFull = true ∧ ∃ id m', Machine.openRecord (.fresh name kind) setUp m =
      (.error (.depthExceeded m.stack.limit (record id).name), m') ∧ m'.Sound usable ∧
      m.Evolves m' ∧ m'.heap = m.heap) := by
  have hnew := ScopeArena.record?_alloc_self hm.arena.vacancies (.fresh name kind)
  have hrecord? := ScopeArena.record?_alloc hm.arena.vacancies (.fresh name kind)
  have hmade := hm.arena.alloc name kind
  rcases halloc : m.arena.alloc (.fresh name kind) with ⟨id, a⟩
  rw [halloc] at hnew hrecord? hmade
  dsimp only at hnew hrecord? hmade
  obtain ⟨a', hset, hsound, hrecords⟩ := hsetUp id a hnew (by simp [hrecord?])
    (fun other hne => by simp [hrecord?, hne]) hmade
  have hid : a'.record? id = some (record id) := by simp [hrecords]
  have hother : ∀ other, other ≠ id → a'.record? other = m.arena.record? other := by
    intro other hne
    simp [hrecords, hrecord?, hne]
  cases hfull : m.stack.isFull with
  | false =>
      have htop := hsound.records id _ hid
      have hput := hsound.put hid { record id with level := m.stack.depth }
        ⟨htop.held, htop.valid, htop.usable, htop.owned, htop.below, htop.closed⟩
        (fun bound value hbound => ⟨value, hbound⟩) fun hyes => hyes
      have hopens : m.Opens id (record id) { m with
          stack := { m.stack with records := m.stack.records.push id }
          arena := a'.put id.index { record id with level := m.stack.depth } } := {
        new := hnew
        room := hfull
        arena := by
          intro other
          rw [ScopeArena.record?_put hid]
          split
          · rfl
          · exact hother other ‹_›
        stack := rfl
        heap := rfl
        program := rfl
        config := rfl }
      exact .inl ⟨id, _, by simp [openRecord_eq halloc hset hid, hfull], hopens.sound hm hput,
        hopens⟩
  | true =>
      -- The record is released again, and the arena is as it was, apart from the vacated slot.
      obtain ⟨-, hafter, hkept⟩ := hsound.release hid
      have hpersists : ∀ other, m.arena.Persists (a'.release id).2 other := by
        intro other held hheld
        have hne : other ≠ id := by
          rintro rfl
          simp [hnew] at hheld
        exact ⟨held, by simp [hkept, hne, hother other hne, hheld], rfl, rfl, rfl, rfl,
          fun hyes => hyes⟩
      exact .inr ⟨rfl, id, { m with arena := (a'.release id).2 },
        by simp [openRecord_eq halloc hset hid, hfull], hm.withArena hafter hpersists,
        ⟨rfl, rfl, rfl, hpersists⟩, rfl⟩

/-- A handler's scope links what the current scope sees. -/
theorem setsUp_pushRecord (name : String) (kind : RecordKind) {current : Record}
    (hcurrent : m.arena.record? m.currentRecord = some current) :
    SetsUp usable m (fun id a => a.appendRecords id m.currentRecord) name kind fun _ =>
      ScopeArena.withLinks (.fresh name kind) (ScopeArena.linksInto m.currentRecord current) := by
  intro id a hnew hfresh hother ha
  have hne : m.currentRecord ≠ id := by
    rintro rfl
    simp [hnew] at hcurrent
  obtain ⟨happend, hsound⟩ := ha.appendRecords hfresh ((hother _ hne).trans hcurrent) hne
  exact ⟨_, happend, hsound, ScopeArena.record?_put hfresh _⟩

/-- Binding values in a live record changes that record alone, and keeps what each binding keeps. -/
theorem define_all (keeps : ScopeArena → Prop) {a : ScopeArena} (bound : List (String × Value))
    (hput : ∀ a record, ∀ entry ∈ bound, keeps a → a.record? id = some record →
      keeps (a.put id.index (record.bind entry.1 (.value entry.2))))
    (ha : keeps a) (hrecord : a.record? id = some record) :
    ∃ a', (bound.forM fun (parameter, value) =>
        Attempt.ofStep fun a => a.define id parameter value : Attempt ScopeArena Unit) a =
        (.ok (), a') ∧ keeps a' ∧
      ∀ other, a'.record? other = if other = id then some (record.withValues bound)
        else a.record? other := by
  induction bound generalizing a record with
  | nil => exact ⟨a, rfl, ha, fun other => by split <;> simp_all [Record.withValues]⟩
  | cons entry rest ih =>
      obtain ⟨name, value⟩ := entry
      have hdefine := hput a record _ List.mem_cons_self ha hrecord
      have hrecord' : (a.put id.index (record.bind name (.value value))).record? id =
          some (record.bind name (.value value)) := by simp [ScopeArena.record?_put hrecord]
      -- The first name is bound, and the record that has it is the one the others are bound in.
      obtain ⟨a', hrest, hkeeps, hrecords⟩ := ih
        (fun a record other hother => hput a record other (List.mem_cons_of_mem _ hother))
        hdefine hrecord'
      refine ⟨a', ?_, hkeeps, fun other => ?_⟩
      · change ((Attempt.ofStep fun a => a.define id name value) >>= fun _ => rest.forM _ :
          Attempt ScopeArena Unit) a = _
        rw [Attempt.bind_on, Attempt.ofStep, ScopeArena.define_of_record? hrecord]
        exact hrest
      · rw [hrecords, ScopeArena.record?_put hrecord]
        by_cases hother : other = id <;> simp [hother, Record.withValues]

/-- The scope of a call links what the function's scope sees, and binds the parameters. -/
theorem setsUp_call (name : String) {scope : RecordId} {enclosing : Record}
    (hscope : m.arena.record? scope = some enclosing)
    {bound : List (String × Value)} (hbound : ∀ entry ∈ bound, usable entry.2) :
    SetsUp usable m (setUpCall scope bound) name .function fun _ =>
      (ScopeArena.withLinks (.fresh name .function)
        (ScopeArena.linksInto scope enclosing)).withValues bound := by
  intro id a hnew hfresh hother ha
  have hne : scope ≠ id := by
    rintro rfl
    simp [hnew] at hscope
  obtain ⟨happend, hsound⟩ := ha.appendRecords hfresh ((hother _ hne).trans hscope) hne
  have hrecord? := ScopeArena.record?_put hfresh
    (ScopeArena.withLinks (.fresh name .function) (ScopeArena.linksInto scope enclosing))
  obtain ⟨a', hdefine, hsound', hrecords⟩ := define_all (·.Sound usable _) bound
    (fun a record entry hentry ha hrecord => ha.define hrecord entry.1 (hbound entry hentry))
    hsound (by rw [hrecord?, if_pos rfl])
  refine ⟨a', ?_, hsound', fun other => ?_⟩
  · rw [setUpCall, Attempt.bind_on, Attempt.ofStep, happend]
    exact hdefine
  · rw [hrecords, hrecord?]
    by_cases hother : other = id <;> simp [hother]

/-! ## Closing a scope -/

/-- The top scope was closed, and its record was freed unless it was captured. -/
structure Closes (m : Machine) (id : RecordId) (record : Record) (m' : Machine) : Prop where
  arena : ∀ other, m'.arena.record? other =
    if other = id ∧ record.captured = false then none else m.arena.record? other
  stack : m.stack = { m'.stack with records := m'.stack.records.push id }
  heap : m'.heap = m.heap
  program : m'.program = m.program
  config : m'.config = m.config

/-- What closing a live top scope comes to. -/
theorem closeTop_eq {records : Array RecordId} (hstack : m.stack.records = records.push id)
    (htop : m.arena.record? id = some record) :
    ∃ m', Machine.closeTop m = (.ok (), m') ∧ m'.arena = (m.arena.release id).2 ∧
      m.Closes id record m' := by
  have hpop : m.stack.pop = (.ok id, { m.stack with records }) := by
    simp [CallStack.pop, CallStack.top?, hstack]
  have hrelease := ScopeArena.release_of_record? htop
  have hok : ∃ freed, (m.arena.release id).1 = .ok freed := by
    rw [hrelease]
    split <;> exact ⟨_, rfl⟩
  obtain ⟨freed, hfreed⟩ := hok
  refine ⟨{ m with
    stack := { m.stack with records }
    arena := (m.arena.release id).2 }, ?_, rfl, ?_⟩
  · simp only [Machine.closeTop, Attempt.bind_on, onStack_on, hpop, Attempt.discard_on,
      releaseRecord, onArena_on, hfreed]
  · exact {
      arena := by
        intro other
        rw [hrelease]
        cases hyes : record.captured <;> simp [ScopeArena.record?_free htop]
      stack := by rw [← hstack]
      heap := rfl
      program := rfl
      config := rfl }

/-- The scopes that are open afterwards are those below the one that was closed. -/
theorem Closes.records_eq (hcloses : m.Closes id record m') {records : Array RecordId}
    {top : RecordId} (hstack : m.stack.records = records.push top) :
    m'.stack.records = records ∧ top = id := by
  have hsame := hstack.symm.trans (congrArg CallStack.records hcloses.stack)
  exact ⟨by simpa using (congrArg Array.pop hsame).symm, by simpa using congrArg Array.back? hsame⟩

theorem Sound.closeTop (hm : m.Sound usable) {records : Array RecordId}
    (hstack : m.stack.records = records.push id) (hpos : 0 < records.size)
    (htop : m.arena.record? id = some record) :
    ∃ m', Machine.closeTop m = (.ok (), m') ∧ m'.Sound usable ∧ m.Closes id record m' := by
  have harena := hm.arena
  rw [hstack, Array.toList_push] at harena
  obtain ⟨-, hafter, hrecords⟩ := harena.release htop
  obtain ⟨m', hclose, hreleased, hcloses⟩ := closeTop_eq hstack htop
  obtain ⟨hbelow, -⟩ := hcloses.records_eq hstack
  refine ⟨m', hclose, ?_, hcloses⟩
  exact {
    arena := by rwa [hreleased, hbelow]
    heap := by
      rw [hcloses.heap, hreleased]
      refine hm.heap.mono fun other hother => ?_
      obtain ⟨held, hheld, hyes⟩ := hother
      refine ⟨held, ?_, hyes⟩
      rw [hrecords, if_neg, hheld]
      -- Only a record that is not captured goes, so what was captured stays so.
      rintro ⟨rfl, hno⟩
      obtain rfl : record = held := Option.some.inj (htop.symm.trans hheld)
      simp [hno] at hyes
    base := by
      have hbase := hm.base
      rw [hstack, Array.toList_push, List.head?_append] at hbase
      rw [hcloses.program, hbelow]
      cases hlist : records.toList with
      | nil => simp [Array.toList_eq_nil_iff.1 hlist] at hpos
      | cons first rest => simpa [hlist] using hbase }

/-- Closing the scope that was opened gives back the stack. -/
theorem Opens.stack_of_closes {opened worked closed : Machine} {before after : Record}
    (hopens : m.Opens id before opened) (hworked : worked.stack = opened.stack)
    (hcloses : worked.Closes id after closed) : closed.stack = m.stack := by
  have hstack := hcloses.stack
  rw [hworked, hopens.stack] at hstack
  obtain ⟨hrecords, hlimit⟩ := CallStack.mk.inj hstack
  have hsame : m.stack.records = closed.stack.records := by
    simpa using congrArg Array.pop hrecords
  cases hbefore : m.stack
  cases hafter : closed.stack
  simp_all

/-- Whatever opens a scope, works in it and closes it again keeps the stack and the records that
were live. -/
theorem Opens.evolves_of_closes {opened worked closed : Machine} {before after : Record}
    (hopens : m.Opens id before opened) (hevolves : opened.Evolves worked)
    (hcloses : worked.Closes id after closed) : m.Evolves closed where
  stack := hopens.stack_of_closes hevolves.stack hcloses
  program := hcloses.program.trans (hevolves.program.trans hopens.program)
  config := hcloses.config.trans (hevolves.config.trans hopens.config)
  records other := by
    intro held hheld
    have hne := hopens.ne_of_record? hheld
    obtain ⟨later, hlater, hsame⟩ :=
      hevolves.records other held (hopens.record?_of_record? hheld)
    exact ⟨later, by simp [hcloses.arena, hne, hlater], hsame⟩

/-! ### By depth and by handle -/

theorem unwindTo_on (depth : Nat) (m : Machine) :
    Machine.unwindTo depth m = Machine.closeScopes (m.stack.depth - max depth 1) m :=
  rfl

theorem unwindTo_of_depth_le {depth : Nat} (hdepth : m.stack.depth ≤ max depth 1) :
    Machine.unwindTo depth m = (.ok (), m) := by
  rw [unwindTo_on, Nat.sub_eq_zero_of_le hdepth]
  rfl

/-- Closing down to a depth closes the one scope above it. -/
theorem unwindTo_of_closeTop {depth : Nat} (hpos : 0 < depth) (hdepth : m.stack.depth = depth + 1)
    (hclose : Machine.closeTop m = (.ok (), m')) : Machine.unwindTo depth m = (.ok (), m') := by
  have hcount : m.stack.depth - max depth 1 = 1 := by omega
  simp only [unwindTo_on, hcount, closeScopes, Attempt.bind_on, hclose, Attempt.pure_on]

/-- An open scope is closed by unwinding to its place. -/
theorem popRecord_of_positionOf? {position : Nat}
    (hposition : m.stack.positionOf? id = some position) :
    Machine.popRecord id m = Machine.unwindTo position m := by
  rw [Machine.popRecord, Attempt.bind_on, Attempt.get_on]
  simp only [hposition]

/-- Of a scope that is not open there is nothing to close. -/
theorem popRecord_of_positionOf?_eq_none (hposition : m.stack.positionOf? id = none) :
    Machine.popRecord id m = (.ok (), m) := by
  rw [Machine.popRecord, Attempt.bind_on, Attempt.get_on]
  simp only [hposition, Attempt.pure_on]

/-- The scope on top is closed by unwinding to the height below it. -/
theorem popRecord_of_top {records : Array RecordId} (hstack : m.stack.records = records.push id) :
    Machine.popRecord id m = Machine.unwindTo records.size m := by
  apply popRecord_of_positionOf?
  simp [CallStack.positionOf?, CallStack.depth, hstack, CallStack.positionBelow]

theorem Sound.unwindTo_top (hm : m.Sound usable) {records : Array RecordId}
    (hstack : m.stack.records = records.push id) (hpos : 0 < records.size)
    (htop : m.arena.record? id = some record) :
    ∃ m', unwindTo records.size m = (.ok (), m') ∧ m'.Sound usable ∧ m.Closes id record m' := by
  obtain ⟨m', hclose, hsound, hcloses⟩ := hm.closeTop hstack hpos htop
  refine ⟨m', unwindTo_of_closeTop hpos ?_ hclose, hsound, hcloses⟩
  rw [CallStack.depth, hstack, Array.size_push]

/-- A scope that was opened and worked in can be closed, by depth or by handle, with the same
result; the stack and the records that were live before are kept. -/
theorem Opens.close {opened worked : Machine} (hopens : m.Opens id record opened)
    (hpos : 0 < m.stack.depth) (hworked : Later usable opened worked) :
    ∃ after closed, worked.arena.record? id = some after ∧
      Machine.unwindTo m.stack.depth worked = (.ok (), closed) ∧
      Machine.popRecord id worked = (.ok (), closed) ∧ closed.Sound usable ∧
      worked.Closes id after closed ∧ m.Evolves closed := by
  obtain ⟨after, hafter, -⟩ := hworked.evolves.records id { record with level := m.stack.depth }
    (by simp [hopens.arena])
  have hstack : worked.stack.records = m.stack.records.push id := by
    rw [hworked.evolves.stack, hopens.stack]
  obtain ⟨closed, hunwind, hsound, hcloses⟩ := hworked.sound.unwindTo_top hstack hpos hafter
  exact ⟨after, closed, hafter, hunwind, (popRecord_of_top hstack).trans hunwind, hsound, hcloses,
    hopens.evolves_of_closes hworked.evolves hcloses⟩

/-! ## Closing any number of scopes -/

/-- Closing scopes, but not the one of the program, keeps the machine sound. -/
theorem Sound.closeScopes (hm : m.Sound usable) (count : Nat) (hcount : count < m.stack.depth) :
    ∃ m', Machine.closeScopes count m = (.ok (), m') ∧ m'.Sound usable := by
  induction count generalizing m with
  | zero => exact ⟨m, rfl, hm⟩
  | succ count ih =>
      obtain ⟨rest, record, hlist, htop⟩ := hm.exists_top
      have hstack : m.stack.records = rest.toArray.push m.currentRecord := by
        apply Array.toList_inj.1
        simpa using hlist
      have hsize : m.stack.depth = rest.length + 1 := by simp [CallStack.depth, hstack]
      obtain ⟨m', hclose, hsound, hcloses⟩ := hm.closeTop hstack (by simp; omega) htop
      -- One scope fewer is open, and so is the scope of the program still.
      have hdepth : m.stack.depth = m'.stack.depth + 1 := by
        rw [hcloses.stack]
        simp [CallStack.depth]
      obtain ⟨m'', hrest, hsound'⟩ := ih hsound (by omega)
      refine ⟨m'', ?_, hsound'⟩
      simp only [Machine.closeScopes, Attempt.bind_on, hclose, hrest]

theorem Sound.depth_pos (hm : m.Sound usable) : 0 < m.stack.depth := by
  obtain ⟨rest, record, hlist, -⟩ := hm.exists_top
  have hlength := congrArg List.length hlist
  simp only [Array.length_toList, List.length_append, List.length_singleton] at hlength
  simp only [CallStack.depth]
  omega

theorem Sound.unwindTo (hm : m.Sound usable) (depth : Nat) :
    ∃ m', Machine.unwindTo depth m = (.ok (), m') ∧ m'.Sound usable := by
  have hpos := hm.depth_pos
  exact hm.closeScopes (m.stack.depth - max depth 1) (by omega)

theorem Sound.popRecord (hm : m.Sound usable) (id : RecordId) :
    ∃ m', Machine.popRecord id m = (.ok (), m') ∧ m'.Sound usable := by
  cases hposition : m.stack.positionOf? id with
  | some position =>
      rw [popRecord_of_positionOf? hposition]
      exact hm.unwindTo position
  | none => exact ⟨m, popRecord_of_positionOf?_eq_none hposition, hm⟩

end Machine

end ScriptCore
