import ScriptCore.Proofs.Heap.Alike
import ScriptCore.Proofs.Machine.Stack
import ScriptCore.Proofs.Scope.Alike

/-!
# Machines that cannot be told apart

`Related usable pairs m d` says that `d` is like `m` up to the handles of records: records are
paired and heaps alike.  The machine `m` may have more scopes open than `d`, and records without a
partner.

`Continues` says what may become of related machines while a program runs on both: the same scopes
are open as before, paired records stay paired, a record that was there gets no new partner, and one
without a partner is left alone.

A scope that was opened on both sides may be closed on one side early and on the other side late,
with work in between of which only the first knows that the scope is still open
(`Related.close_right`).

An operation that does the same on related machines mirrors itself (`Mirrors`): it has the same
outcome on both, and what it leaves is related and continues what was there.  The operations of a
machine are gone through one by one; those on the heap and on the current scope all come down to
`Related.onArena` and to what alike heaps agree on.

The relation grows by a pair when a scope is opened on both sides (`withPair`) and shrinks to what
is still live when a scope is closed on one (`livePairs`).
-/

namespace ScriptCore

/-- Binding the same values in records that are alike. -/
theorem Record.Alike.withValues {pairs : RecordId → RecordId → Prop} {r r' : Record}
    (hr : r.Alike pairs r') (hvalid : r.members.Valid) (hvalid' : r'.members.Valid)
    (bound : List (String × Value)) : (r.withValues bound).Alike pairs (r'.withValues bound) := by
  induction bound generalizing r r' with
  | nil => exact hr
  | cons entry rest ih =>
      exact ih (hr.bind hvalid hvalid' entry.1 (.value entry.2)) (hvalid.set _ _).1
        (hvalid'.set _ _).1

namespace Machine

/-- The second machine is like the first up to the handles of records, and it has no more scopes
open. -/
structure Related (usable : Value → Prop) (pairs : RecordId → RecordId → Prop) (m d : Machine) :
    Prop where
  left : m.Sound usable
  right : d.Sound usable
  arena : ScopeArena.Paired pairs m.arena d.arena
  heap : m.heap.Alike usable pairs d.heap
  depth : d.stack.depth ≤ m.stack.depth
  limit : d.stack.limit = m.stack.limit

/-- What became of machines whose records were paired. -/
structure Continues (pairs : RecordId → RecordId → Prop) (m d : Machine)
    (pairs' : RecordId → RecordId → Prop) (m' d' : Machine) : Prop where
  left : m.Evolves m'
  right : d.Evolves d'
  kept : ∀ id id', pairs id id' → pairs' id id'
  old : ∀ id id', pairs' id id' → m.arena.isLive id = true → pairs id id'
  apart : ∀ id, m.arena.isLive id = true → (∀ id', ¬ pairs id id') →
    m'.arena.record? id = m.arena.record? id

variable {usable : Value → Prop} {pairs pairs' pairs'' : RecordId → RecordId → Prop}
  {m m' m'' d d' d'' : Machine}

theorem Evolves.isLive (hevolves : m.Evolves m') {id : RecordId}
    (hlive : m.arena.isLive id = true) :
    m'.arena.isLive id = true :=
  (hevolves.records id).isLive hlive

theorem Evolves.currentRecord (hevolves : m.Evolves m') : m'.currentRecord = m.currentRecord := by
  rw [Machine.currentRecord, hevolves.stack, hevolves.program, Machine.currentRecord]

theorem Continues.refl (pairs : RecordId → RecordId → Prop) (m d : Machine) :
    Continues pairs m d pairs m d :=
  ⟨.refl m, .refl d, fun _ _ hpair => hpair, fun _ _ hpair _ => hpair, fun _ _ _ => rfl⟩

theorem Continues.trans (hfirst : Continues pairs m d pairs' m' d')
    (hsecond : Continues pairs' m' d' pairs'' m'' d'') : Continues pairs m d pairs'' m'' d'' where
  left := hfirst.left.trans hsecond.left
  right := hfirst.right.trans hsecond.right
  kept id id' hpair := hsecond.kept id id' (hfirst.kept id id' hpair)
  old id id' hpair hlive :=
    hfirst.old id id' (hsecond.old id id' hpair (hfirst.left.isLive hlive)) hlive
  apart id hlive hnone := by
    rw [hsecond.apart id (hfirst.left.isLive hlive) fun id' hpair =>
      hnone id' (hfirst.old id id' hpair hlive)]
    exact hfirst.apart id hlive hnone

theorem Related.null (hmd : Related usable pairs m d) : usable .null :=
  hmd.left.heap.unmade _ not_false

theorem Related.boolean (hmd : Related usable pairs m d) (truth : Bool) : usable (.boolean truth) :=
  hmd.left.heap.unmade _ not_false

/-- Functions at one address of related machines. -/
theorem Related.callable (hmd : Related usable pairs m d) {address : Address}
    (haddress : usable (.function address)) :
    (m.heap.function address).callable.Alike pairs (d.heap.function address).callable :=
  (hmd.heap.function address).callable.mono fun _ _ hpair => hpair haddress

/-- The scopes on top are paired. -/
def AtTop (pairs : RecordId → RecordId → Prop) (m d : Machine) : Prop :=
  pairs m.currentRecord d.currentRecord

theorem AtTop.continues (htop : AtTop pairs m d) (hcont : Continues pairs m d pairs' m' d') :
    AtTop pairs' m' d' := by
  rw [AtTop, hcont.left.currentRecord, hcont.right.currentRecord]
  exact hcont.kept _ _ htop

/-- The pairs of live records with themselves. -/
def selfPairs (m : Machine) : RecordId → RecordId → Prop :=
  fun id id' => id' = id ∧ m.arena.isLive id = true

/-- A sound machine is related to itself. -/
theorem Sound.related_self (hm : m.Sound usable) :
    Related usable m.selfPairs m m ∧ AtTop m.selfPairs m m := by
  obtain ⟨rest, current, -, hcurrent⟩ := hm.exists_top
  refine ⟨?_, rfl, ScopeArena.isLive_of_record? hcurrent⟩
  exact {
    left := hm
    right := hm
    arena := {
      alike := by
        -- Every live record is its own partner; its links lead to live records, so these are paired
        -- too.
        rintro id _ ⟨rfl, hlive⟩
        obtain ⟨record, hrecord⟩ := ScopeArena.isLive_iff.1 hlive
        have hsound := hm.arena.records _ _ hrecord
        refine ⟨record, record, hrecord, hrecord, .refl fun name owner hlink => ⟨rfl, ?_⟩⟩
        exact (hsound.owned name owner (hsound.valid.find?_eq_some_iff.2 hlink)).isLive
      injective := by
        rintro id _ other _ ⟨rfl, -⟩ ⟨rfl, -⟩
        rfl }
    heap := {
      lists := rfl
      dicts := rfl
      modules := rfl
      structs := rfl
      size := rfl
      function := fun address => {
        name := rfl
        parameters := rfl
        callable := by
          cases hcallable : (m.heap.function address).callable with
          | closure scope body =>
              exact .closure body fun husable => ⟨rfl,
                ((hm.heap.function address husable).scope scope body hcallable).isLive⟩
          | _ => exact .native rfl
        doc := rfl } }
    depth := Nat.le_refl _
    limit := rfl }

/-! ## Steps that keep the stack -/

/-- Done on both machines, a computation comes to the same outcome, which is calm, and the machines
stay related. -/
structure Mirrors {α : Type} (usable : Value → Prop) (pairs : RecordId → RecordId → Prop)
    (good : α → Prop) (attempt : Attempt Machine α) (m d : Machine) : Prop where
  outcome : (attempt d).1 = (attempt m).1
  calm : Calm good (attempt m).1
  related : Related usable pairs (attempt m).2 (attempt d).2
  continues : Continues pairs m d pairs (attempt m).2 (attempt d).2

theorem Related.onHeap {α : Type} (hmd : Related usable pairs m d) {good : α → Prop}
    {attempt : Attempt Heap α}
    (hkeeps : ∀ captured, attempt.Keeps (Heap.Sound usable captured) good)
    (hagrees : attempt.Agrees (Heap.Alike usable pairs)) :
    Mirrors usable pairs good (Machine.onHeap attempt) m d := by
  obtain ⟨hleft, hcalm⟩ := keeps_onHeap hkeeps m hmd.left.later
  obtain ⟨hright, -⟩ := keeps_onHeap hkeeps d hmd.right.later
  obtain ⟨houtcome, hheap⟩ := hagrees m.heap d.heap hmd.heap
  rw [onHeap_on] at hleft hcalm hright
  refine ⟨houtcome, hcalm, ?_, ?_⟩ <;> rw [onHeap_on, onHeap_on]
  · exact ⟨hleft.sound, hright.sound, hmd.arena, hheap, hmd.depth, hmd.limit⟩
  · exact ⟨hleft.evolves, hright.evolves, fun _ _ hpair => hpair, fun _ _ hpair _ => hpair,
      fun _ _ _ => rfl⟩

/-- A step on the arenas that keeps the records paired and leaves those without a partner alone. -/
theorem Related.onArena {α : Type} (hmd : Related usable pairs m d) {good : α → Prop}
    {attempt : Attempt Machine α} {step step' : Attempt ScopeArena α}
    (hkeeps : ∀ m₀, attempt.Keeps (Later usable m₀) good)
    (hon : attempt m = Machine.onArena step m) (hon' : attempt d = Machine.onArena step' d)
    (hstep : (step' d.arena).1 = (step m.arena).1 ∧
      ScopeArena.Paired pairs (step m.arena).2 (step' d.arena).2 ∧
      ScopeArena.Apart pairs m.arena (step m.arena).2) :
    Mirrors usable pairs good attempt m d := by
  obtain ⟨houtcome, harena, hapart⟩ := hstep
  obtain ⟨hleft, hcalm⟩ := hkeeps m m hmd.left.later
  obtain ⟨hright, -⟩ := hkeeps d d hmd.right.later
  rw [onArena_on] at hon hon'
  rw [hon] at hleft hcalm
  rw [hon'] at hright
  refine ⟨?_, ?_, ?_, ?_⟩ <;> rw [hon]
  · rwa [hon']
  · exact hcalm
  · rw [hon']
    exact ⟨hleft.sound, hright.sound, harena, hmd.heap, hmd.depth, hmd.limit⟩
  · rw [hon']
    exact ⟨hleft.evolves, hright.evolves, fun _ _ hpair => hpair, fun _ _ hpair _ => hpair,
      fun id _ => hapart id⟩

theorem Related.assign (hmd : Related usable pairs m d) (htop : AtTop pairs m d) (name : String)
    {value : Value} (hvalue : usable value) :
    Mirrors usable pairs (fun _ => True) (Machine.assign name value) m d :=
  hmd.onArena (fun _ => keeps_assign name hvalue) (assign_on name value m) (assign_on name value d)
    (hmd.arena.assign hmd.left.arena hmd.right.arena htop name value)

theorem Related.define (hmd : Related usable pairs m d) (htop : AtTop pairs m d) (name : String)
    {value : Value} (hvalue : usable value) :
    Mirrors usable pairs (fun _ => True) (Machine.define name value) m d :=
  hmd.onArena (fun _ => keeps_define name hvalue) (define_on name value m) (define_on name value d)
    (hmd.arena.define hmd.left.arena hmd.right.arena htop name value)

theorem Related.lookup (hmd : Related usable pairs m d) (htop : AtTop pairs m d) (name : String) :
    d.lookup name = m.lookup name :=
  hmd.arena.lookup hmd.left.arena hmd.right.arena htop name

/-- Defining a function captures the current scope, makes the function and binds its name. -/
theorem Sound.defineFunction_eq (hm : m.Sound usable) (name : String) (parameters : Parameters)
    (body : Expr) :
    Machine.defineFunction name parameters body m =
      (.ok (m.heap.newFunction name parameters (.closure m.currentRecord body)).1, { m with
        arena := ((m.arena.capture m.currentRecord).2.define m.currentRecord name
          (m.heap.newFunction name parameters (.closure m.currentRecord body)).1).2
        heap := (m.heap.newFunction name parameters (.closure m.currentRecord body)).2 }) := by
  obtain ⟨rest, record, -, hrecord⟩ := hm.exists_top
  obtain ⟨hok, -, ⟨held, hheld, -⟩, -⟩ := hm.arena.capture (ScopeArena.isLive_of_record? hrecord)
  rw [Machine.defineFunction, Attempt.bind_on, Attempt.get_on]
  dsimp only
  rw [Attempt.bind_on, onArena_on, hok]
  dsimp only
  rw [Attempt.bind_on, onHeap_on]
  dsimp only
  rw [Attempt.bind_on, define_on, onArena_on]
  dsimp only [Machine.currentRecord] at hheld ⊢
  rw [ScopeArena.define_of_record? hheld]
  rfl

theorem Related.defineFunction (hmd : Related usable pairs m d) (htop : AtTop pairs m d)
    (name : String) {parameters : Parameters} (hparameters : parameters.Fit usable) {body : Expr}
    (hbody : body.Fit usable) :
    Mirrors usable pairs usable (Machine.defineFunction name parameters body) m d := by
  obtain ⟨hleft, hcalm⟩ := keeps_defineFunction name hparameters hbody m hmd.left.later
  obtain ⟨hright, -⟩ := keeps_defineFunction name hparameters hbody d hmd.right.later
  obtain ⟨record, record', hrecord, hrecord', -⟩ := hmd.arena.alike _ _ htop
  obtain ⟨-, hsound, -⟩ := hmd.left.arena.capture (ScopeArena.isLive_of_record? hrecord)
  obtain ⟨-, hsound', -⟩ := hmd.right.arena.capture (ScopeArena.isLive_of_record? hrecord')
  obtain ⟨hcapture, hapart⟩ := hmd.arena.capture hmd.left.arena hmd.right.arena htop
  -- The functions stand at one address and were defined in paired scopes, so the heaps stay alike.
  obtain ⟨hfunction, hheap⟩ := hmd.heap.newFunction name parameters (.closure body htop)
  obtain ⟨-, hdefine, hapart'⟩ := hcapture.define hsound hsound' htop name
    (m.heap.newFunction name parameters (.closure m.currentRecord body)).1
  rw [hmd.left.defineFunction_eq] at hleft hcalm
  rw [hmd.right.defineFunction_eq, hfunction] at hright
  refine ⟨?_, ?_, ?_, ?_⟩ <;> rw [hmd.left.defineFunction_eq]
  · rw [hmd.right.defineFunction_eq, hfunction]
  · exact hcalm
  · rw [hmd.right.defineFunction_eq, hfunction]
    exact ⟨hleft.sound, hright.sound, hdefine, hheap, hmd.depth, hmd.limit⟩
  · rw [hmd.right.defineFunction_eq, hfunction]
    exact ⟨hleft.evolves, hright.evolves, fun _ _ hpair => hpair, fun _ _ hpair _ => hpair,
      fun id _ hnone => (hapart' id hnone).trans (hapart id hnone)⟩

/-- The machine with a function marked, or as it is. -/
def markIf (marks : Bool) (address : Address) (m : Machine) : Machine :=
  { m with heap := if marks then m.heap.marked address else m.heap }

theorem Sound.markIf (hm : m.Sound usable) (marks : Bool) {address : Address}
    (haddress : usable (.function address)) : (m.markIf marks address).Sound usable := by
  cases marks with
  | true => exact ((keeps_markOptimized haddress) m hm.later).1.sound
  | false => exact hm

/-- Functions may be marked on either side. -/
theorem Related.markIf (hmd : Related usable pairs m d) (marks marks' : Bool)
    {address address' : Address} (haddress : usable (.function address))
    (haddress' : usable (.function address')) :
    Related usable pairs (m.markIf marks address) (d.markIf marks' address') where
  left := hmd.left.markIf marks haddress
  right := hmd.right.markIf marks' haddress'
  arena := hmd.arena
  heap := by
    have hleft : (m.markIf marks address).heap.Alike usable pairs d.heap := by
      cases marks with
      | true => exact hmd.heap.marked_left address
      | false => exact hmd.heap
    cases marks' with
    | true => exact hleft.marked_right address'
    | false => exact hleft
  depth := hmd.depth
  limit := hmd.limit

theorem Continues.markIf (hcont : Continues pairs m d pairs' m' d') (marks marks' : Bool)
    (address address' : Address) :
    Continues pairs m d pairs' (m'.markIf marks address) (d'.markIf marks' address') where
  left := hcont.left.trans ⟨rfl, rfl, rfl, ScopeArena.Persists.refl _⟩
  right := hcont.right.trans ⟨rfl, rfl, rfl, ScopeArena.Persists.refl _⟩
  kept := hcont.kept
  old := hcont.old
  apart := hcont.apart

/-! ## A scope that is opened and closed -/

/-- The pairs with one more. -/
def withPair (pairs : RecordId → RecordId → Prop) (id id' : RecordId) :
    RecordId → RecordId → Prop :=
  fun other other' => pairs other other' ∨ other = id ∧ other' = id'

/-- The pairs of which the second is live. -/
def livePairs (pairs : RecordId → RecordId → Prop) (d : Machine) : RecordId → RecordId → Prop :=
  fun id id' => pairs id id' ∧ d.arena.isLive id' = true

variable {id id' : RecordId} {record record' : Record}

theorem Related.opened (hmd : Related usable pairs m d) (hopens : m.Opens id record m')
    (hopens' : d.Opens id' record' d') (hleft : m'.Sound usable) (hright : d'.Sound usable)
    (halike : record.Alike pairs record') :
    Related usable (withPair pairs id id') m' d' ∧ AtTop (withPair pairs id id') m' d' := by
  refine ⟨?_, .inr ⟨hopens.currentRecord, hopens'.currentRecord⟩⟩
  exact {
    left := hleft
    right := hright
    arena := hmd.arena.extend hopens.new hopens'.new hopens.arena hopens'.arena
      ⟨halike.name, halike.kind, halike.locked, halike.captured, halike.members⟩
    heap := by
      rw [hopens.heap, hopens'.heap]
      exact hmd.heap.mono fun _ _ _ _ _ _ hpair => .inl hpair
    depth := by
      have hdepth := hmd.depth
      simp only [CallStack.depth, hopens.stack, hopens'.stack, Array.size_push] at hdepth ⊢
      omega
    limit := by
      rw [hopens.stack, hopens'.stack]
      exact hmd.limit }

theorem Related.room (hmd : Related usable pairs m d) (hroom : m.stack.isFull = false) :
    d.stack.isFull = false := by
  have hdepth := hmd.depth
  simp only [CallStack.isFull, decide_eq_false_iff_not, Nat.not_le, hmd.limit] at hroom ⊢
  omega

theorem Sound.openRecord_of_room (hm : m.Sound usable) (hroom : m.stack.isFull = false)
    {setUp : RecordId → Attempt ScopeArena Unit} {name : String} {kind : RecordKind}
    {record : RecordId → Record} (hsetUp : SetsUp usable m setUp name kind record) :
    ∃ id m', Machine.openRecord (.fresh name kind) setUp m = (.ok id, m') ∧ m'.Sound usable ∧
      m.Opens id (record id) m' := by
  rcases hm.openRecord hsetUp with hopened | ⟨hfull, -⟩
  · exact hopened
  · simp [hroom] at hfull

/-- A scope that sees what the current one sees, opened on both sides. -/
theorem Related.pushRecord (hmd : Related usable pairs m d) (htop : AtTop pairs m d)
    (hroom : m.stack.isFull = false) (name : String) (kind : RecordKind) :
    ∃ id id' record record' opened opened', Machine.pushRecord name kind m = (.ok id, opened) ∧
      Machine.pushRecord name kind d = (.ok id', opened') ∧ m.Opens id record opened ∧
      d.Opens id' record' opened' ∧ Related usable (withPair pairs id id') opened opened' ∧
      AtTop (withPair pairs id id') opened opened' := by
  obtain ⟨current, current', hcurrent, hcurrent', halike⟩ := hmd.arena.alike _ _ htop
  obtain ⟨id, opened, hopen, hsound, hopens⟩ :=
    hmd.left.openRecord_of_room hroom (setsUp_pushRecord name kind hcurrent)
  obtain ⟨id', opened', hopen', hsound', hopens'⟩ :=
    hmd.right.openRecord_of_room (hmd.room hroom) (setsUp_pushRecord name kind hcurrent')
  have hrecords := halike.linked (hmd.left.arena.records _ _ hcurrent).valid
    (hmd.right.arena.records _ _ hcurrent').valid htop name kind
  exact ⟨id, id', _, _, opened, opened', hopen, hopen', hopens, hopens',
    hmd.opened hopens hopens' hsound hsound' hrecords⟩

/-- The scope of a call, opened on both sides. -/
theorem Related.openFunctionRecord (hmd : Related usable pairs m d) {scope scope' : RecordId}
    (hscope : pairs scope scope') (hroom : m.stack.isFull = false) (name : String)
    {bound : List (String × Value)} (hbound : ∀ entry ∈ bound, usable entry.2) :
    ∃ id id' record record' opened opened',
      Machine.openFunctionRecord name scope bound m = (.ok (), opened) ∧
      Machine.openFunctionRecord name scope' bound d = (.ok (), opened') ∧
      m.Opens id record opened ∧ d.Opens id' record' opened' ∧
      Related usable (withPair pairs id id') opened opened' ∧
      AtTop (withPair pairs id id') opened opened' := by
  obtain ⟨enclosing, enclosing', henclosing, henclosing', halike⟩ := hmd.arena.alike _ _ hscope
  obtain ⟨id, opened, hopen, hsound, hopens⟩ :=
    hmd.left.openRecord_of_room hroom (setsUp_call name henclosing hbound)
  obtain ⟨id', opened', hopen', hsound', hopens'⟩ :=
    hmd.right.openRecord_of_room (hmd.room hroom) (setsUp_call name henclosing' hbound)
  have hvalid := (hmd.left.arena.records _ _ henclosing).valid
  have hvalid' := (hmd.right.arena.records _ _ henclosing').valid
  have hrecords := (halike.linked hvalid hvalid' hscope name .function).withValues
    (ScopeArena.entries_linked name .function hvalid scope).1
    (ScopeArena.entries_linked name .function hvalid' scope').1 bound
  refine ⟨id, id', _, _, opened, opened', ?_, ?_, hopens, hopens',
    hmd.opened hopens hopens' hsound hsound' hrecords⟩
  · rw [Machine.openFunctionRecord, Attempt.discard_on, hopen]
  · rw [Machine.openFunctionRecord, Attempt.discard_on, hopen']

/-- Closing a scope on the right only. -/
theorem Related.close_right (hmd : Related usable pairs m d) (hcloses : d.Closes id' record' d')
    (hright : d'.Sound usable) : Related usable (livePairs pairs d') m d' where
  left := hmd.left
  right := hright
  arena := hmd.arena.restrict hright.arena fun other hlive => by
    rw [ScopeArena.isLive, hcloses.arena] at hlive
    rw [hcloses.arena]
    split
    · rename_i hfreed
      simp [hfreed] at hlive
    · rfl
  heap := by
    have hheap := hmd.heap
    rw [← hcloses.heap] at hheap
    -- A usable function of the right heap was defined in a scope that is still live.
    refine hheap.mono fun address scope scope' body husable hcallable hpair => ⟨hpair, ?_⟩
    exact ((hright.heap.function address husable).scope scope' body hcallable).isLive
  depth := by
    have hdepth := hmd.depth
    rw [hcloses.stack] at hdepth
    simp only [CallStack.depth, Array.size_push] at hdepth ⊢
    omega
  limit := by
    have hlimit := hmd.limit
    rw [hcloses.stack] at hlimit
    exact hlimit

/-- Closing a scope on the left only; its record has no partner, or it is captured. -/
theorem Related.close_left (hmd : Related usable pairs m d) (hcloses : m.Closes id record m')
    (hleft : m'.Sound usable) (hkept : record.captured = false → ∀ id', ¬ pairs id id')
    (hdepth : d.stack.depth ≤ m'.stack.depth) : Related usable pairs m' d where
  left := hleft
  right := hmd.right
  arena := hmd.arena.of_same fun other other' hpair => by
    rw [hcloses.arena, if_neg]
    rintro ⟨rfl, hno⟩
    exact hkept hno other' hpair
  heap := by
    rw [hcloses.heap]
    exact hmd.heap
  depth := hdepth
  limit := by
    have hlimit := hmd.limit
    rw [hcloses.stack] at hlimit
    exact hlimit

variable {pairs' : RecordId → RecordId → Prop} {opened opened' worked worked' later later' closed' :
  Machine}

/-- What was live before the scope was opened and has a partner now had the same partner then. -/
theorem Continues.old_of_opened (hopens : m.Opens id record opened)
    (hcont : Continues (withPair pairs id id') opened opened' pairs' worked worked')
    {other other' : RecordId} (hpair : pairs' other other') (hlive : m.arena.isLive other = true) :
    pairs other other' := by
  obtain ⟨held, hheld⟩ := ScopeArena.isLive_iff.1 hlive
  have hopened := ScopeArena.isLive_of_record? (hopens.record?_of_record? hheld)
  rcases hcont.old other other' hpair hopened with hbefore | ⟨rfl, -⟩
  · exact hbefore
  · exact absurd rfl (hopens.ne_of_record? hheld)

/-- What was live and had no partner before the scope was opened was not touched in it. -/
theorem Continues.apart_of_opened (hopens : m.Opens id record opened)
    (hcont : Continues (withPair pairs id id') opened opened' pairs' worked worked')
    {other : RecordId} (hlive : m.arena.isLive other = true)
    (hnone : ∀ other', ¬ pairs other other') :
    worked.arena.record? other = m.arena.record? other := by
  obtain ⟨held, hheld⟩ := ScopeArena.isLive_iff.1 hlive
  have hopened := hopens.record?_of_record? hheld
  rw [hcont.apart other (ScopeArena.isLive_of_record? hopened), hopened, hheld]
  rintro other' (hpair | ⟨rfl, -⟩)
  · exact hnone other' hpair
  · exact hopens.ne_of_record? hheld rfl

/-- If the record of the scope was not captured, it was freed on the right, so it has no partner
after further work on the left. -/
theorem Related.no_partner_of_closed (hworked : Related usable pairs worked worked')
    (hpair : pairs id id') (hcloses' : worked'.Closes id' record' closed')
    (hafter' : worked'.arena.record? id' = some record')
    (hgoes : Continues (livePairs pairs closed') worked closed' pairs' later later')
    (hafter : later.arena.record? id = some record) (hno : record.captured = false)
    (other' : RecordId) : ¬ pairs' id other' := by
  intro hpaired
  obtain ⟨held, held', hheld, hheld', halike⟩ := hworked.arena.alike id id' hpair
  obtain rfl : held' = record' := Option.some.inj (hheld'.symm.trans hafter')
  obtain ⟨hbefore, hlive⟩ := hgoes.old id other' hpaired (ScopeArena.isLive_of_record? hheld)
  obtain rfl : id' = other' := (hworked.arena.injective _ _ _ _ hpair hbefore).1 rfl
  -- A partner at the end would be the partner from before, and that is live only if it was
  -- captured.  Then the record was captured as well.
  have hcaptured : held'.captured = true := by
    by_contra hnot
    rw [ScopeArena.isLive, hcloses'.arena, if_pos ⟨rfl, by simpa using hnot⟩] at hlive
    simp at hlive
  obtain ⟨last, hlast, -, -, -, -, hstays⟩ := hgoes.left.records id held hheld
  obtain rfl : last = record := Option.some.inj (hlast.symm.trans hafter)
  simp [hstays (halike.captured.symm.trans hcaptured)] at hno

/-- A scope was opened on both sides and worked in.  It may be closed on the right at once, and on
the left after further work on which the right has gone ahead without the scope. -/
theorem Related.scope (hmd : Related usable pairs m d) (hopens : m.Opens id record opened)
    (hopens' : d.Opens id' record' opened') (hworked : Related usable pairs' worked worked')
    (hcont : Continues (withPair pairs id id') opened opened' pairs' worked worked') :
    ∃ closed', Machine.unwindTo d.stack.depth worked' = (.ok (), closed') ∧
      Machine.popRecord id' worked' = (.ok (), closed') ∧
      Related usable (livePairs pairs' closed') worked closed' ∧
      ∀ pairs'' later later', Related usable pairs'' later later' →
        Continues (livePairs pairs' closed') worked closed' pairs'' later later' →
        ∃ closed, Machine.unwindTo m.stack.depth later = (.ok (), closed) ∧
          Machine.popRecord id later = (.ok (), closed) ∧ Related usable pairs'' closed later' ∧
          Continues pairs m d pairs'' closed later' := by
  obtain ⟨after', closed', hafter', hunwind', hpop', hright, hcloses', hevolves'⟩ :=
    hopens'.close hmd.right.depth_pos ⟨hworked.right, hcont.right⟩
  refine ⟨closed', hunwind', hpop', hworked.close_right hcloses' hright, ?_⟩
  intro pairs'' later later' hlater hgoes
  obtain ⟨after, closed, hafter, hunwind, hpop, hleft, hcloses, hevolves⟩ :=
    hopens.close hmd.left.depth_pos ⟨hlater.left, hcont.left.trans hgoes.left⟩
  have hlive : ∀ other, m.arena.isLive other = true → worked.arena.isLive other = true := by
    intro other hlive
    obtain ⟨held, hheld⟩ := ScopeArena.isLive_iff.1 hlive
    exact hcont.left.isLive (ScopeArena.isLive_of_record? (hopens.record?_of_record? hheld))
  -- The record of the scope itself may be freed on the left: on the right it is gone already.
  have hkept := hworked.no_partner_of_closed (hcont.kept id id' (.inr ⟨rfl, rfl⟩)) hcloses' hafter'
    hgoes hafter
  refine ⟨closed, hunwind, hpop, hlater.close_left hcloses hleft hkept ?_, ?_⟩
  · rw [hgoes.right.stack, hevolves'.stack, hevolves.stack]
    exact hmd.depth
  · exact {
      left := hevolves
      right := hevolves'.trans hgoes.right
      kept := by
        intro other other' hpair
        refine hgoes.kept other other' ⟨hcont.kept other other' (.inl hpair), ?_⟩
        obtain ⟨_, held', -, hheld', -⟩ := hmd.arena.alike other other' hpair
        exact hevolves'.isLive (ScopeArena.isLive_of_record? hheld')
      old := by
        intro other other' hpair hother
        exact hcont.old_of_opened hopens
          (hgoes.old other other' hpair (hlive other hother)).1 hother
      apart := by
        intro other hother hnone
        obtain ⟨held, hheld⟩ := ScopeArena.isLive_iff.1 hother
        rw [hcloses.arena, if_neg fun hfreed => hopens.ne_of_record? hheld hfreed.1,
          hgoes.apart other (hlive other hother) fun other' hpair =>
            hnone other' (hcont.old_of_opened hopens hpair.1 hother),
          hcont.apart_of_opened hopens hother hnone] }

end Machine

end ScriptCore
