import ScriptCore.Machine
import ScriptCore.Proofs.Heap.Operations
import ScriptCore.Proofs.Scope.Lifetime

/-!
# Machines that are sound

A machine is sound if its arena is sound for the scopes on its stack, its heap is sound, and the
scope of the program stands at the bottom of the stack.

Opening a scope (`Sound.openRecord`) and closing the top one (`Sound.closeTop`) are described
exactly, by what they do to the records and to the stack; everything else that works on the current
scope keeps the stack and every live record (`Evolves`).

An operation that keeps a machine sound and evolves it can be put anywhere in a longer run
(`Later`), for what has evolved twice has evolved.  Closing a scope evolves nothing by itself, as a
record may go; it does so together with the opening of that scope.
-/

namespace ScriptCore.Machine

/-- The arena, the heap and the bottom of the stack are as they have to be. -/
structure Sound (usable : Value → Prop) (m : Machine) : Prop where
  arena : m.arena.Sound usable m.stack.records.toList
  heap : m.heap.Sound usable m.arena.Captured
  base : m.stack.records.toList.head? = some m.program

/-- The same scopes are open and every record that was live still is. -/
structure Evolves (m m' : Machine) : Prop where
  stack : m'.stack = m.stack
  program : m'.program = m.program
  config : m'.config = m.config
  records : ∀ id, m.arena.Persists m'.arena id

variable {usable : Value → Prop} {m m' m'' : Machine} {id : RecordId}

theorem Evolves.refl (m : Machine) : m.Evolves m :=
  ⟨rfl, rfl, rfl, ScopeArena.Persists.refl _⟩

theorem Evolves.trans (hfirst : m.Evolves m') (hsecond : m'.Evolves m'') : m.Evolves m'' where
  stack := hsecond.stack.trans hfirst.stack
  program := hsecond.program.trans hfirst.program
  config := hsecond.config.trans hfirst.config
  records id := (hfirst.records id).trans (hsecond.records id)

/-- Before anything has run only the scope of the program is there. -/
theorem sound_start (config : Config) {heap : Heap}
    (hheap : ∀ captured, heap.Sound usable captured) :
    Sound usable { start config with heap } where
  arena := ScopeArena.sound_empty.alloc programName .program
  heap := hheap _
  base := rfl

/-! ## Working on a part of the machine -/

theorem onHeap_on {α : Type} (attempt : Attempt Heap α) (m : Machine) :
    onHeap attempt m = ((attempt m.heap).1, { m with heap := (attempt m.heap).2 }) :=
  rfl

theorem onArena_on {α : Type} (attempt : Attempt ScopeArena α) (m : Machine) :
    onArena attempt m = ((attempt m.arena).1, { m with arena := (attempt m.arena).2 }) :=
  rfl

theorem onStack_on {α : Type} (attempt : Attempt CallStack α) (m : Machine) :
    onStack attempt m = ((attempt m.stack).1, { m with stack := (attempt m.stack).2 }) :=
  rfl

/-! ## The current scope -/

theorem assign_on (name : String) (value : Value) (m : Machine) :
    Machine.assign name value m = onArena (fun a => a.assign m.currentRecord name value) m := by
  rw [Machine.assign, Attempt.bind_on, Attempt.get_on]

theorem define_on (name : String) (value : Value) (m : Machine) :
    Machine.define name value m = onArena (fun a => a.define m.currentRecord name value) m := by
  rw [Machine.define, Attempt.bind_on, Attempt.get_on]

/-- The open scopes and the one on top. -/
theorem Sound.exists_top (hm : m.Sound usable) :
    ∃ rest record, m.stack.records.toList = rest ++ [m.currentRecord] ∧
      m.arena.record? m.currentRecord = some record := by
  obtain ⟨rest, top, hstack⟩ : ∃ rest top, m.stack.records.toList = rest ++ [top] := by
    cases hlist : m.stack.records.toList with
    | nil => simpa [hlist] using hm.base
    | cons first rest => exact ⟨_, _, (List.dropLast_concat_getLast (by simp)).symm⟩
  have htop : m.currentRecord = top := by
    rw [currentRecord, CallStack.top?, ← Array.getLast?_toList, hstack]
    simp
  obtain ⟨record, hrecord⟩ :=
    ScopeArena.isLive_iff.1 (hm.arena.stack_live top (by simp [hstack]))
  exact ⟨rest, record, htop ▸ hstack, htop ▸ hrecord⟩

theorem Sound.exists_currentName (hm : m.Sound usable) : ∃ name, m.currentName = .ok name := by
  obtain ⟨rest, record, -, hrecord⟩ := hm.exists_top
  exact ⟨record.name, by rw [currentName, ScopeArena.get_of_record? hrecord]; rfl⟩

theorem Sound.calm_currentName (hm : m.Sound usable) : Calm (fun _ => True) m.currentName := by
  obtain ⟨name, hname⟩ := hm.exists_currentName
  rw [hname]
  trivial

theorem Sound.calm_lookup (hm : m.Sound usable) (name : String) : Calm usable (m.lookup name) := by
  obtain ⟨rest, record, -, hrecord⟩ := hm.exists_top
  rw [lookup]
  rcases hm.arena.lookup_eq hrecord name with
    ⟨-, hlookup⟩ | ⟨value, hbound, hlookup⟩ | ⟨owner, held, value, -, hheld, hbound, hlookup⟩
  · rw [hlookup]
    exact nofun
  · rw [hlookup]
    exact (hm.arena.records _ _ hrecord).usable name value hbound
  · rw [hlookup]
    exact (hm.arena.records _ _ hheld).usable name value hbound

/-- A machine stays sound with an arena in which every live record stays. -/
theorem Sound.withArena (hm : m.Sound usable) {arena : ScopeArena}
    (harena : arena.Sound usable m.stack.records.toList)
    (hpersists : ∀ id, m.arena.Persists arena id) : Sound usable { m with arena } where
  arena := harena
  heap := hm.heap.mono fun id => (hpersists id).captured
  base := hm.base

/-! ## Steps that keep the stack -/

/-- A sound machine, come from another one that had the same scopes open. -/
structure Later (usable : Value → Prop) (m₀ m : Machine) : Prop where
  sound : m.Sound usable
  evolves : m₀.Evolves m

theorem Sound.later (hm : m.Sound usable) : Later usable m m :=
  ⟨hm, .refl m⟩

variable {m₀ : Machine}

theorem keeps_onHeap {α : Type} {good : α → Prop} {attempt : Attempt Heap α}
    (hattempt : ∀ captured, attempt.Keeps (Heap.Sound usable captured) good) :
    (onHeap attempt).Keeps (Later usable m₀) good := by
  intro m hm
  rw [onHeap_on]
  obtain ⟨hheap, hcalm⟩ := hattempt _ m.heap hm.sound.heap
  exact ⟨⟨⟨hm.sound.arena, hheap, hm.sound.base⟩,
    hm.evolves.trans ⟨rfl, rfl, rfl, ScopeArena.Persists.refl _⟩⟩, hcalm⟩

/-- Working on the arena keeps the machine sound if it keeps the arena sound. -/
theorem Later.withArena (hm : Later usable m₀ m) {arena : ScopeArena}
    (harena : arena.Sound usable m.stack.records.toList)
    (hpersists : ∀ id, m.arena.Persists arena id) : Later usable m₀ { m with arena } :=
  ⟨hm.sound.withArena harena hpersists, hm.evolves.trans ⟨rfl, rfl, rfl, hpersists⟩⟩

theorem keeps_assign (name : String) {value : Value} (hvalue : usable value) :
    (assign name value).Keeps (Later usable m₀) fun _ => True := by
  intro m hm
  obtain ⟨rest, record, -, hrecord⟩ := hm.sound.exists_top
  obtain ⟨hok, harena, hpersists⟩ := hm.sound.arena.assign hrecord name hvalue
  simp only [assign, Attempt.bind_on, Attempt.get_on, onArena_on, hok]
  exact ⟨hm.withArena harena hpersists, trivial⟩

theorem keeps_define (name : String) {value : Value} (hvalue : usable value) :
    (define name value).Keeps (Later usable m₀) fun _ => True := by
  intro m hm
  obtain ⟨rest, record, -, hrecord⟩ := hm.sound.exists_top
  simp only [define, Attempt.bind_on, Attempt.get_on, onArena_on,
    ScopeArena.define_of_record? hrecord]
  exact ⟨hm.withArena (hm.sound.arena.define hrecord name hvalue)
    (ScopeArena.persists_define hrecord name _), trivial⟩

theorem keeps_defineFunction (name : String) {parameters : Parameters}
    (hparameters : parameters.Fit usable) {body : Expr} (hbody : body.Fit usable) :
    (defineFunction name parameters body).Keeps (Later usable m₀) usable := by
  intro m hm
  obtain ⟨rest, record, -, hrecord⟩ := hm.sound.exists_top
  obtain ⟨hok, harena, hcaptured, hpersists⟩ :=
    hm.sound.arena.capture (ScopeArena.isLive_of_record? hrecord)
  have hafter := hm.withArena harena hpersists
  obtain ⟨hheap, hfunction⟩ := hafter.sound.heap.newFunction name parameters
    (.closure m.currentRecord body) {
      parameters := hparameters
      scope := by
        intro scope body hcallable
        cases hcallable
        exact hcaptured
      body := by
        intro scope body hcallable
        cases hcallable
        exact hbody
      receiver := nofun
      host := nofun }
  -- From here on the heap with the new function in it counts as one thing.
  generalize hmade : m.heap.newFunction name parameters (.closure m.currentRecord body) = made at *
  obtain ⟨function, heap⟩ := made
  have hrest : Attempt.Keeps (Later usable m₀) usable do
      define name function
      return function := (keeps_define name hfunction).bind fun _ _ => .pure hfunction
  rw [defineFunction, Attempt.bind_on, Attempt.get_on]
  dsimp only
  rw [Attempt.bind_on, onArena_on, hok]
  dsimp only
  rw [Attempt.bind_on, onHeap_on]
  simp only [hmade]
  exact hrest _ ⟨⟨harena, hheap, hm.sound.base⟩,
    hm.evolves.trans ⟨rfl, rfl, rfl, hpersists⟩⟩

theorem keeps_markOptimized {address : Address} (haddress : usable (.function address)) :
    (markOptimized address).Keeps (Later usable m₀) fun _ => True :=
  keeps_onHeap fun _ _ hh =>
    ⟨hh.setFunction address { hh.function address haddress with }, trivial⟩

end ScriptCore.Machine
