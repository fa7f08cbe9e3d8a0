import ScriptCore.Scope.Measure
import ScriptCore.Scope.Record

/-!
# The arena of scopes

All records stand in one arena and name each other by handles, so a function and the scope it was
defined in can refer to each other.  A slot whose record was freed is used again, the one freed
last first, under the next generation; a handle to the former record is then reported as dead.

A record goes in one of two ways: a record that no function captured is released as soon as its
scope is closed, and captured records stay until the collector (`ScriptCore.Scope.Collector`)
finds that nothing reaches them any more.

Names are resolved by following links from record to record.  Links lead to the owner of a name
at once, so following as many links as there are slots, and one more, always reaches an end
unless the links form a cycle.

An operation that changes the arena gives its outcome together with the arena it leaves.  Only
capturing can fail after it has changed something.
-/

namespace ScriptCore

/-- A place for a record.  The mark is set by the collector while it works. -/
structure Slot where
  generation : UInt32
  record : Option Record
  marked : Bool

instance : Inhabited Slot := ⟨⟨0, none, false⟩⟩

/-- The slots of all records, the vacant ones in the order in which they are used again, and the
numbers of records that were ever made and freed. -/
structure ScopeArena where
  slots : Array Slot
  vacant : List Nat
  allocated : Nat
  reclaimed : Nat

namespace ScopeArena

/-- The arena without records. -/
def empty : ScopeArena :=
  { slots := #[], vacant := [], allocated := 0, reclaimed := 0 }

instance : Inhabited ScopeArena := ⟨empty⟩

/-! ## Records and handles -/

/-- The record that a handle names, if it is live. -/
def record? (a : ScopeArena) (id : RecordId) : Option Record :=
  match a.slots[id.index]? with
  | some slot => if slot.generation = id.generation then slot.record else none
  | none => none

/-- The record that a handle names, or the error that it is dead. -/
def get (a : ScopeArena) (id : RecordId) : Except RuntimeError Record :=
  match a.record? id with
  | some record => .ok record
  | none => .error (.deadRecord id.index)

/-- Whether a handle names a live record. -/
def isLive (a : ScopeArena) (id : RecordId) : Bool :=
  (a.record? id).isSome

/-- The number of live records. -/
def liveCount (a : ScopeArena) : Nat :=
  a.slots.countP fun slot => slot.record.isSome

/-- The handle of whatever record stands in a slot. -/
def handleAt (a : ScopeArena) (index : Nat) : RecordId :=
  { index, generation := (a.slots.getD index default).generation }

/-- The handles of all live records. -/
def liveIds (a : ScopeArena) : List RecordId :=
  ((List.range a.slots.size).map a.handleAt).filter a.isLive

/-- The live handles are the handles of the live records. -/
theorem mem_liveIds {a : ScopeArena} {id : RecordId} : id ∈ a.liveIds ↔ a.isLive id = true := by
  constructor
  · intro member
    exact (List.mem_filter.1 member).2
  · intro live
    refine List.mem_filter.2 ⟨?_, live⟩
    refine List.mem_map.2 ⟨id.index, ?_⟩
    unfold isLive record? at live
    cases inSlots : a.slots[id.index]? with
    | none => simp [inSlots] at live
    | some slot =>
      obtain ⟨inRange, rfl⟩ := Array.getElem?_eq_some_iff.1 inSlots
      by_cases same : a.slots[id.index].generation = id.generation
      · refine ⟨List.mem_range.2 inRange, ?_⟩
        simp [handleAt, inRange, same]
      · simp [inSlots, same] at live

/-- Exchanges the record in a slot. -/
def put (a : ScopeArena) (index : Nat) (record : Record) : ScopeArena :=
  { a with slots := a.slots.modify index fun slot => { slot with record := some record } }

/-- Changes the record that a handle names. -/
def update (a : ScopeArena) (id : RecordId) (change : Record → Record) :
    Except RuntimeError Unit × ScopeArena :=
  match a.get id with
  | .error err => (.error err, a)
  | .ok record => (.ok (), a.put id.index (change record))

/-! ## Making and freeing -/

/-- Stores a record and gives its handle; a vacant slot is used first. -/
def alloc (a : ScopeArena) (record : Record) : RecordId × ScopeArena :=
  match a.vacant with
  | index :: rest =>
    (a.handleAt index, { a with
      slots := a.slots.modify index fun slot => { slot with record := some record, marked := false }
      vacant := rest
      allocated := a.allocated + 1 })
  | [] =>
    ({ index := a.slots.size, generation := 0 }, { a with
      slots := a.slots.push { generation := 0, record := some record, marked := false }
      allocated := a.allocated + 1 })

/-- What is left of a slot when its record is freed. -/
def vacated (slot : Slot) : Slot :=
  { generation := slot.generation + 1, record := none, marked := false }

/-- Frees the record in a slot, if there is one. -/
def free (a : ScopeArena) (index : Nat) : ScopeArena :=
  if (a.slots.getD index default).record.isSome then
    { a with
      slots := a.slots.modify index vacated
      vacant := index :: a.vacant
      reclaimed := a.reclaimed + 1 }
  else a

/-- Frees a record unless it is captured; tells whether it was freed. -/
def release (a : ScopeArena) (id : RecordId) : Except RuntimeError Bool × ScopeArena :=
  match a.get id with
  | .error err => (.error err, a)
  | .ok record => if record.captured then (.ok false, a) else (.ok true, a.free id.index)

/-! ## Names -/

/-- Follows the links of a name from a record to the record that binds it to a value, over at most
the given number of records. -/
def ownerWithin (a : ScopeArena) (name : String) : Nat → RecordId → Except RuntimeError RecordId
  | 0, _ => .error (.undefinedName name)
  | steps + 1, id => do
    let record ← a.get id
    match record.member? name with
    | none => .error (.undefinedName name)
    | some (.value _) => .ok id
    | some (.link owner) => a.ownerWithin name steps owner

/-- The record that owns a name as seen from a record. -/
def ownerOf (a : ScopeArena) (id : RecordId) (name : String) : Except RuntimeError RecordId :=
  a.ownerWithin name (a.slots.size + 1) id

/-- The value of a name as seen from a record. -/
def lookup (a : ScopeArena) (id : RecordId) (name : String) : Except RuntimeError Value := do
  let owner ← a.ownerOf id name
  let record ← a.get owner
  match record.member? name with
  | some (.value value) => .ok value
  | _ => .error (.undefinedName name)

/-- Follows the links of a name and binds it in the first record that does not link it, over at
most the given number of records; a locked record on the way ends the assignment. -/
def assignWithin (a : ScopeArena) (name : String) (value : Value) :
    Nat → RecordId → Except RuntimeError Unit × ScopeArena
  | 0, _ => (.error (.undefinedName name), a)
  | steps + 1, id =>
    match a.get id with
    | .error err => (.error err, a)
    | .ok record =>
      if record.locked then (.ok (), a)
      else
        match record.member? name with
        | some (.link owner) => a.assignWithin name value steps owner
        | _ => (.ok (), a.put id.index (record.bind name (.value value)))

/-- Assigns to a name as seen from a record: its owner gets the value, or the record itself if
nothing owns the name. -/
def assign (a : ScopeArena) (id : RecordId) (name : String) (value : Value) :
    Except RuntimeError Unit × ScopeArena :=
  a.assignWithin name value (a.slots.size + 1) id

/-- Binds a name in a record, whatever it stood for there and whether or not the record is
locked. -/
def define (a : ScopeArena) (id : RecordId) (name : String) (value : Value) :
    Except RuntimeError Unit × ScopeArena :=
  a.update id (·.bind name (.value value))

/-- The links by which another record sees what a record sees: each name leads to its owner. -/
def linksInto (id : RecordId) (record : Record) : List (String × RecordId) :=
  record.members.entries.map fun (name, binding) => (name, binding.link?.getD id)

/-- A scope with links bound in it. -/
def withLinks (scope : Record) (links : List (String × RecordId)) : Record :=
  links.foldl (fun scope (name, owner) => scope.bind name (.link owner)) scope

/-- Links every name that `other` sees into `target`. -/
def appendRecords (a : ScopeArena) (target other : RecordId) :
    Except RuntimeError Unit × ScopeArena :=
  match a.get other with
  | .error err => (.error err, a)
  | .ok record => a.update target fun scope => withLinks scope (linksInto other record)

/-! ## Capturing -/

/-- The records that a record links to; a dead record links to none. -/
def linksOf (a : ScopeArena) (id : RecordId) : List RecordId :=
  ((a.record? id).map Record.links).getD []

/-- How many steps the live records that were not reached are good for: each of them is taken up
once, and each of its links is looked at. -/
def linkWork (a : ScopeArena) (reached : List RecordId) : Nat :=
  total (fun id => 1 + (a.linksOf id).length) (a.liveIds.filter fun id => decide (id ∉ reached))

/-- Taking up a record for the first time does its share of the work. -/
theorem linkWork_cons_add_le {a : ScopeArena} {id : RecordId} {record : Record}
    (live : a.record? id = some record) {reached : List RecordId} (isNew : id ∉ reached) :
    a.linkWork (id :: reached) + (1 + record.links.length) ≤ a.linkWork reached := by
  have links : a.linksOf id = record.links := by simp [linksOf, live]
  have member : id ∈ a.liveIds := mem_liveIds.2 (by simp [isLive, live])
  have less := total_filter_add_le (fun id => 1 + (a.linksOf id).length)
    (fun other => decide (other ∉ id :: reached)) (fun other => decide (other ∉ reached))
    (by simp_all) (by simpa using isNew) (by simp) member
  rw [links] at less
  exact less

/-- Follows links from the pending records.  Gives the records that were reached, those given first
included, and the dead record that ended the walk, if there was one. -/
def followLinks (a : ScopeArena) (reached pending : List RecordId) :
    Option RecordId × List RecordId :=
  match pending with
  | [] => (none, reached)
  | id :: rest =>
    match _live : a.record? id with
    | none => (some id, reached)
    | some record =>
      if id ∈ reached then a.followLinks reached rest
      else a.followLinks (id :: reached) (record.links.reverse ++ rest)
termination_by a.linkWork reached + pending.length
decreasing_by
  · simp
  · rename_i isNew
    have := linkWork_cons_add_le _live isNew
    simp only [List.length_append, List.length_reverse, List.length_cons]
    omega

/-- Marks a live record as captured. -/
def pin (a : ScopeArena) (id : RecordId) : ScopeArena :=
  (a.update id fun record => { record with captured := true }).2

/-- Captures a record and every record it links to, directly or by way of others.  A dead record
on the way is an error; what was reached before it is captured all the same. -/
def capture (a : ScopeArena) (id : RecordId) : Except RuntimeError Unit × ScopeArena :=
  let (dead, reached) := a.followLinks [] [id]
  let a := reached.foldl pin a
  match dead with
  | some id => (.error (.deadRecord id.index), a)
  | none => (.ok (), a)

end ScopeArena

end ScriptCore
