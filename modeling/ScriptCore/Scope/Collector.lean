import ScriptCore.Heap
import ScriptCore.Scope.Arena

/-!
# The collector

Captured records are freed when nothing reaches them any more.  Starting from the scopes that are
open and from values that are still held, the collector marks every record it reaches, through the
links and values of records, through functions to the scopes they were defined in and the
containers they are bound to, and through the contents of containers; then it frees the records
without a mark and takes the marks away.

Marking ends because each step uses something up: the work that lies ahead is what is in the
worklist, in the records without a mark and in the containers not yet visited, and each step does
some of it.
-/

namespace ScriptCore

/-- Something that is reached and whose contents are to be looked at. -/
inductive WorkItem
  | record (id : RecordId)
  | value (value : Value)
  deriving DecidableEq

/-- How much work an item is, apart from what it leads to: a function leads to one item more. -/
def WorkItem.weight : WorkItem → Nat
  | value (.function _) => 2
  | _ => 1

/-- What the members of a record lead to. -/
def Record.items (r : Record) : List WorkItem :=
  r.members.values.map fun
    | .value value => .value value
    | .link owner => .record owner

namespace Heap

/-- All containers of the heap. -/
def containers (h : Heap) : List Container :=
  (List.range h.lists.size).map .list ++ (List.range h.dicts.size).map .dict ++
    (List.range h.modules.size).map .module ++ (List.range h.structs.size).map .struct

/-- The place of a container among all containers. -/
def placeOf (h : Heap) : Container → Nat
  | .list address => address
  | .dict address => h.lists.size + address
  | .module address => h.lists.size + h.dicts.size + address
  | .struct address => h.lists.size + h.dicts.size + h.modules.size + address

/-- The container that a value is. -/
def container? : Value → Option Container
  | .list address => some (.list address)
  | .dict address => some (.dict address)
  | .module address => some (.module address)
  | .struct address => some (.struct address)
  | _ => none

/-- The values in a container. -/
def contents (h : Heap) : Container → List Value
  | .list address => (h.list address).toList
  | .dict address => (h.dict address).rawKeys.toList ++ (h.dict address).values.toList
  | .module address => (h.module address).attributes.values
  | .struct address => (h.struct address).fields.values

/-- What a callable leads to: the scope it was defined in, or the container it is bound to. -/
def callableItem? : Callable → Option WorkItem
  | .closure scope _ => some (.record scope)
  | .listMethod _ receiver => some (.value (.list receiver))
  | .dictMethod _ receiver => some (.value (.dict receiver))
  | .host _ => none

/-- What a value that is no container leads to. -/
def simpleItem? (h : Heap) : Value → Option WorkItem
  | .function address => callableItem? (h.function address).callable
  | _ => none

end Heap

namespace Collector

/-- Whether a slot holds a record without a mark. -/
def isUnmarked (slot : Slot) : Bool :=
  slot.record.isSome && !slot.marked

/-- The record that a handle names, if it is live and has no mark yet. -/
def unmarked? (slots : Array Slot) (id : RecordId) : Option Record :=
  match slots[id.index]? with
  | some slot =>
    if slot.generation = id.generation ∧ slot.marked = false then slot.record else none
  | none => none

/-- Marks a slot. -/
def setMark (slots : Array Slot) (index : Nat) : Array Slot :=
  slots.modify index fun slot => { slot with marked := true }

/-- The sum of the weights of the items of the work. -/
def workWeight (work : List WorkItem) : Nat :=
  total WorkItem.weight work

/-- The work that is still in a slot: an unmarked record, and then what its members lead to. -/
def slotWork (slot : Slot) : Nat :=
  match slot.record with
  | some record => if slot.marked then 0 else 1 + workWeight record.items
  | none => 0

/-- The work that is still in the slots. -/
def slotsWork (slots : Array Slot) : Nat :=
  total slotWork slots.toList

/-- The work that is in a container: itself, and then what is in it. -/
def containerWork (h : Heap) (container : Container) : Nat :=
  1 + workWeight ((h.contents container).map .value)

/-- The work that is in the place of a container: none once the container was visited. -/
def placeWork (h : Heap) : Option Container → Nat
  | some container => containerWork h container
  | none => 0

/-- The work that is in the containers not yet visited. -/
def containersWork (h : Heap) (unvisited : Array (Option Container)) : Nat :=
  total (placeWork h) unvisited.toList

/-- Takes a container out of those not yet visited. -/
def visit (h : Heap) (unvisited : Array (Option Container)) (container : Container) :
    Array (Option Container) :=
  unvisited.modify (h.placeOf container) fun _ => none

/-- Marking a record takes it and its items out of the work that is in the slots. -/
theorem slotsWork_setMark {slots : Array Slot} {id : RecordId} {record : Record}
    (found : unmarked? slots id = some record) :
    slotsWork (setMark slots id.index) + (1 + workWeight record.items) = slotsWork slots := by
  unfold unmarked? at found
  split at found
  · rename_i slot inSlots
    split at found
    · rename_i live
      have before : slotWork slot = 1 + workWeight record.items := by
        simp [slotWork, found, live.2]
      have after : slotWork { slot with marked := true } = 0 := by
        simp [slotWork, found]
      have changed := total_modify_add slotWork (fun slot => { slot with marked := true })
        (l := slots.toList) (i := id.index) (x := slot) (by simpa using inSlots)
      unfold slotsWork setMark
      rw [Array.toList_modify]
      omega
    · simp at found
  · simp at found

/-- Visiting a container takes it and its contents out of the work that is in the containers. -/
theorem containersWork_visit {h : Heap} {unvisited : Array (Option Container)}
    {container : Container}
    (waiting : unvisited[h.placeOf container]? = some (some container)) :
    containersWork h (visit h unvisited container) + containerWork h container =
      containersWork h unvisited := by
  have changed := total_modify_add (placeWork h) (fun _ => none)
    (l := unvisited.toList) (i := h.placeOf container) (x := some container)
    (by simpa using waiting)
  unfold containersWork visit
  rw [Array.toList_modify]
  simpa [placeWork] using changed

/-- What a simple value leads to weighs less than the value. -/
theorem workWeight_simpleItem_lt (h : Heap) (value : Value) :
    workWeight (h.simpleItem? value).toList < (WorkItem.value value).weight := by
  cases value with
  | function address =>
    simp only [Heap.simpleItem?]
    cases (h.function address).callable <;>
      simp [Heap.callableItem?, workWeight, WorkItem.weight]
  | _ => simp [Heap.simpleItem?, workWeight, WorkItem.weight]

/-- No item is without weight. -/
theorem weight_pos (item : WorkItem) : 0 < item.weight := by
  unfold WorkItem.weight
  split <;> omega

@[simp] theorem workWeight_cons (item : WorkItem) (work : List WorkItem) :
    workWeight (item :: work) = item.weight + workWeight work := by
  simp [workWeight]

@[simp] theorem workWeight_append (first second : List WorkItem) :
    workWeight (first ++ second) = workWeight first + workWeight second :=
  total_append _ first second

/-- Marks whatever the work leads to.  `unvisited` holds, each in its place, the containers that
were not reached yet. -/
def mark (h : Heap) (slots : Array Slot) (unvisited : Array (Option Container))
    (work : List WorkItem) : Array Slot :=
  match work with
  | [] => slots
  | .record id :: rest =>
    match _found : unmarked? slots id with
    | none => mark h slots unvisited rest
    | some record => mark h (setMark slots id.index) unvisited (record.items ++ rest)
  | .value value :: rest =>
    match Heap.container? value with
    | none => mark h slots unvisited ((h.simpleItem? value).toList ++ rest)
    | some container =>
      if unvisited[h.placeOf container]? = some (some container) then
        mark h slots (visit h unvisited container) ((h.contents container).map .value ++ rest)
      else mark h slots unvisited rest
termination_by slotsWork slots + containersWork h unvisited + workWeight work
decreasing_by
  all_goals simp only [workWeight_cons, workWeight_append]
  · have := weight_pos (.record id)
    omega
  · have := slotsWork_setMark _found
    omega
  · have := workWeight_simpleItem_lt h value
    omega
  · rename_i waiting
    have less := containersWork_visit waiting
    have := weight_pos (.value value)
    simp only [containerWork] at less
    omega
  · have := weight_pos (.value value)
    omega

/-- What is left of a slot after the collection. -/
def sweepSlot (slot : Slot) : Slot :=
  if isUnmarked slot then ScopeArena.vacated slot else { slot with marked := false }

/-- The slots whose records get no mark, in order. -/
def unreached (slots : Array Slot) : List Nat :=
  (List.range slots.size).filter fun index => isUnmarked (slots.getD index default)

/-- Frees the records without a mark and takes the marks away; gives the number of freed
records. -/
def sweep (a : ScopeArena) : Nat × ScopeArena :=
  let freed := unreached a.slots
  (freed.length, { a with
    slots := a.slots.map sweepSlot
    vacant := freed.reverse ++ a.vacant
    reclaimed := a.reclaimed + freed.length })

end Collector

/-- Frees every record that is reached neither from the given scopes nor from the given values, and
gives the number of freed records. -/
def ScopeArena.collect (a : ScopeArena) (h : Heap) (scopes : List RecordId) (roots : List Value) :
    Nat × ScopeArena :=
  let unvisited := (h.containers.map some).toArray
  let work := roots.map .value ++ scopes.map .record
  Collector.sweep { a with slots := Collector.mark h a.slots unvisited work }

end ScriptCore
