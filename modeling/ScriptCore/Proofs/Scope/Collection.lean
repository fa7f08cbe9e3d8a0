import Mathlib.Tactic.Common
import ScriptCore.Proofs.Scope.Marking

/-!
# A collection frees exactly what is not reached

After marking, the sweep looks at every slot once: a record without a mark goes, a mark is taken
away.  `record?_sweep_of_marked` and `record?_sweep_of_not_marked` say what this does to a handle,
`liveCount_sweep` what it does to the counts, and the main statement `collect_exact` puts them
together with `marking_mark`.

A second collection with the same scopes and values finds nothing to do: the survivors are the
same records as before, so they are reached again (`Reached.mono`).

Marks are set only while a collection runs.  `ScopeArena.Unmarked` says so of an arena, and
`ScopeArena.Occurs.unmarked` that every arena that the operations build is of this kind.
-/

namespace ScriptCore

open Collector

namespace ScopeArena

/-- No slot has a mark, as it is whenever no collection is under way. -/
def Unmarked (a : ScopeArena) : Prop :=
  ∀ slot ∈ a.slots, slot.marked = false

/-- The arenas that the operations build from the one without records.  `update` stands for
whatever is done to a live record through its handle. -/
inductive Occurs : ScopeArena → Prop
  | empty : Occurs .empty
  | alloc {a : ScopeArena} (ha : Occurs a) (record : Record) : Occurs (a.alloc record).2
  | update {a : ScopeArena} (ha : Occurs a) (id : RecordId) (change : Record → Record) :
      Occurs (a.update id change).2
  | assign {a : ScopeArena} (ha : Occurs a) (id : RecordId) (name : String) (value : Value) :
      Occurs (a.assign id name value).2
  | capture {a : ScopeArena} (ha : Occurs a) (id : RecordId) : Occurs (a.capture id).2
  | release {a : ScopeArena} (ha : Occurs a) (id : RecordId) : Occurs (a.release id).2
  | collect {a : ScopeArena} (ha : Occurs a) (h : Heap) (scopes : List RecordId)
      (roots : List Value) : Occurs (a.collect h scopes roots).2

variable {a : ScopeArena}

theorem Unmarked.of_mem_modify (ha : a.Unmarked) {index : Nat} {change : Slot → Slot} {slot : Slot}
    (hslot : slot ∈ a.slots.modify index change)
    (hchange : ∀ slot, slot.marked = false → (change slot).marked = false) :
    slot.marked = false := by
  obtain ⟨position, hposition⟩ := Array.mem_iff_getElem?.1 hslot
  rw [Array.getElem?_modify] at hposition
  split at hposition
  · obtain ⟨before, hbefore, rfl⟩ := Option.map_eq_some_iff.1 hposition
    exact hchange before (ha before (Array.mem_of_getElem? hbefore))
  · exact ha slot (Array.mem_of_getElem? hposition)

theorem Unmarked.put (ha : a.Unmarked) (index : Nat) (record : Record) :
    (a.put index record).Unmarked := by
  intro slot hslot
  change slot ∈ a.slots.modify index fun slot => { slot with record := some record } at hslot
  exact ha.of_mem_modify hslot fun _ hmark => hmark

theorem Unmarked.update (ha : a.Unmarked) (id : RecordId) (change : Record → Record) :
    (a.update id change).2.Unmarked := by
  unfold ScopeArena.update
  split
  · exact ha
  · exact ha.put _ _

theorem Unmarked.assignWithin (ha : a.Unmarked) (name : String) (value : Value) (steps : Nat)
    (id : RecordId) : (a.assignWithin name value steps id).2.Unmarked := by
  induction steps generalizing id with
  | zero => exact ha
  | succ steps ih =>
      unfold ScopeArena.assignWithin
      split
      · exact ha
      · split
        · exact ha
        · split
          · exact ih _
          · exact ha.put _ _

theorem Unmarked.pin_all (ha : a.Unmarked) (ids : List RecordId) :
    (ids.foldl pin a).Unmarked := by
  induction ids generalizing a with
  | nil => exact ha
  | cons id rest ih => exact ih (ha.update id _)

theorem unmarked_sweep (a : ScopeArena) : (sweep a).2.Unmarked := by
  intro slot hslot
  obtain ⟨before, -, rfl⟩ := Array.mem_map.1 hslot
  unfold sweepSlot
  split <;> rfl

theorem Unmarked.alloc (ha : a.Unmarked) (record : Record) : (a.alloc record).2.Unmarked := by
  unfold ScopeArena.alloc
  split
  · intro slot hslot
    dsimp only at hslot
    exact ha.of_mem_modify hslot fun _ _ => rfl
  · intro slot hslot
    rcases Array.mem_push.1 hslot with hbefore | rfl
    · exact ha slot hbefore
    · rfl

theorem Unmarked.free (ha : a.Unmarked) (index : Nat) : (a.free index).Unmarked := by
  unfold ScopeArena.free
  split
  · intro slot hslot
    dsimp only at hslot
    exact ha.of_mem_modify hslot fun _ _ => rfl
  · exact ha

theorem Unmarked.capture (ha : a.Unmarked) (id : RecordId) : (a.capture id).2.Unmarked := by
  unfold ScopeArena.capture
  dsimp only
  split <;> exact ha.pin_all _

/-- Outside of a collection no slot ever has a mark. -/
theorem Occurs.unmarked (ha : a.Occurs) : a.Unmarked := by
  induction ha with
  | empty => intro slot hslot; simp [ScopeArena.empty] at hslot
  | alloc _ record ih => exact ih.alloc record
  | update _ id change ih => exact ih.update id change
  | assign _ id name value ih => exact ih.assignWithin name value _ id
  | capture _ id ih => exact ih.capture id
  | release _ id ih =>
      unfold ScopeArena.release
      split
      · exact ih
      · split
        · exact ih
        · exact ih.free _
  | collect => exact unmarked_sweep _

end ScopeArena

namespace Collector

variable {a : ScopeArena} {h : Heap} {slots : Array Slot}

/-! ## The state in which marking starts -/

/-- The row of all containers, each in its place. -/
def allContainers (h : Heap) : Array (Option Container) :=
  (h.containers.map some).toArray

private theorem getElem?_block (before after : List Container) (f : Nat → Container)
    {count i : Nat} (hi : i < count) :
    (before ++ ((List.range count).map f ++ after))[before.length + i]? = some (f i) := by
  rw [List.getElem?_append_right (Nat.le_add_right _ _), Nat.add_sub_cancel_left,
    List.getElem?_append_left (by simpa using hi)]
  simp [hi]

/-- At the beginning every container in which there is something is waiting. -/
theorem contents_eq_nil_of_not_waiting {container : Container}
    (hnot : ¬ Waiting h (allContainers h) container) : h.contents container = [] := by
  -- Only what stands in no store at all is missing from the row that marking begins with.  The
  -- place of a container in that row depends on the stores before its own, hence the four cases.
  have hplace : h.containers[h.placeOf container]? ≠ some container := fun hplace =>
    hnot (by simp [Waiting, allContainers, hplace])
  cases container with
  | list address =>
      rcases Nat.lt_or_ge address h.lists.size with hlt | hge
      · have hblock := getElem?_block [] ((List.range h.dicts.size).map .dict ++
          (List.range h.modules.size).map .module ++ (List.range h.structs.size).map .struct)
          Container.list hlt
        exact absurd (by simpa [Heap.containers, Heap.placeOf] using hblock) hplace
      · simp only [Heap.contents, Heap.list, Array.getD_eq_getD_getElem?,
          Array.getElem?_eq_none hge]
        rfl
  | dict address =>
      rcases Nat.lt_or_ge address h.dicts.size with hlt | hge
      · have hblock := getElem?_block ((List.range h.lists.size).map .list)
          ((List.range h.modules.size).map .module ++ (List.range h.structs.size).map .struct)
          Container.dict hlt
        exact absurd (by simpa [Heap.containers, Heap.placeOf] using hblock) hplace
      · simp only [Heap.contents, Heap.dict, Array.getD_eq_getD_getElem?,
          Array.getElem?_eq_none hge]
        rfl
  | module address =>
      rcases Nat.lt_or_ge address h.modules.size with hlt | hge
      · have hblock := getElem?_block
          ((List.range h.lists.size).map .list ++ (List.range h.dicts.size).map .dict)
          ((List.range h.structs.size).map .struct) Container.module hlt
        exact absurd (by simpa [Heap.containers, Heap.placeOf, Nat.add_assoc] using hblock) hplace
      · simp only [Heap.contents, Heap.module, Array.getD_eq_getD_getElem?,
          Array.getElem?_eq_none hge]
        rfl
  | struct address =>
      rcases Nat.lt_or_ge address h.structs.size with hlt | hge
      · have hblock := getElem?_block ((List.range h.lists.size).map .list ++
          (List.range h.dicts.size).map .dict ++ (List.range h.modules.size).map .module) []
          Container.struct hlt
        exact absurd (by simpa [Heap.containers, Heap.placeOf, Nat.add_assoc] using hblock) hplace
      · simp only [Heap.contents, Heap.struct, Array.getD_eq_getD_getElem?,
          Array.getElem?_eq_none hge]
        rfl

/-- Marking starts with the given scopes and values as its worklist and with no mark set. -/
theorem marking_start (ha : a.Unmarked) (h : Heap) (scopes : List RecordId) (roots : List Value) :
    Marking a h scopes roots a.slots (allContainers h)
      (roots.map .value ++ scopes.map .record) where
  same _ := rfl
  marked_reached id hmarked := by
    obtain ⟨slot, hslot, -, hmark⟩ := hmarked
    simp [ha slot (Array.mem_of_getElem? hslot)] at hmark
  work_reached item hitem := by
    rcases List.mem_append.1 hitem with hroot | hscope
    · obtain ⟨value, hvalue, rfl⟩ := List.mem_map.1 hroot
      exact .root hvalue
    · obtain ⟨id, hid, rfl⟩ := List.mem_map.1 hscope
      exact .scope hid
  scopes_settled id hid := .inl (List.mem_append_right _ (List.mem_map.2 ⟨id, hid, rfl⟩))
  roots_settled value hvalue := .inl (List.mem_append_left _ (List.mem_map.2 ⟨value, hvalue, rfl⟩))
  marked_settled id next hmarked := by
    obtain ⟨slot, hslot, -, hmark⟩ := hmarked
    simp [ha slot (Array.mem_of_getElem? hslot)] at hmark
  visited_settled container hvisited inner hinner := by
    simp [contents_eq_nil_of_not_waiting hvisited] at hinner

/-- When marking is done, a handle is marked if it is live and reached. -/
theorem marked_iff {scopes : List RecordId} {roots : List Value}
    {unvisited : Array (Option Container)}
    (hmarking : Marking a h scopes roots slots unvisited []) (id : RecordId) :
    Marked slots id ↔ a.isLive id = true ∧ Reached a h scopes roots (.record id) :=
  ⟨hmarking.marked_reached id,
    fun ⟨hlive, hreached⟩ => (hmarking.settled_of_reached hreached).met hlive⟩

/-! ## What the sweep does to a handle -/

theorem record?_sweep_of_marked (hsame : SameRecords a slots) {id : RecordId}
    (hmarked : Marked slots id) : (sweep { a with slots }).2.record? id = a.record? id := by
  obtain ⟨slot, hslot, hgeneration, hmark⟩ := hmarked
  rw [hsame.record?_eq hslot hgeneration]
  simp [ScopeArena.record?, sweep, hslot, sweepSlot, isUnmarked, hmark, hgeneration]

theorem record?_sweep_of_not_marked (a : ScopeArena) {id : RecordId}
    (hnot : ¬ Marked slots id) : (sweep { a with slots }).2.record? id = none := by
  cases hslot : slots[id.index]? with
  | none => simp [ScopeArena.record?, sweep, hslot]
  | some slot =>
      by_cases hgeneration : slot.generation = id.generation
      · have hmark : slot.marked = false := by
          by_contra hmark
          exact hnot ⟨slot, hslot, hgeneration, by simpa using hmark⟩
        cases hrecord : slot.record <;>
          simp [ScopeArena.record?, sweep, hslot, sweepSlot, isUnmarked, hmark, hrecord,
            ScopeArena.vacated]
      · by_cases hfreed : isUnmarked slot = true <;>
          simp [ScopeArena.record?, sweep, hslot, sweepSlot, hfreed, hgeneration,
            ScopeArena.vacated]

/-! ## What the sweep does to the counts -/

theorem length_unreached (slots : Array Slot) :
    (unreached slots).length = slots.toList.countP isUnmarked := by
  have hslots : (List.range slots.size).map (fun index => slots.getD index default) =
      slots.toList := by
    apply List.ext_getElem
    · simp
    · intro index hindex _
      simp only [List.length_map, List.length_range] at hindex
      simp [hindex]
  rw [unreached, ← List.countP_eq_length_filter, ← hslots, List.countP_map]
  rfl

private theorem countP_record_eq (slots : List Slot) :
    slots.countP (fun slot => slot.record.isSome) =
      (slots.map sweepSlot).countP (fun slot => slot.record.isSome) + slots.countP isUnmarked := by
  induction slots with
  | nil => rfl
  | cons slot rest ih =>
      simp only [List.map_cons, List.countP_cons, ih]
      cases hrecord : slot.record <;> cases hmark : slot.marked <;>
        simp [sweepSlot, isUnmarked, hrecord, hmark, ScopeArena.vacated] <;> omega

/-- What the sweep frees is missing from the live records afterwards. -/
theorem liveCount_sweep (hsame : SameRecords a slots) :
    (sweep { a with slots }).2.liveCount + (sweep { a with slots }).1 = a.liveCount := by
  -- Marks aside, the slots are those before marking, so as many of them hold a record.
  have hcontent : slots.map content = a.slots.map content := by
    apply Array.ext_getElem?
    intro index
    simpa using hsame index
  have hbefore : a.slots.toList.countP (fun slot => slot.record.isSome) =
      slots.toList.countP fun slot => slot.record.isSome := by
    have hcount := congrArg (fun contents : Array (UInt32 × Option Record) =>
      contents.toList.countP fun entry => entry.2.isSome) hcontent
    simpa [List.countP_map, Function.comp_def, content] using hcount.symm
  have hcounts := countP_record_eq slots.toList
  simp only [ScopeArena.liveCount, ← Array.countP_toList, sweep, Array.toList_map,
    length_unreached]
  omega

/-- The sweep frees nothing if every live record has a mark. -/
theorem unreached_eq_nil (hsame : SameRecords a slots)
    (hall : ∀ id, a.isLive id = true → Marked slots id) : unreached slots = [] := by
  refine List.filter_eq_nil_iff.2 fun index hindex hunmarked => ?_
  rw [List.mem_range] at hindex
  have hslot : slots[index]? = some slots[index] := Array.getElem?_eq_getElem hindex
  simp only [Array.getD_eq_getD_getElem?, hslot, Option.getD_some, isUnmarked,
    Bool.and_eq_true, Bool.not_eq_true'] at hunmarked
  have hrecord : a.record? ⟨index, slots[index].generation⟩ = slots[index].record :=
    hsame.record?_eq hslot rfl
  have hlive : a.isLive ⟨index, slots[index].generation⟩ = true := by
    simp [ScopeArena.isLive, hrecord, hunmarked.1]
  obtain ⟨slot, hslot', -, hmark⟩ := hall _ hlive
  obtain rfl : slot = slots[index] := Option.some.inj (hslot'.symm.trans hslot)
  simp [hunmarked.2] at hmark

/-- Every live record has a mark if the sweep frees nothing. -/
theorem marked_of_unreached_eq_nil (hsame : SameRecords a slots) (hnone : unreached slots = [])
    {id : RecordId} (hlive : a.isLive id = true) : Marked slots id := by
  obtain ⟨record, hrecord⟩ := Option.isSome_iff_exists.1 hlive
  obtain ⟨slot, hslot, hgeneration, hheld⟩ := hsame.exists_slot hrecord
  refine ⟨slot, hslot, hgeneration, ?_⟩
  by_contra hmark
  obtain ⟨hlt, -⟩ := Array.getElem?_eq_some_iff.1 hslot
  have hmem : id.index ∈ unreached slots :=
    List.mem_filter.2 ⟨List.mem_range.2 hlt, by simp [hslot, isUnmarked, hheld, hmark]⟩
  simp [hnone] at hmem

end Collector

/-! ## The main statement -/

namespace ScopeArena

/-- The slots of the arena when marking is done. -/
def markedSlots (a : ScopeArena) (h : Heap) (scopes : List RecordId) (roots : List Value) :
    Array Slot :=
  mark h a.slots (allContainers h) (roots.map .value ++ scopes.map .record)

theorem collect_eq_sweep (a : ScopeArena) (h : Heap) (scopes : List RecordId)
    (roots : List Value) :
    a.collect h scopes roots = sweep { a with slots := a.markedSlots h scopes roots } :=
  rfl

variable {a : ScopeArena}

/-- A record is live after a collection if and only if it was live and is reached. -/
theorem isLive_collect_iff (ha : a.Unmarked) (h : Heap) (scopes : List RecordId)
    (roots : List Value) (id : RecordId) :
    (a.collect h scopes roots).2.isLive id = true ↔
      a.isLive id = true ∧ Reached a h scopes roots (.record id) := by
  obtain ⟨unvisited, hmarking⟩ := marking_mark (marking_start ha h scopes roots)
  rw [← marked_iff hmarking, collect_eq_sweep]
  constructor
  · intro hlive
    by_contra hnot
    simp [isLive, markedSlots, record?_sweep_of_not_marked a hnot] at hlive
  · intro hmarked
    have hlive := (hmarking.marked_reached id hmarked).1
    rwa [isLive, markedSlots, record?_sweep_of_marked hmarking.same hmarked]

/-- What survives a collection is as it was. -/
theorem record?_collect_of_reached (ha : a.Unmarked) {h : Heap} {scopes : List RecordId}
    {roots : List Value} {id : RecordId} (hreached : Reached a h scopes roots (.record id)) :
    (a.collect h scopes roots).2.record? id = a.record? id := by
  obtain ⟨unvisited, hmarking⟩ := marking_mark (marking_start ha h scopes roots)
  rw [collect_eq_sweep]
  by_cases hlive : a.isLive id = true
  · exact record?_sweep_of_marked hmarking.same ((marked_iff hmarking id).2 ⟨hlive, hreached⟩)
  · rw [markedSlots, record?_sweep_of_not_marked a
      fun hmarked => hlive (hmarking.marked_reached id hmarked).1]
    simp only [isLive, Option.isSome_iff_ne_none, ne_eq, Decidable.not_not] at hlive
    exact hlive.symm

/-- A collection that frees nothing reaches every live record. -/
theorem reached_of_collect_eq_zero (ha : a.Unmarked) {h : Heap} {scopes : List RecordId}
    {roots : List Value} (hnone : (a.collect h scopes roots).1 = 0) {id : RecordId}
    (hlive : a.isLive id = true) : Reached a h scopes roots (.record id) := by
  obtain ⟨unvisited, hmarking⟩ := marking_mark (marking_start ha h scopes roots)
  exact ((marked_iff hmarking id).1 (marked_of_unreached_eq_nil hmarking.same
    (List.length_eq_zero_iff.1 hnone) hlive)).2

/-- **A collection frees exactly the records that are not reached.**  From an arena in which no
collection is under way, whatever its links and whatever is in the heap: a record is live
afterwards if and only if it was live and is reached; the survivors keep handle and content; the
result is by how much the live records got fewer and the freed ones more; no mark is left; and a
second collection finds nothing. -/
theorem collect_exact (a : ScopeArena) (ha : a.Unmarked) (h : Heap) (scopes : List RecordId)
    (roots : List Value) :
    (∀ id, (a.collect h scopes roots).2.isLive id = true ↔
      a.isLive id = true ∧ Reached a h scopes roots (.record id)) ∧
    (∀ id, (a.collect h scopes roots).2.isLive id = true →
      (a.collect h scopes roots).2.record? id = a.record? id) ∧
    (a.collect h scopes roots).2.liveCount + (a.collect h scopes roots).1 = a.liveCount ∧
    (a.collect h scopes roots).2.reclaimed = a.reclaimed + (a.collect h scopes roots).1 ∧
    (a.collect h scopes roots).2.Unmarked ∧
    ((a.collect h scopes roots).2.collect h scopes roots).1 = 0 := by
  have hlive := isLive_collect_iff ha h scopes roots
  have hrecord : ∀ id, Reached a h scopes roots (.record id) →
      (a.collect h scopes roots).2.record? id = a.record? id :=
    fun id => record?_collect_of_reached ha
  obtain ⟨unvisited, hmarking⟩ := marking_mark (marking_start ha h scopes roots)
  refine ⟨hlive, fun id hafter => hrecord id ((hlive id).1 hafter).2,
    liveCount_sweep hmarking.same, rfl, unmarked_sweep _, ?_⟩
  -- The survivors are reached again, so each of them gets a mark.
  have hafter : (a.collect h scopes roots).2.Unmarked := unmarked_sweep _
  obtain ⟨unvisited', hmarking'⟩ := marking_mark (marking_start hafter h scopes roots)
  have hnothing := unreached_eq_nil hmarking'.same fun id hid =>
    (marked_iff hmarking' id).2 ⟨hid, ((hlive id).1 hid).2.mono hrecord⟩
  rw [collect_eq_sweep]
  simp [sweep, markedSlots, hnothing]

/-- The scope of a program with a link that leads nowhere any more, and two scopes that link to each
other. -/
def knot : ScopeArena :=
  let record (kind : RecordKind) (owner : RecordId) : Option Record :=
    some ((Record.fresh "scope" kind).bind "name" (.link owner))
  { slots := #[⟨0, record .program ⟨2, 0⟩, false⟩, ⟨0, record .function ⟨2, 1⟩, false⟩,
      ⟨1, record .function ⟨1, 0⟩, false⟩]
    vacant := []
    allocated := 4
    reclaimed := 1 }

/-- Neither the link that leads nowhere nor the cycle keeps the two scopes. -/
theorem collect_knot : knot.Unmarked ∧ (knot.collect .empty [⟨0, 0⟩, ⟨5, 0⟩] []).1 = 2 ∧
    (knot.collect .empty [⟨0, 0⟩, ⟨5, 0⟩] []).2.liveCount + 2 = knot.liveCount ∧
    ((knot.collect .empty [⟨0, 0⟩, ⟨5, 0⟩] []).2.collect .empty [⟨0, 0⟩, ⟨5, 0⟩] []).1 = 0 := by
  have hknot : knot.Unmarked := by simp [Unmarked, knot]
  have hfreed : (knot.collect .empty [⟨0, 0⟩, ⟨5, 0⟩] []).1 = 2 := by decide +kernel
  obtain ⟨-, -, hcount, -, -, hagain⟩ := collect_exact knot hknot .empty [⟨0, 0⟩, ⟨5, 0⟩] []
  exact ⟨hknot, hfreed, hfreed ▸ hcount, hagain⟩

end ScopeArena

end ScriptCore
