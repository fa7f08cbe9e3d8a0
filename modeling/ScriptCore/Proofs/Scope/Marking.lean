import Mathlib.Tactic.Common
import ScriptCore.Proofs.Scope.Reachability

/-!
# Marking finds exactly what is reached

`Collector.mark` runs down a worklist.  Records are taken up once because they get a mark,
containers because they are taken out of the row of those not yet visited; values of the other
kinds are taken up as often as they are met.

`Marking` is the invariant of that run, and it speaks about both directions at once.

* Whatever has a mark, and whatever is in the worklist, is reached.
* Whatever the walk has to start from, and whatever a marked record or a visited container leads
  to, is *settled*: it is still in the worklist, or it was taken up.

When the worklist is empty, being settled is having been taken up, so the marked records are closed
under the walk (`Marking.settled_of_reached`).  `marking_mark` carries the invariant from the first
worklist to the empty one.
-/

namespace ScriptCore.Collector

/-! ## Marks and visits -/

/-- What a slot holds, apart from its mark. -/
def content (slot : Slot) : UInt32 × Option Record :=
  (slot.generation, slot.record)

/-- Slots that differ from those of the arena in their marks only. -/
def SameRecords (a : ScopeArena) (slots : Array Slot) : Prop :=
  ∀ index : Nat, (slots[index]?).map content = (a.slots[index]?).map content

/-- A handle stands for the generation of its slot, and the slot has a mark. -/
def Marked (slots : Array Slot) (id : RecordId) : Prop :=
  ∃ slot, slots[id.index]? = some slot ∧ slot.generation = id.generation ∧ slot.marked = true

/-- A container is still to be visited. -/
def Waiting (h : Heap) (unvisited : Array (Option Container)) (container : Container) : Prop :=
  unvisited[h.placeOf container]? = some (some container)

variable {a : ScopeArena} {h : Heap} {slots : Array Slot} {unvisited : Array (Option Container)}
  {work : List WorkItem}

theorem SameRecords.record?_eq (hsame : SameRecords a slots) {id : RecordId} {slot : Slot}
    (hslot : slots[id.index]? = some slot) (hgeneration : slot.generation = id.generation) :
    a.record? id = slot.record := by
  have hcontent := hsame id.index
  rw [hslot] at hcontent
  cases horiginal : a.slots[id.index]? with
  | none => simp [horiginal] at hcontent
  | some original =>
      simp only [horiginal, Option.map_some, Option.some.injEq, content, Prod.mk.injEq] at hcontent
      simp [ScopeArena.record?, horiginal, ← hcontent.1, hgeneration, hcontent.2]

theorem SameRecords.exists_slot (hsame : SameRecords a slots) {id : RecordId} {record : Record}
    (hlive : a.record? id = some record) :
    ∃ slot, slots[id.index]? = some slot ∧ slot.generation = id.generation ∧
      slot.record = some record := by
  unfold ScopeArena.record? at hlive
  have hcontent := hsame id.index
  split at hlive
  · rename_i original horiginal
    split at hlive
    · rename_i hgeneration
      cases hslot : slots[id.index]? with
      | none => simp [horiginal, hslot] at hcontent
      | some slot =>
          simp only [hslot, horiginal, Option.map_some, Option.some.injEq, content,
            Prod.mk.injEq] at hcontent
          exact ⟨slot, rfl, hcontent.1.trans hgeneration, hcontent.2.trans hlive⟩
    · simp at hlive
  · simp at hlive

/-- The record that marking takes up is the record of the arena. -/
theorem record?_of_unmarked? (hsame : SameRecords a slots) {id : RecordId} {record : Record}
    (hfound : unmarked? slots id = some record) : a.record? id = some record := by
  unfold unmarked? at hfound
  split at hfound
  · rename_i slot hslot
    split at hfound
    · rename_i hstate
      rw [hsame.record?_eq hslot hstate.1, hfound]
    · simp at hfound
  · simp at hfound

/-- A live record that marking does not take up has a mark already. -/
theorem marked_of_unmarked?_eq_none (hsame : SameRecords a slots) {id : RecordId}
    (hnone : unmarked? slots id = none) (hlive : a.isLive id = true) : Marked slots id := by
  obtain ⟨record, hrecord⟩ := Option.isSome_iff_exists.1 hlive
  obtain ⟨slot, hslot, hgeneration, hheld⟩ := hsame.exists_slot hrecord
  refine ⟨slot, hslot, hgeneration, ?_⟩
  by_contra hmark
  simp [unmarked?, hslot, hgeneration, hheld, hmark] at hnone

theorem getElem?_setMark (index other : Nat) :
    (setMark slots index)[other]? =
      if index = other then (slots[other]?).map fun slot => { slot with marked := true }
      else slots[other]? := by
  simp only [setMark, Array.getElem?_modify]

theorem SameRecords.setMark (hsame : SameRecords a slots) (index : Nat) :
    SameRecords a (setMark slots index) := by
  intro other
  rw [← hsame other, getElem?_setMark]
  split <;> cases slots[other]? <;> rfl

theorem Marked.setMark {id : RecordId} (hmarked : Marked slots id) (index : Nat) :
    Marked (setMark slots index) id := by
  obtain ⟨slot, hslot, hgeneration, hmark⟩ := hmarked
  rw [Marked, getElem?_setMark, hslot]
  split
  · exact ⟨_, rfl, hgeneration, rfl⟩
  · exact ⟨slot, rfl, hgeneration, hmark⟩

/-- The handle whose slot gets a mark is marked. -/
theorem marked_setMark {id : RecordId} {record : Record}
    (hfound : unmarked? slots id = some record) : Marked (setMark slots id.index) id := by
  unfold unmarked? at hfound
  split at hfound
  · rename_i slot hslot
    split at hfound
    · rename_i hstate
      exact ⟨{ slot with marked := true }, by simp [getElem?_setMark, hslot], hstate.1, rfl⟩
    · simp at hfound
  · simp at hfound

/-- A handle that is marked afterwards was marked before, or stands in the slot that got the
mark. -/
theorem marked_of_marked_setMark {id other : RecordId} {record : Record}
    (hfound : unmarked? slots id = some record)
    (hmarked : Marked (setMark slots id.index) other) : other = id ∨ Marked slots other := by
  obtain ⟨slot, hslot, hgeneration, hmark⟩ := hmarked
  rw [getElem?_setMark] at hslot
  split at hslot
  · rename_i hindex
    left
    obtain ⟨before, hbefore, rfl⟩ := Option.map_eq_some_iff.1 hslot
    unfold unmarked? at hfound
    rw [hindex, hbefore] at hfound
    split at hfound
    · rename_i slot heq
      obtain rfl := Option.some.inj heq
      split at hfound
      · rename_i hstate
        cases id
        cases other
        simp_all
      · simp at hfound
    · simp at hfound
  · exact .inr ⟨slot, hslot, hgeneration, hmark⟩

theorem waiting_of_waiting_visit {container other : Container}
    (hwaiting : Waiting h (visit h unvisited container) other) : Waiting h unvisited other := by
  simp only [Waiting, visit, Array.getElem?_modify] at hwaiting ⊢
  split at hwaiting
  · cases hplace : unvisited[h.placeOf other]? <;> simp [hplace] at hwaiting
  · exact hwaiting

theorem not_waiting_visit (container : Container) :
    ¬ Waiting h (visit h unvisited container) container := by
  simp only [Waiting, visit, Array.getElem?_modify]
  cases unvisited[h.placeOf container]? <;> simp

/-- A container that was waiting and is not any more is the one that was visited. -/
theorem eq_of_not_waiting_visit {container other : Container}
    (hwaiting : Waiting h unvisited container) (hother : Waiting h unvisited other)
    (hvisited : ¬ Waiting h (visit h unvisited container) other) : other = container := by
  by_contra hne
  apply hvisited
  simp only [Waiting, visit, Array.getElem?_modify] at hwaiting hother ⊢
  split
  · rename_i hplace
    rw [hplace, hother] at hwaiting
    simp_all
  · exact hother

/-- A container leads nowhere but into itself. -/
theorem simpleItem?_of_container {value : Value} {container : Container}
    (hcontainer : Heap.container? value = some container) : h.simpleItem? value = none := by
  cases value <;> simp [Heap.simpleItem?, Heap.container?] at hcontainer ⊢

/-! ## What is settled -/

/-- An item was taken up: a record has its mark, unless it is dead; a container was visited. -/
def Met (a : ScopeArena) (h : Heap) (slots : Array Slot) (unvisited : Array (Option Container)) :
    WorkItem → Prop
  | .record id => a.isLive id = true → Marked slots id
  | .value value =>
    ∀ container, Heap.container? value = some container → ¬ Waiting h unvisited container

/-- An item and what it leads to as a value that is no container were taken up, or are about to
be. -/
def Resolved (a : ScopeArena) (h : Heap) (slots : Array Slot)
    (unvisited : Array (Option Container)) (work : List WorkItem) (item : WorkItem) : Prop :=
  Met a h slots unvisited item ∧
    ∀ value next, item = .value value → h.simpleItem? value = some next →
      next ∈ work ∨ Met a h slots unvisited next

/-- An item needs no further attention apart from what is in the worklist. -/
def Settled (a : ScopeArena) (h : Heap) (slots : Array Slot)
    (unvisited : Array (Option Container)) (work : List WorkItem) (item : WorkItem) : Prop :=
  item ∈ work ∨ Resolved a h slots unvisited work item

/-- Items stay settled while marks are set, containers visited and items of the worklist
resolved. -/
theorem Settled.mono {slots' : Array Slot} {unvisited' : Array (Option Container)}
    {work' : List WorkItem} (hmarks : ∀ id, Marked slots id → Marked slots' id)
    (hvisits : ∀ container, Waiting h unvisited' container → Waiting h unvisited container)
    (hwork : ∀ item ∈ work, item ∈ work' ∨ Resolved a h slots' unvisited' work' item)
    {item : WorkItem} (hsettled : Settled a h slots unvisited work item) :
    Settled a h slots' unvisited' work' item := by
  have hmet : ∀ next, Met a h slots unvisited next → Met a h slots' unvisited' next := by
    intro next hnext
    cases next with
    | record id => exact fun hlive => hmarks id (hnext hlive)
    | value value => exact fun container hc hwaiting => hnext container hc (hvisits _ hwaiting)
  rcases hsettled with hmem | ⟨hdone, hnext⟩
  · exact hwork item hmem
  · refine .inr ⟨hmet item hdone, fun value next hvalue hsimple => ?_⟩
    rcases hnext value next hvalue hsimple with hmem | hdone
    · exact (hwork next hmem).imp_right And.left
    · exact .inr (hmet next hdone)

/-- With nothing left to do, what is settled was taken up. -/
theorem Settled.met {item : WorkItem} (hsettled : Settled a h slots unvisited [] item) :
    Met a h slots unvisited item :=
  (hsettled.resolve_left List.not_mem_nil).1

/-! ## The invariant -/

/-- The state of marking from the given scopes and values. -/
structure Marking (a : ScopeArena) (h : Heap) (scopes : List RecordId) (roots : List Value)
    (slots : Array Slot) (unvisited : Array (Option Container)) (work : List WorkItem) : Prop where
  same : SameRecords a slots
  marked_reached : ∀ id, Marked slots id →
    a.isLive id = true ∧ Reached a h scopes roots (.record id)
  work_reached : ∀ item ∈ work, Reached a h scopes roots item
  scopes_settled : ∀ id ∈ scopes, Settled a h slots unvisited work (.record id)
  roots_settled : ∀ value ∈ roots, Settled a h slots unvisited work (.value value)
  marked_settled : ∀ id next, Marked slots id → Leads a h (.record id) next →
    Settled a h slots unvisited work next
  visited_settled : ∀ container, ¬ Waiting h unvisited container →
    ∀ inner ∈ h.contents container, Settled a h slots unvisited work (.value inner)

variable {scopes : List RecordId} {roots : List Value}

/-- When the worklist is empty, everything reached was taken up. -/
theorem Marking.settled_of_reached (hmarking : Marking a h scopes roots slots unvisited [])
    {item : WorkItem} (hreached : Reached a h scopes roots item) :
    Settled a h slots unvisited [] item := by
  induction hreached with
  | scope hmem => exact hmarking.scopes_settled _ hmem
  | root hmem => exact hmarking.roots_settled _ hmem
  | @step item next hbefore hleads ih =>
      -- A settled record was marked, so its items are settled; a settled value was visited or
      -- looked into.
      cases item with
      | record id =>
          obtain ⟨record, hlive, -⟩ := mem_items_of_leads hleads
          have hmarked : Marked slots id := ih.met (by simp [ScopeArena.isLive, hlive])
          exact hmarking.marked_settled id next hmarked hleads
      | value value =>
          rcases content_or_simpleItem_of_leads hleads with
            ⟨container, inner, hcontainer, hinner, rfl⟩ | ⟨-, hsimple⟩
          · exact hmarking.visited_settled container (ih.met container hcontainer) inner hinner
          · have hmet : Met a h slots unvisited next :=
              ((ih.resolve_left List.not_mem_nil).2 value next rfl hsimple).resolve_left
                List.not_mem_nil
            refine .inr ⟨hmet, fun inner further hinner hfurther => ?_⟩
            subst hinner
            -- What a function leads to is a scope or a container, which leads no further here.
            cases value <;> simp only [Heap.simpleItem?, reduceCtorEq] at hsimple
            case function address =>
              cases hcallable : (h.function address).callable <;>
                simp only [hcallable, Heap.callableItem?, Option.some.injEq, WorkItem.value.injEq,
                  reduceCtorEq] at hsimple <;>
                subst hsimple <;> simp [Heap.simpleItem?] at hfurther

/-- One item less in the worklist, one that was resolved and did not change anything. -/
theorem Marking.drop {item : WorkItem} {rest : List WorkItem}
    (hmarking : Marking a h scopes roots slots unvisited (item :: rest))
    (hresolved : Resolved a h slots unvisited rest item) :
    Marking a h scopes roots slots unvisited rest := by
  have hmono : ∀ next, Settled a h slots unvisited (item :: rest) next →
      Settled a h slots unvisited rest next := fun next =>
    Settled.mono (fun _ hkeep => hkeep) (fun _ hkeep => hkeep) fun other hother => by
      rcases List.mem_cons.1 hother with rfl | hrest
      · exact .inr hresolved
      · exact .inl hrest
  exact {
    same := hmarking.same
    marked_reached := hmarking.marked_reached
    work_reached := fun next hnext => hmarking.work_reached next (List.mem_cons_of_mem _ hnext)
    scopes_settled := fun id hid => hmono _ (hmarking.scopes_settled id hid)
    roots_settled := fun value hvalue => hmono _ (hmarking.roots_settled value hvalue)
    marked_settled := fun id next hid hleads => hmono _ (hmarking.marked_settled id next hid hleads)
    visited_settled := fun container hc inner hinner =>
      hmono _ (hmarking.visited_settled container hc inner hinner) }

/-- A record gets its mark and its items join the worklist. -/
theorem Marking.take_record {id : RecordId} {record : Record} {rest : List WorkItem}
    (hmarking : Marking a h scopes roots slots unvisited (.record id :: rest))
    (hfound : unmarked? slots id = some record) :
    Marking a h scopes roots (setMark slots id.index) unvisited (record.items ++ rest) := by
  have hlive : a.record? id = some record := record?_of_unmarked? hmarking.same hfound
  have hreached : Reached a h scopes roots (.record id) := hmarking.work_reached _ (by simp)
  have hmarks : ∀ other, Marked slots other → Marked (setMark slots id.index) other :=
    fun _ hother => hother.setMark _
  have hmono : ∀ next, Settled a h slots unvisited (.record id :: rest) next →
      Settled a h (setMark slots id.index) unvisited (record.items ++ rest) next := fun next =>
    Settled.mono hmarks (fun _ hkeep => hkeep) fun other hother => by
      rcases List.mem_cons.1 hother with rfl | hrest
      -- The record itself leaves the worklist with its mark set.
      · refine .inr ⟨fun _ => marked_setMark hfound, fun value further hvalue => ?_⟩
        simp at hvalue
      · exact .inl (List.mem_append_right _ hrest)
  exact {
    same := hmarking.same.setMark _
    marked_reached := by
      intro other hother
      rcases marked_of_marked_setMark hfound hother with rfl | hbefore
      · exact ⟨by simp [ScopeArena.isLive, hlive], hreached⟩
      · exact hmarking.marked_reached other hbefore
    work_reached := by
      intro next hnext
      rcases List.mem_append.1 hnext with hitem | hrest
      · exact hreached.step (leads_of_mem_items hlive hitem)
      · exact hmarking.work_reached next (List.mem_cons_of_mem _ hrest)
    scopes_settled := fun other hother => hmono _ (hmarking.scopes_settled other hother)
    roots_settled := fun value hvalue => hmono _ (hmarking.roots_settled value hvalue)
    marked_settled := by
      intro other next hother hleads
      rcases marked_of_marked_setMark hfound hother with rfl | hbefore
      · obtain ⟨record', hrecord', hitem⟩ := mem_items_of_leads hleads
        obtain rfl : record = record' := Option.some.inj (hlive.symm.trans hrecord')
        exact .inl (List.mem_append_left _ hitem)
      · exact hmono _ (hmarking.marked_settled other next hbefore hleads)
    visited_settled := fun container hc inner hinner =>
      hmono _ (hmarking.visited_settled container hc inner hinner) }

/-- A value that is no container is exchanged for what it leads to. -/
theorem Marking.take_simple {value : Value} {rest : List WorkItem}
    (hmarking : Marking a h scopes roots slots unvisited (.value value :: rest))
    (hsimple : Heap.container? value = none) :
    Marking a h scopes roots slots unvisited ((h.simpleItem? value).toList ++ rest) := by
  have hreached : Reached a h scopes roots (.value value) := hmarking.work_reached _ (by simp)
  have hmono : ∀ next, Settled a h slots unvisited (.value value :: rest) next →
      Settled a h slots unvisited ((h.simpleItem? value).toList ++ rest) next := fun next =>
    Settled.mono (fun _ hkeep => hkeep) (fun _ hkeep => hkeep) fun other hother => by
      rcases List.mem_cons.1 hother with rfl | hrest
      · -- A value without contents of its own is done with once its one item is in the worklist.
        refine .inr ⟨fun container hc => by simp [hsimple] at hc,
          fun inner further hinner hitem => ?_⟩
        cases hinner
        exact .inl (List.mem_append_left _ (by simp [hitem]))
      · exact .inl (List.mem_append_right _ hrest)
  exact {
    same := hmarking.same
    marked_reached := hmarking.marked_reached
    work_reached := by
      intro next hnext
      rcases List.mem_append.1 hnext with hitem | hrest
      · exact hreached.step (leads_of_simpleItem (Option.mem_toList.1 hitem))
      · exact hmarking.work_reached next (List.mem_cons_of_mem _ hrest)
    scopes_settled := fun other hother => hmono _ (hmarking.scopes_settled other hother)
    roots_settled := fun other hother => hmono _ (hmarking.roots_settled other hother)
    marked_settled := fun id next hid hleads => hmono _ (hmarking.marked_settled id next hid hleads)
    visited_settled := fun container hc inner hinner =>
      hmono _ (hmarking.visited_settled container hc inner hinner) }

/-- A container is visited and its contents join the worklist. -/
theorem Marking.take_container {value : Value} {container : Container} {rest : List WorkItem}
    (hmarking : Marking a h scopes roots slots unvisited (.value value :: rest))
    (hcontainer : Heap.container? value = some container)
    (hwaiting : Waiting h unvisited container) :
    Marking a h scopes roots slots (visit h unvisited container)
      ((h.contents container).map .value ++ rest) := by
  have hreached : Reached a h scopes roots (.value value) := hmarking.work_reached _ (by simp)
  have hvisits : ∀ other, Waiting h (visit h unvisited container) other →
      Waiting h unvisited other := fun _ => waiting_of_waiting_visit
  have hmono : ∀ next, Settled a h slots unvisited (.value value :: rest) next →
      Settled a h slots (visit h unvisited container)
        ((h.contents container).map .value ++ rest) next := fun next =>
    Settled.mono (fun _ hkeep => hkeep) hvisits fun other hother => by
      rcases List.mem_cons.1 hother with rfl | hrest
      · refine .inr ⟨fun other hother => ?_, fun inner further hinner hitem => ?_⟩
        · obtain rfl : container = other := Option.some.inj (hcontainer.symm.trans hother)
          exact not_waiting_visit container
        · cases hinner
          simp [simpleItem?_of_container hcontainer] at hitem
      · exact .inl (List.mem_append_right _ hrest)
  exact {
    same := hmarking.same
    marked_reached := hmarking.marked_reached
    work_reached := by
      intro next hnext
      rcases List.mem_append.1 hnext with hitem | hrest
      · obtain ⟨inner, hinner, rfl⟩ := List.mem_map.1 hitem
        exact hreached.step (leads_of_mem_contents hcontainer hinner)
      · exact hmarking.work_reached next (List.mem_cons_of_mem _ hrest)
    scopes_settled := fun other hother => hmono _ (hmarking.scopes_settled other hother)
    roots_settled := fun other hother => hmono _ (hmarking.roots_settled other hother)
    marked_settled := fun id next hid hleads => hmono _ (hmarking.marked_settled id next hid hleads)
    visited_settled := by
      intro other hother inner hinner
      -- Either the container was visited before, or it is the one that is visited now.
      by_cases hbefore : Waiting h unvisited other
      · obtain rfl := eq_of_not_waiting_visit hwaiting hbefore hother
        exact .inl (List.mem_append_left _ (List.mem_map.2 ⟨inner, hinner, rfl⟩))
      · exact hmono _ (hmarking.visited_settled other hbefore inner hinner) }

/-- Marking runs the worklist down. -/
theorem marking_mark (hmarking : Marking a h scopes roots slots unvisited work) :
    ∃ unvisited', Marking a h scopes roots (mark h slots unvisited work) unvisited' [] := by
  -- Each step of the walk is one of those above, or drops an item that was met before.
  fun_induction mark h slots unvisited work with
  | case1 => exact ⟨_, hmarking⟩
  | case2 slots unvisited id rest hfound ih =>
      refine ih (hmarking.drop ⟨fun hlive => ?_, fun value next hvalue => by simp at hvalue⟩)
      exact marked_of_unmarked?_eq_none hmarking.same hfound hlive
  | case3 slots unvisited id rest record hfound ih => exact ih (hmarking.take_record hfound)
  | case4 slots unvisited value rest hsimple ih => exact ih (hmarking.take_simple hsimple)
  | case5 slots unvisited value rest container hcontainer hwaiting ih =>
      exact ih (hmarking.take_container hcontainer hwaiting)
  | case6 slots unvisited value rest container hcontainer hvisited ih =>
      refine ih (hmarking.drop ⟨fun other hother => ?_, fun inner next hinner hitem => ?_⟩)
      · obtain rfl : container = other := Option.some.inj (hcontainer.symm.trans hother)
        exact hvisited
      · cases hinner
        simp [simpleItem?_of_container hcontainer] at hitem

end ScriptCore.Collector
