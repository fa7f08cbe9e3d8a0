import Mathlib.Tactic.Common
import ScriptCore.Scope.Arena

/-!
# The arena as a map from handles to records

Seen from outside, an arena is the partial map `record?` from handles to records.  This file says
what each operation does to that map: exchanging a record changes it at one handle, making a record
adds a handle that was dead before, and freeing a record makes one handle dead.

Making a record needs the vacant slots to be vacant indeed, and to be listed once each; that is
`Vacancies`, which every operation keeps.

Capturing marks the records that a record leads to by links, `LinkReached`, and nothing else.  The
walk `followLinks` finds them all if no link on the way is dead (`mem_followLinks_iff`).
-/

namespace ScriptCore

/-- The record with the flag of being captured set. -/
def Record.pinned (record : Record) : Record :=
  { record with captured := true }

theorem Record.pinned_pinned (record : Record) : record.pinned.pinned = record.pinned :=
  rfl

namespace ScopeArena

variable {a : ScopeArena} {id other : RecordId} {record : Record}

/-! ## Handles and slots -/

theorem record?_eq_some_iff :
    a.record? id = some record ↔
      ∃ slot, a.slots[id.index]? = some slot ∧ slot.generation = id.generation ∧
        slot.record = some record := by
  unfold record?
  constructor
  · intro hrecord
    split at hrecord
    · rename_i slot hslot
      split at hrecord
      · exact ⟨slot, hslot, ‹_›, hrecord⟩
      · simp at hrecord
    · simp at hrecord
  · rintro ⟨slot, hslot, hgeneration, hrecord⟩
    simp [hslot, hgeneration, hrecord]

theorem isLive_iff : a.isLive id = true ↔ ∃ record, a.record? id = some record := by
  rw [isLive, Option.isSome_iff_exists]

theorem isLive_of_record? (hrecord : a.record? id = some record) : a.isLive id = true :=
  isLive_iff.2 ⟨record, hrecord⟩

theorem get_of_record? (hrecord : a.record? id = some record) : a.get id = .ok record := by
  simp [get, hrecord]

theorem eq_of_index_eq {record' : Record} (hrecord : a.record? id = some record)
    (hother : a.record? other = some record') (hindex : other.index = id.index) : other = id := by
  obtain ⟨slot, hslot, hgeneration, -⟩ := record?_eq_some_iff.1 hrecord
  obtain ⟨slot', hslot', hgeneration', -⟩ := record?_eq_some_iff.1 hother
  rw [hindex, hslot] at hslot'
  obtain rfl := Option.some.inj hslot'
  cases id
  cases other
  simp_all

/-! ## Exchanging a record -/

theorem record?_put (hrecord : a.record? id = some record) (new : Record) (other : RecordId) :
    (a.put id.index new).record? other = if other = id then some new else a.record? other := by
  obtain ⟨slot, hslot, hgeneration, hheld⟩ := record?_eq_some_iff.1 hrecord
  split
  · subst other
    simp [put, record?, Array.getElem?_modify, hslot, hgeneration]
  · rename_i hne
    by_cases hindex : other.index = id.index
    · have hdead : slot.generation ≠ other.generation := by
        intro heq
        cases id
        cases other
        simp_all
      simp [put, record?, Array.getElem?_modify, hindex, hslot, hdead]
    · simp [put, record?, Array.getElem?_modify, Ne.symm hindex]

theorem update_of_record? (hrecord : a.record? id = some record) (change : Record → Record) :
    a.update id change = (.ok (), a.put id.index (change record)) := by
  simp [update, get_of_record? hrecord]

/-- Changing a record changes it at its handle; nothing is changed through a dead handle. -/
theorem record?_update (a : ScopeArena) (id : RecordId) (change : Record → Record)
    (other : RecordId) :
    (a.update id change).2.record? other =
      if other = id then (a.record? other).map change else a.record? other := by
  cases hrecord : a.record? id with
  | none =>
      simp only [update, get, hrecord]
      split
      · simp [*]
      · rfl
  | some record =>
      rw [update_of_record? hrecord, record?_put hrecord]
      split
      · simp [*]
      · rfl

theorem define_of_record? (hrecord : a.record? id = some record) (name : String) (value : Value) :
    a.define id name value = (.ok (), a.put id.index (record.bind name (.value value))) :=
  update_of_record? hrecord _

/-! ## Vacant slots -/

/-- The slots listed as vacant hold no record, and each is listed once. -/
structure Vacancies (a : ScopeArena) : Prop where
  nodup : a.vacant.Nodup
  vacant : ∀ index ∈ a.vacant, ∃ slot, a.slots[index]? = some slot ∧ slot.record = none

theorem vacancies_empty : empty.Vacancies :=
  ⟨.nil, fun _ hindex => absurd hindex List.not_mem_nil⟩

theorem Vacancies.put (ha : a.Vacancies) (hrecord : a.record? id = some record) (new : Record) :
    (a.put id.index new).Vacancies := by
  refine ⟨ha.nodup, fun index hindex => ?_⟩
  obtain ⟨slot, hslot, hnone⟩ := ha.vacant index hindex
  have hne : id.index ≠ index := by
    rintro rfl
    obtain ⟨slot', hslot', -, hheld⟩ := record?_eq_some_iff.1 hrecord
    rw [hslot] at hslot'
    obtain rfl := Option.some.inj hslot'
    simp [hnone] at hheld
  exact ⟨slot, by simpa [ScopeArena.put, Array.getElem?_modify, hne] using hslot, hnone⟩

/-- A vacant slot leaves every handle to it dead. -/
theorem record?_eq_none_of_vacant {slot : Slot} (hslot : a.slots[id.index]? = some slot)
    (hnone : slot.record = none) : a.record? id = none := by
  simp [record?, hslot, hnone]

/-! ## Making a record -/

theorem record?_alloc_self (ha : a.Vacancies) (new : Record) :
    a.record? (a.alloc new).1 = none := by
  cases hvacant : a.vacant with
  | nil => simp [alloc, hvacant, record?]
  | cons index rest =>
      obtain ⟨slot, hslot, hnone⟩ := ha.vacant index (by simp [hvacant])
      simp only [alloc, hvacant]
      exact record?_eq_none_of_vacant hslot hnone

theorem record?_alloc (ha : a.Vacancies) (new : Record) (other : RecordId) :
    (a.alloc new).2.record? other =
      if other = (a.alloc new).1 then some new else a.record? other := by
  cases hvacant : a.vacant with
  | nil =>
      simp only [alloc, hvacant, record?, Array.getElem?_push]
      by_cases hindex : other.index = a.slots.size
      · cases other
        simp_all [eq_comm]
      · have hne : other ≠ ⟨a.slots.size, 0⟩ := by
          rintro rfl
          exact hindex rfl
        simp [hindex, hne]
  | cons index rest =>
      -- The slot used again holds no record, so no handle of its present generation was live.
      obtain ⟨slot, hslot, hnone⟩ := ha.vacant index (by simp [hvacant])
      simp only [alloc, hvacant, record?, Array.getElem?_modify]
      by_cases hindex : index = other.index
      · subst hindex
        cases other
        simp only [handleAt, Array.getD_eq_getD_getElem?, hslot, Option.getD_some, if_true,
          Option.map_some, RecordId.mk.injEq, true_and]
        simp only [hnone, ite_self, eq_comm]
      · have hne : other ≠ a.handleAt index := by
          rintro rfl
          exact hindex rfl
        simp [hindex, hne]

theorem Vacancies.alloc (ha : a.Vacancies) (new : Record) : (a.alloc new).2.Vacancies := by
  cases hvacant : a.vacant with
  | nil =>
      simp only [ScopeArena.alloc, hvacant]
      exact ⟨by simp, by simp⟩
  | cons index rest =>
      simp only [ScopeArena.alloc, hvacant]
      have hnodup := ha.nodup
      rw [hvacant] at hnodup
      obtain ⟨hnew, hrest⟩ := List.nodup_cons.1 hnodup
      refine ⟨hrest, fun place hplace => ?_⟩
      obtain ⟨slot, hslot, hnone⟩ := ha.vacant place (by simp [hvacant, hplace])
      have hne : index ≠ place := by
        rintro rfl
        exact hnew hplace
      exact ⟨slot, by simpa [Array.getElem?_modify, hne] using hslot, hnone⟩

/-! ## Freeing a record -/

theorem free_of_record? (hrecord : a.record? id = some record) :
    a.free id.index = { a with
      slots := a.slots.modify id.index vacated
      vacant := id.index :: a.vacant
      reclaimed := a.reclaimed + 1 } := by
  obtain ⟨slot, hslot, -, hheld⟩ := record?_eq_some_iff.1 hrecord
  simp [free, Array.getD_eq_getD_getElem?, hslot, hheld]

theorem record?_free (hrecord : a.record? id = some record) (other : RecordId) :
    (a.free id.index).record? other = if other = id then none else a.record? other := by
  obtain ⟨slot, hslot, hgeneration, hheld⟩ := record?_eq_some_iff.1 hrecord
  rw [free_of_record? hrecord]
  by_cases hindex : other.index = id.index
  -- Two handles of one slot cannot both be live.
  · have hdead : other ≠ id → a.record? other = none := by
      intro hne
      by_contra hlive
      obtain ⟨record', hother⟩ := Option.ne_none_iff_exists'.1 hlive
      exact hne (eq_of_index_eq hrecord hother hindex)
    split
    · simp [record?, Array.getElem?_modify, hindex, hslot, vacated]
    · rename_i hne
      rw [hdead hne]
      simp [record?, Array.getElem?_modify, hindex, hslot, vacated]
  · have hne : other ≠ id := by
      rintro rfl
      exact hindex rfl
    simp [record?, Array.getElem?_modify, Ne.symm hindex, hne]

theorem Vacancies.free (ha : a.Vacancies) (hrecord : a.record? id = some record) :
    (a.free id.index).Vacancies := by
  obtain ⟨slot, hslot, -, hheld⟩ := record?_eq_some_iff.1 hrecord
  rw [free_of_record? hrecord]
  -- The slot holds a record until now, so it is not listed yet.
  have hnew : id.index ∉ a.vacant := by
    intro hmem
    obtain ⟨slot', hslot', hnone⟩ := ha.vacant _ hmem
    rw [hslot] at hslot'
    obtain rfl := Option.some.inj hslot'
    simp [hnone] at hheld
  refine ⟨List.nodup_cons.2 ⟨hnew, ha.nodup⟩, fun index hindex => ?_⟩
  rcases List.mem_cons.1 hindex with rfl | hbefore
  · exact ⟨vacated slot, by simp [Array.getElem?_modify, hslot], rfl⟩
  · obtain ⟨slot', hslot', hnone⟩ := ha.vacant index hbefore
    have hne : id.index ≠ index := by
      rintro rfl
      exact hnew hbefore
    exact ⟨slot', by simpa [Array.getElem?_modify, hne] using hslot', hnone⟩

theorem release_of_record? (hrecord : a.record? id = some record) :
    a.release id = if record.captured then (.ok false, a) else (.ok true, a.free id.index) := by
  simp [release, get_of_record? hrecord]

/-! ## Capturing -/

/-- A live record is captured. -/
def Captured (a : ScopeArena) (id : RecordId) : Prop :=
  ∃ record, a.record? id = some record ∧ record.captured = true

/-- What a record leads to by links alone. -/
inductive LinkReached (a : ScopeArena) (id : RecordId) : RecordId → Prop
  | self : LinkReached a id id
  | link {via owner : RecordId} {record : Record} (hreached : LinkReached a id via)
      (hlive : a.record? via = some record) (hlink : owner ∈ record.links) : LinkReached a id owner

theorem LinkReached.trans {via : RecordId} (hbefore : LinkReached a id via)
    (hafter : LinkReached a via other) : LinkReached a id other := by
  induction hafter with
  | self => exact hbefore
  | link _ hlive hlink ih => exact .link ih hlive hlink

/-- What was reached stays reached. -/
theorem mem_followLinks_of_mem {reached pending : List RecordId} (hmem : id ∈ reached) :
    id ∈ (a.followLinks reached pending).2 := by
  fun_induction a.followLinks reached pending with
  | case1 => exact hmem
  | case2 => exact hmem
  | case3 _ _ _ _ _ _ ih => exact ih hmem
  | case4 _ _ _ _ _ _ ih => exact ih (List.mem_cons_of_mem _ hmem)

/-- Nothing is reached but what the pending records lead to. -/
theorem linkReached_of_mem_followLinks {reached pending : List RecordId}
    (hmem : id ∈ (a.followLinks reached pending).2) :
    id ∈ reached ∨ ∃ start ∈ pending, LinkReached a start id := by
  fun_induction a.followLinks reached pending with
  | case1 => exact .inl hmem
  | case2 => exact .inl hmem
  | case3 reached start rest record hrecord hseen ih =>
      refine (ih hmem).imp_right fun ⟨first, hfirst, hreached⟩ => ?_
      exact ⟨first, List.mem_cons_of_mem _ hfirst, hreached⟩
  | case4 reached start rest record hrecord hnew ih =>
      rcases ih hmem with hbefore | ⟨first, hfirst, hreached⟩
      · rcases List.mem_cons.1 hbefore with rfl | hbefore
        · exact .inr ⟨id, List.mem_cons_self, .self⟩
        · exact .inl hbefore
      · rcases List.mem_append.1 hfirst with hlink | hrest
        -- The record that was taken up leads to its links, and through them to what is reached.
        · have hstart : LinkReached a start first :=
            .link .self hrecord (List.mem_reverse.1 hlink)
          exact .inr ⟨start, List.mem_cons_self, hstart.trans hreached⟩
        · exact .inr ⟨first, List.mem_cons_of_mem _ hrest, hreached⟩

/-- If no link on the way is dead, the walk comes to its end. -/
theorem followLinks_eq_none {reached pending : List RecordId}
    (hlive : ∀ start ∈ pending, ∀ id, LinkReached a start id → a.isLive id = true) :
    (a.followLinks reached pending).1 = none := by
  fun_induction a.followLinks reached pending with
  | case1 => rfl
  | case2 reached start rest hdead =>
      simpa [isLive, hdead] using hlive start List.mem_cons_self start .self
  | case3 reached start rest record hrecord hseen ih =>
      exact ih fun first hfirst => hlive first (List.mem_cons_of_mem _ hfirst)
  | case4 reached start rest record hrecord hnew ih =>
      refine ih fun first hfirst id hreached => ?_
      rcases List.mem_append.1 hfirst with hlink | hrest
      · have hstart : LinkReached a start first :=
          .link .self hrecord (List.mem_reverse.1 hlink)
        exact hlive start List.mem_cons_self id (hstart.trans hreached)
      · exact hlive first (List.mem_cons_of_mem _ hrest) id hreached

/-- If the walk comes to its end, what it reached is live and closed under links. -/
theorem followLinks_closed {reached pending : List RecordId}
    (hnone : (a.followLinks reached pending).1 = none) :
    (∀ id ∈ pending, id ∈ (a.followLinks reached pending).2) ∧
      ∀ id ∈ (a.followLinks reached pending).2, id ∈ reached ∨
        ∃ record, a.record? id = some record ∧
          ∀ owner ∈ record.links, owner ∈ (a.followLinks reached pending).2 := by
  fun_induction a.followLinks reached pending with
  | case1 => exact ⟨by simp, fun _ hmem => .inl hmem⟩
  | case2 reached start rest hdead => nomatch hnone
  | case3 reached start rest record hrecord hseen ih =>
      obtain ⟨hpending, hclosed⟩ := ih hnone
      refine ⟨fun id hid => ?_, hclosed⟩
      rcases List.mem_cons.1 hid with rfl | hrest
      · exact mem_followLinks_of_mem hseen
      · exact hpending id hrest
  | case4 reached start rest record hrecord hnew ih =>
      obtain ⟨hpending, hclosed⟩ := ih hnone
      -- The links of the record taken up were put in front of the pending ones, so they are
      -- reached.
      refine ⟨fun id hid => ?_, fun id hid => ?_⟩
      · rcases List.mem_cons.1 hid with rfl | hrest
        · exact mem_followLinks_of_mem List.mem_cons_self
        · exact hpending id (List.mem_append_right _ hrest)
      · rcases hclosed id hid with hmem | hlinks
        · rcases List.mem_cons.1 hmem with rfl | hbefore
          · refine .inr ⟨record, hrecord, fun owner howner => ?_⟩
            exact hpending owner (List.mem_append_left _ (List.mem_reverse.2 howner))
          · exact .inl hbefore
        · exact .inr hlinks

/-- A walk that came to its end has reached all that the record leads to, and all of it is live. -/
theorem mem_followLinks_of_linkReached (hnone : (a.followLinks [] [id]).1 = none)
    (hreached : LinkReached a id other) :
    other ∈ (a.followLinks [] [id]).2 ∧ a.isLive other = true := by
  -- Nothing counts as reached in advance, so all that was reached is closed under links.
  obtain ⟨hpending, hclosed⟩ := followLinks_closed hnone
  have hmem : other ∈ (a.followLinks [] [id]).2 := by
    induction hreached with
    | self => exact hpending id (by simp)
    | link _ hrecord hlink ih =>
        obtain ⟨record, hheld, hlinks⟩ := (hclosed _ ih).resolve_left List.not_mem_nil
        obtain rfl := Option.some.inj (hheld.symm.trans hrecord)
        exact hlinks _ hlink
  obtain ⟨record, hheld, -⟩ := (hclosed other hmem).resolve_left List.not_mem_nil
  exact ⟨hmem, isLive_of_record? hheld⟩

/-- The walk from one record reaches what the record leads to by links. -/
theorem mem_followLinks_iff (hlive : ∀ other, LinkReached a id other → a.isLive other = true) :
    other ∈ (a.followLinks [] [id]).2 ↔ LinkReached a id other := by
  constructor
  · intro hmem
    simpa using linkReached_of_mem_followLinks hmem
  · intro hreached
    exact (mem_followLinks_of_linkReached (followLinks_eq_none (by simpa using hlive)) hreached).1

theorem record?_pin (a : ScopeArena) (id other : RecordId) :
    (a.pin id).record? other =
      if other = id then (a.record? other).map Record.pinned else a.record? other :=
  record?_update a id Record.pinned other

theorem record?_pin_all (ids : List RecordId) (a : ScopeArena) (other : RecordId) :
    (ids.foldl pin a).record? other =
      if other ∈ ids then (a.record? other).map Record.pinned else a.record? other := by
  induction ids generalizing a with
  | nil => simp
  | cons id rest ih =>
      rw [List.foldl_cons, ih, record?_pin]
      by_cases hrest : other ∈ rest <;> by_cases hid : other = id <;>
        simp [hrest, hid, Function.comp_def, Record.pinned_pinned]

theorem Vacancies.pin_all (ha : a.Vacancies) (ids : List RecordId) :
    (ids.foldl pin a).Vacancies := by
  induction ids generalizing a with
  | nil => exact ha
  | cons id rest ih =>
      refine ih ?_
      unfold pin
      cases hrecord : a.record? id with
      | none => simpa [update, get, hrecord] using ha
      | some record =>
          rw [update_of_record? hrecord]
          exact ha.put hrecord _

theorem capture_eq (a : ScopeArena) (id : RecordId) :
    (a.capture id).2 = (a.followLinks [] [id]).2.foldl pin a := by
  unfold capture
  dsimp only
  split <;> rfl

theorem Vacancies.capture (ha : a.Vacancies) (id : RecordId) : (a.capture id).2.Vacancies := by
  rw [capture_eq]
  exact ha.pin_all _

theorem capture_ok (hlive : ∀ other, LinkReached a id other → a.isLive other = true) :
    (a.capture id).1 = .ok () := by
  have hnone : (a.followLinks [] [id]).1 = none := followLinks_eq_none (by simpa using hlive)
  simp [capture, hnone]

open Classical in
/-- Capturing marks the records that the record leads to by links. -/
theorem record?_capture (hlive : ∀ other, LinkReached a id other → a.isLive other = true)
    (other : RecordId) :
    (a.capture id).2.record? other =
      if LinkReached a id other then (a.record? other).map Record.pinned else a.record? other := by
  simp only [capture_eq, record?_pin_all, mem_followLinks_iff hlive]

end ScopeArena

end ScriptCore
