import ScriptCore.Proofs.Scope.Arena

/-!
# What capturing does

Capturing a record captures what it leads to by links (`LinkReached`), itself included, whether or
not the links form cycles, and leaves everything else in the arena as it is.  That is said of the
arena as a whole: `ScopeArena.pinnedAt` writes down the arena that is left, slot by slot, and
`capture_exact` says that it is this one.

The walk that finds the records stops at the first dead record it comes to.  So capturing succeeds
if nothing the record leads to is dead, and only then, and an error names such a record.
-/

namespace ScriptCore

/-- The slot with its record captured, if there is one. -/
def Slot.pinned (slot : Slot) : Slot :=
  { slot with record := slot.record.map Record.pinned }

/-- In a vacant slot there is nothing to capture. -/
theorem Slot.pinned_of_vacant {slot : Slot} (hvacant : slot.record = none) :
    slot.pinned = slot := by
  cases slot
  simp_all [pinned]

theorem Slot.pinned_pinned (slot : Slot) : slot.pinned.pinned = slot.pinned := by
  simp [pinned, Function.comp_def, Record.pinned_pinned]

namespace ScopeArena

variable {a : ScopeArena} {id other : RecordId}

open Classical in
/-- The arena with the records of some handles captured, and all else as it was. -/
noncomputable def pinnedAt (a : ScopeArena) (which : RecordId → Prop) : ScopeArena :=
  { a with slots := a.slots.mapIdx fun index slot =>
      if which { index, generation := slot.generation } then slot.pinned else slot }

/-! ## Marking one record after the other -/

open Classical in
theorem getElem?_pinnedAt (a : ScopeArena) (which : RecordId → Prop) (index : Nat) :
    (a.pinnedAt which).slots[index]? = a.slots[index]?.map fun slot =>
      if which { index, generation := slot.generation } then slot.pinned else slot :=
  Array.getElem?_mapIdx

/-- Arenas are the same if they differ in no slot and in none of their counts. -/
theorem eq_of_slots {b : ScopeArena} (hslots : ∀ index : Nat, b.slots[index]? = a.slots[index]?)
    (hvacant : b.vacant = a.vacant) (hallocated : b.allocated = a.allocated)
    (hreclaimed : b.reclaimed = a.reclaimed) : b = a := by
  have hall : b.slots = a.slots := Array.ext_getElem? hslots
  cases a
  cases b
  simp_all

theorem pinnedAt_none (a : ScopeArena) : a.pinnedAt (fun _ => False) = a := by
  refine eq_of_slots (fun index => ?_) rfl rfl rfl
  rw [getElem?_pinnedAt]
  simp

theorem pinnedAt_pinnedAt (a : ScopeArena) (first second : RecordId → Prop) :
    (a.pinnedAt first).pinnedAt second = a.pinnedAt fun id => first id ∨ second id := by
  refine eq_of_slots (fun index => ?_) rfl rfl rfl
  simp only [getElem?_pinnedAt, Option.map_map]
  refine congrArg (Option.map · a.slots[index]?) (funext fun slot => ?_)
  have hgeneration : slot.pinned.generation = slot.generation := rfl
  by_cases hfirst : first { index, generation := slot.generation } <;>
    by_cases hsecond : second { index, generation := slot.generation } <;>
    simp [hfirst, hsecond, hgeneration, Slot.pinned_pinned]

/-- Marking one record.  At a dead handle there is nothing to mark. -/
theorem pin_eq (a : ScopeArena) (id : RecordId) : a.pin id = a.pinnedAt (· = id) := by
  cases hrecord : a.record? id with
  | none =>
      have hpin : a.pin id = a := by simp [pin, update, get, hrecord]
      rw [hpin]
      refine eq_of_slots (fun index => ?_) rfl rfl rfl
      rw [getElem?_pinnedAt]
      cases hslot : a.slots[index]? with
      | none => rfl
      | some slot =>
          rw [Option.map_some]
          split
          · rename_i hid
            subst hid
            -- The handle is of the present generation of its slot and names nothing, so the slot is
            -- vacant.
            have hvacant : slot.record = none := by simpa [record?, hslot] using hrecord
            rw [Slot.pinned_of_vacant hvacant]
          · rfl
  | some record =>
      obtain ⟨held, hheld, hgeneration, hcontent⟩ := record?_eq_some_iff.1 hrecord
      rw [pin, update_of_record? hrecord]
      refine eq_of_slots (fun index => ?_) rfl rfl rfl
      rw [getElem?_pinnedAt, put, Array.getElem?_modify]
      by_cases hindex : id.index = index
      · subst hindex
        simp [hheld, hgeneration, Slot.pinned, hcontent, Record.pinned]
      · have hne : ∀ slot : Slot, { index, generation := slot.generation } ≠ id := by
          rintro slot rfl
          exact hindex rfl
        simp [hindex, hne]

theorem pin_all_eq (ids : List RecordId) (a : ScopeArena) :
    ids.foldl pin a = a.pinnedAt (· ∈ ids) := by
  induction ids generalizing a with
  | nil => simpa using (pinnedAt_none a).symm
  | cons id rest ih =>
      rw [List.foldl_cons, ih, pin_eq, pinnedAt_pinnedAt]
      simp only [List.mem_cons]

/-! ## What the walk comes to -/

/-- The walk ends at a dead record that the pending ones lead to. -/
theorem followLinks_eq_some {reached pending : List RecordId}
    (hdead : (a.followLinks reached pending).1 = some id) :
    a.record? id = none ∧ ∃ start ∈ pending, LinkReached a start id := by
  fun_induction a.followLinks reached pending with
  | case1 => cases hdead
  | case2 reached start rest hrecord =>
      obtain rfl := Option.some.inj hdead
      exact ⟨hrecord, start, List.mem_cons_self, .self⟩
  | case3 reached start rest record hrecord hseen ih =>
      obtain ⟨hnone, first, hfirst, hreached⟩ := ih hdead
      exact ⟨hnone, first, List.mem_cons_of_mem _ hfirst, hreached⟩
  | case4 reached start rest record hrecord hnew ih =>
      obtain ⟨hnone, first, hfirst, hreached⟩ := ih hdead
      refine ⟨hnone, ?_⟩
      -- The walk goes on with the links of `start` and with what was waiting before it.
      rcases List.mem_append.1 hfirst with hlink | hrest
      · have hstart : LinkReached a start first :=
          .link .self hrecord (List.mem_reverse.1 hlink)
        exact ⟨start, List.mem_cons_self, hstart.trans hreached⟩
      · exact ⟨first, List.mem_cons_of_mem _ hrest, hreached⟩

theorem capture_outcome (a : ScopeArena) (id : RecordId) :
    (a.capture id).1 =
      match (a.followLinks [] [id]).1 with
      | some dead => .error (.deadRecord dead.index)
      | none => .ok () := by
  unfold capture
  dsimp only
  split <;> simp [*]

/-- Capturing succeeds if nothing that the record leads to is dead, and only then. -/
theorem capture_eq_ok_iff :
    (a.capture id).1 = .ok () ↔ ∀ other, LinkReached a id other → a.isLive other = true := by
  constructor
  · intro hok other hreached
    have hnone : (a.followLinks [] [id]).1 = none := by
      cases hwalk : (a.followLinks [] [id]).1 with
      | none => rfl
      | some dead => simp [capture_outcome, hwalk] at hok
    exact (mem_followLinks_of_linkReached hnone hreached).2
  · exact capture_ok

/-- An error of capturing names a dead record that the record leads to. -/
theorem exists_dead_of_capture_eq_error {err : RuntimeError}
    (herr : (a.capture id).1 = .error err) :
    ∃ dead, LinkReached a id dead ∧ a.isLive dead = false ∧ err = .deadRecord dead.index := by
  rw [capture_outcome] at herr
  cases hwalk : (a.followLinks [] [id]).1 with
  | none => simp [hwalk] at herr
  | some dead =>
      rw [hwalk] at herr
      obtain ⟨hnone, start, hstart, hreached⟩ := followLinks_eq_some hwalk
      obtain rfl := List.mem_singleton.1 hstart
      exact ⟨dead, hreached, by simp [isLive, hnone], (Except.error.inj herr).symm⟩

/-! ## Captured records -/

/-- Captured are the records that were captured before and those the record leads to. -/
theorem captured_capture_iff (hlive : ∀ other, LinkReached a id other → a.isLive other = true) :
    (a.capture id).2.Captured other ↔ a.Captured other ∨ LinkReached a id other := by
  unfold Captured
  rw [record?_capture hlive]
  split
  · rename_i hreached
    obtain ⟨record, hrecord⟩ := isLive_iff.1 (hlive other hreached)
    simp [hrecord, hreached, Record.pinned]
  · simp [*]

/-- A captured record is not released. -/
theorem Captured.release (hcaptured : a.Captured id) : a.release id = (.ok false, a) := by
  obtain ⟨record, hrecord, hyes⟩ := hcaptured
  rw [release_of_record? hrecord, if_pos hyes]

/-- **Capturing captures what a record leads to by links, and nothing else.**  It fails if some of
that is dead, with the error of such a record; otherwise it succeeds, whatever cycles the links
form.  The arena is then the one before with just these records captured, and no record that is
captured now is freed when it is released. -/
theorem capture_exact (a : ScopeArena) (id : RecordId) :
    ((a.capture id).1 = .ok () ↔ ∀ other, LinkReached a id other → a.isLive other = true) ∧
    (∀ err, (a.capture id).1 = .error err → ∃ dead, LinkReached a id dead ∧
      a.isLive dead = false ∧ err = .deadRecord dead.index) ∧
    ((∀ other, LinkReached a id other → a.isLive other = true) →
      (a.capture id).2 = a.pinnedAt (LinkReached a id) ∧
      (∀ other, (a.capture id).2.Captured other ↔ a.Captured other ∨ LinkReached a id other) ∧
      ∀ other, (a.capture id).2.Captured other →
        (a.capture id).2.release other = (.ok false, (a.capture id).2)) := by
  refine ⟨capture_eq_ok_iff, fun err herr => exists_dead_of_capture_eq_error herr,
    fun hlive => ⟨?_, fun other => captured_capture_iff hlive, fun other hother => hother.release⟩⟩
  calc (a.capture id).2 = (a.followLinks [] [id]).2.foldl pin a := capture_eq a id
    _ = a.pinnedAt (· ∈ (a.followLinks [] [id]).2) := pin_all_eq _ a
    _ = a.pinnedAt (LinkReached a id) := by simp only [mem_followLinks_iff hlive]

/-- Two scopes that link to each other, one of them also to the program, and a scope that links to
them. -/
def ring : ScopeArena :=
  let scope := Record.fresh "scope" .function
  { slots := #[⟨0, some (.fresh "main" .program), false⟩,
      ⟨0, some (scope.bind "other" (.link ⟨2, 1⟩)), false⟩,
      ⟨1, some ((scope.bind "other" (.link ⟨1, 0⟩)).bind "x" (.link ⟨0, 0⟩)), false⟩,
      ⟨0, some (scope.bind "other" (.link ⟨1, 0⟩)), false⟩]
    vacant := []
    allocated := 5
    reclaimed := 1 }

/-- Capturing one scope of the ring captures the other one and the program, but not the scope from
which the ring is seen. -/
theorem capture_ring :
    let after := (ring.capture ⟨1, 0⟩).2
    (∀ other, LinkReached ring ⟨1, 0⟩ other → ring.isLive other = true) ∧
    after.Captured ⟨0, 0⟩ ∧ after.Captured ⟨2, 1⟩ ∧ ¬ after.Captured ⟨3, 0⟩ ∧
    after.release ⟨2, 1⟩ = (.ok false, after) := by
  intro after
  obtain ⟨hsucceeds, -, hexact⟩ := capture_exact ring ⟨1, 0⟩
  have hlive := hsucceeds.1 (by decide +kernel)
  obtain ⟨-, hcaptured, hrelease⟩ := hexact hlive
  have hother : LinkReached ring ⟨1, 0⟩ ⟨2, 1⟩ := .link .self rfl (by decide +kernel)
  have hmain : LinkReached ring ⟨1, 0⟩ ⟨0, 0⟩ := .link hother rfl (by decide +kernel)
  have hseen : (after.record? ⟨3, 0⟩).map (·.captured) = some false := by decide +kernel
  refine ⟨hlive, (hcaptured _).2 (.inr hmain), (hcaptured _).2 (.inr hother), ?_,
    hrelease _ ((hcaptured _).2 (.inr hother))⟩
  rintro ⟨record, hrecord, hyes⟩
  simp [hrecord, hyes] at hseen

end ScopeArena

end ScriptCore
