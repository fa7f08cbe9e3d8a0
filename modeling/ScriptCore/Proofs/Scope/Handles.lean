import Mathlib.Algebra.Group.Nat.Defs
import ScriptCore.Proofs.Scope.Accounts

/-!
# A handle never comes to name another record

Slots are used again, but a handle also has the generation of its slot, and a slot moves on by one
generation whenever its record is freed.  So the generation of a slot is the number of times it was
freed, as long as that number is one of 32 bits, and a handle to a freed record is of an earlier
generation than its slot from then on.  This is what `Dated` says of all handles given out so far.

As long as a slot is not freed, its record changes only by what operations write to it
(`Operation.record?_perform`).  `resolves_until_freed` puts the two together.

The generation is a number of 32 bits.  A slot that is freed `2 ^ 32` times is back at its first
generation, and then an old handle would name the record that stands there; that no slot is freed
so often is the one condition of `resolves_until_freed`.
-/

namespace ScriptCore.ScopeArena

/-! ## What is written to a record -/

/-- What an operation writes to the record that a handle names. -/
def Operation.written (a : ScopeArena) (id : RecordId) (record : Record) : Operation → Record
  | update other change => if id = other then change record else record
  | define other name value => if id = other then record.bind name (.value value) else record
  | assign other name value =>
    if a.assigneeWithin name (a.slots.size + 1) other = some id then
      record.bind name (.value value)
    else record
  | appendRecords target other =>
    match a.record? other with
    | some scope => if id = target then withLinks record (linksInto other scope) else record
    | none => record
  | capture other => if id ∈ (a.followLinks [] [other]).2 then record.pinned else record
  | alloc _ | release _ | collect .. => record

/-- What becomes of the record that a handle names, as long as it is not freed. -/
def writtenAlong (a : ScopeArena) (id : RecordId) (record : Record) : List Operation → Record
  | [] => record
  | operation :: rest =>
    writtenAlong (operation.perform a) id (operation.written a id record) rest

/-! ## What a handle is good for -/

/-- Whatever is asked for through the handle is the record. -/
structure Resolves (a : ScopeArena) (id : RecordId) (record : Record) : Prop where
  get_eq : a.get id = .ok record
  isLive_eq : a.isLive id = true
  update_eq : ∀ change, (a.update id change).1 = .ok () ∧
    (a.update id change).2.get id = .ok (change record)

/-- Nothing can be done through the handle. -/
structure Dead (a : ScopeArena) (id : RecordId) : Prop where
  get_eq : a.get id = .error (.deadRecord id.index)
  isLive_eq : a.isLive id = false
  update_eq : ∀ change, a.update id change = (.error (.deadRecord id.index), a)

variable {a b : ScopeArena} {id : RecordId} {record : Record}
  {freed : List Nat} {given : List RecordId}

theorem resolves_of_record? (hrecord : a.record? id = some record) : a.Resolves id record := by
  refine ⟨get_of_record? hrecord, isLive_of_record? hrecord, fun change => ⟨?_, ?_⟩⟩
  · rw [update_of_record? hrecord]
  · exact get_of_record? (by simp [record?_update, hrecord])

theorem dead_of_record? (hnone : a.record? id = none) : a.Dead id := by
  have hget : a.get id = .error (.deadRecord id.index) := by simp [get, hnone]
  exact ⟨hget, by simp [isLive, hnone], fun change => by simp [update, hget]⟩

/-! ## A record that is not freed -/

/-- An operation that does not free a record does nothing to it but to write. -/
theorem Operation.record?_perform (hunmarked : a.Unmarked) (ha : a.Accounted)
    (hrecord : a.record? id = some record) {operation : Operation}
    (hkept : id.index ∉ operation.freed a) :
    (operation.perform a).record? id = some (operation.written a id record) := by
  cases operation with
  | alloc new =>
      have hne : id ≠ (a.alloc new).1 := by
        rintro rfl
        simp [record?_alloc_self ha.vacancies] at hrecord
      simp only [perform, written, record?_alloc ha.vacancies, hne, if_false, hrecord]
  | update other change =>
      simp only [perform, written, record?_update, hrecord]
      split <;> rfl
  | define other name value =>
      simp only [perform, written, ScopeArena.define, record?_update, hrecord]
      split <;> rfl
  | assign other name value =>
      simp only [perform, written, ScopeArena.assign, assignWithin_eq]
      cases howner : a.assigneeWithin name (a.slots.size + 1) other with
      | none => simpa using hrecord
      | some owner =>
          simp only [record?_update, hrecord, Option.some.injEq, eq_comm (a := owner)]
          split <;> rfl
  | appendRecords target other =>
      simp only [perform, written, appendRecords_eq]
      cases hother : a.record? other with
      | none => exact hrecord
      | some scope =>
          simp only [record?_update, hrecord]
          split <;> rfl
  | capture other =>
      simp only [perform, written, capture_eq, record?_pin_all, hrecord]
      split <;> rfl
  | release other =>
      simp only [perform, written]
      cases hother : a.record? other with
      | none => simpa [ScopeArena.release, get, hother] using hrecord
      | some scope =>
          rw [freed, release_of_record? hother] at hkept
          rw [release_of_record? hother]
          split_ifs at hkept ⊢ with hcaptured
          · exact hrecord
          · have hne : id ≠ other := by
              rintro rfl
              simp at hkept
            rw [record?_free hother, if_neg hne, hrecord]
  | collect heap scopes roots =>
      obtain ⟨unvisited, hmarking⟩ :=
        Collector.marking_mark (Collector.marking_start hunmarked heap scopes roots)
      obtain ⟨slot, hslot, hgeneration, hheld⟩ := hmarking.same.exists_slot hrecord
      -- A slot with a record that is not freed has a mark when marking is done.
      have hmark : slot.marked = true := by
        by_contra hmark
        exact hkept (mem_unreached_iff.2
          ⟨slot, hslot, by simp [Collector.isUnmarked, hheld, hmark]⟩)
      exact (Collector.record?_sweep_of_marked hmarking.same
        ⟨slot, hslot, hgeneration, hmark⟩).trans hrecord

/-- A record that is not freed on the way is, in the end, what was written to it. -/
theorem record?_run (hoccurs : a.Occurs) (ha : a.Accounted) (hrecord : a.record? id = some record)
    {operations : List Operation} (hkept : id.index ∉ along Operation.freed a operations) :
    (a.run operations).record? id = some (writtenAlong a id record operations) := by
  induction operations generalizing a record with
  | nil => exact hrecord
  | cons operation rest ih =>
      rw [along, List.mem_append, not_or] at hkept
      exact ih (hoccurs.perform operation) (ha.perform hoccurs.unmarked operation)
        (Operation.record?_perform hoccurs.unmarked ha hrecord hkept.1) hkept.2

/-! ## The generation of a slot -/

/-- After so many records were freed and handles given out: no handle was given out twice, the
generation of a slot is the number of times it was freed, and a handle either names the record
that is in its slot or is of an earlier generation than the slot. -/
structure Dated (a : ScopeArena) (freed : List Nat) (given : List RecordId) : Prop where
  nodup : given.Nodup
  generation_eq : ∀ index generation full, a.stateAt index = some (generation, full) →
    generation.toNat = freed.count index
  made : ∀ index ∈ freed, a.stateAt index ≠ none
  given_before : ∀ id ∈ given, ∃ generation full, a.stateAt id.index = some (generation, full) ∧
    (id.generation < generation ∨ id.generation = generation ∧ full = true)

theorem dated_empty : Dated empty [] [] :=
  ⟨.nil, by simp [stateAt, empty], by simp, by simp⟩

theorem Dated.alloc (ha : a.Accounted) (hdated : Dated a freed given) (new : Record) :
    Dated (a.alloc new).2 freed (given ++ [(a.alloc new).1]) := by
  have hgiven := ha.stateAt_given new
  refine ⟨?_, fun index generation full hstate => ?_, fun index hindex => ?_, fun id hid => ?_⟩
  · -- The new handle is none of the earlier ones: those are of a generation that has passed, or
    -- stand in a slot that is occupied.
    rw [List.nodup_append]
    refine ⟨hdated.nodup, List.nodup_singleton _, ?_⟩
    rintro id hid _ hnew rfl
    rw [List.mem_singleton] at hnew
    obtain ⟨generation, full, hstate, hbefore⟩ := hdated.given_before id hid
    subst hnew
    rw [hstate] at hgiven
    rcases hgiven with hvacant | ⟨hnone, -⟩
    · obtain ⟨rfl, rfl⟩ : generation = _ ∧ full = false := by simpa using hvacant
      simp at hbefore
    · simp at hnone
  · rw [ha.stateAt_alloc] at hstate
    split_ifs at hstate with hnew
    · obtain ⟨rfl, rfl⟩ : _ = generation ∧ true = full := by simpa using hstate
      subst hnew
      rcases hgiven with hvacant | ⟨hnone, hzero⟩
      · exact hdated.generation_eq _ _ _ hvacant
      · have hnever : (a.alloc new).1.index ∉ freed := fun hfreed => hdated.made _ hfreed hnone
        rw [hzero, List.count_eq_zero_of_not_mem hnever]
        rfl
    · exact hdated.generation_eq _ _ _ hstate
  · rw [ha.stateAt_alloc]
    split_ifs
    · simp
    · exact hdated.made index hindex
  · rw [ha.stateAt_alloc]
    rcases List.mem_append.1 hid with hbefore | hnew
    · obtain ⟨generation, full, hstate, hlt⟩ := hdated.given_before id hbefore
      split_ifs with hindex
      · rw [hindex] at hstate
        rw [hstate] at hgiven
        rcases hgiven with hvacant | ⟨hnone, -⟩
        · obtain ⟨rfl, rfl⟩ : generation = _ ∧ full = false := by simpa using hvacant
          exact ⟨_, _, rfl, .inl (by simpa using hlt)⟩
        · simp at hnone
      · exact ⟨generation, full, hstate, hlt⟩
    · rw [List.mem_singleton] at hnew
      subst hnew
      exact ⟨_, _, if_pos rfl, .inr ⟨rfl, rfl⟩⟩

theorem Dated.frees {more : List Nat} (hdated : Dated a freed given) (hfrees : Frees a b more)
    (hfew : ∀ index, (freed ++ more).count index < 2 ^ 32) : Dated b (freed ++ more) given := by
  -- A slot that is freed goes on by one generation, and is not yet at the last.
  have hnext : ∀ index ∈ more, ∀ generation full, a.stateAt index = some (generation, full) →
      (generation + 1).toNat = generation.toNat + 1 ∧
        generation.toNat + 1 = (freed ++ more).count index := by
    intro index hindex generation full hstate
    have hcount : (freed ++ more).count index = generation.toNat + 1 := by
      rw [List.count_append, List.count_eq_one_of_mem hfrees.nodup hindex,
        hdated.generation_eq index generation full hstate]
    have hlt := hfew index
    rw [hcount] at hlt
    refine ⟨?_, hcount.symm⟩
    rw [UInt32.toNat_add]
    exact Nat.mod_eq_of_lt hlt
  refine ⟨hdated.nodup, fun index generation full hstate => ?_, fun index hindex => ?_,
    fun id hid => ?_⟩
  · rw [hfrees.stateAt_eq, Option.map_eq_some_iff] at hstate
    obtain ⟨⟨before, wasFull⟩, hbefore, heq⟩ := hstate
    split_ifs at heq with hindex
    · obtain ⟨hsucc, hcount⟩ := hnext index hindex before wasFull hbefore
      obtain ⟨rfl, -⟩ : before + 1 = generation ∧ _ := Prod.mk.inj heq
      rw [hsucc, hcount]
    · obtain ⟨rfl, -⟩ : before = generation ∧ _ := Prod.mk.inj heq
      rw [List.count_append, List.count_eq_zero_of_not_mem hindex, Nat.add_zero]
      exact hdated.generation_eq index before wasFull hbefore
  · rw [hfrees.stateAt_eq, ne_eq, Option.map_eq_none_iff]
    rcases List.mem_append.1 hindex with hbefore | hnow
    · exact hdated.made index hbefore
    · obtain ⟨generation, hfull⟩ := mem_occupied_iff.1 (hfrees.occupied index hnow)
      simp [hfull]
  · obtain ⟨generation, full, hstate, hle⟩ := hdated.given_before id hid
    rw [hfrees.stateAt_eq, hstate, Option.map_some]
    split_ifs with hindex
    · obtain ⟨hsucc, -⟩ := hnext id.index hindex generation full hstate
      have hearlier : id.generation < generation + 1 := by
        rw [UInt32.lt_iff_toNat_lt, hsucc]
        rcases hle with hlt | ⟨rfl, -⟩
        · exact Nat.lt_succ_of_lt (UInt32.lt_iff_toNat_lt.1 hlt)
        · exact Nat.lt_succ_self _
      exact ⟨_, _, rfl, .inl hearlier⟩
    · exact ⟨_, _, rfl, hle⟩

/-- What is said of the slots and handles is kept by any operations. -/
theorem Dated.run (hoccurs : a.Occurs) (ha : a.Accounted) (hdated : Dated a freed given)
    {operations : List Operation}
    (hfew : ∀ index, (freed ++ along Operation.freed a operations).count index < 2 ^ 32) :
    Dated (a.run operations) (freed ++ along Operation.freed a operations)
      (given ++ along Operation.given a operations) := by
  induction operations generalizing a freed given with
  | nil => simpa [along, ScopeArena.run] using hdated
  | cons operation rest ih =>
      simp only [along, ← List.append_assoc] at hfew ⊢
      refine ih (hoccurs.perform operation) (ha.perform hoccurs.unmarked operation) ?_ hfew
      rcases operation.perform_cases hoccurs.unmarked with ⟨new, rfl⟩ | ⟨hnone, hfrees⟩
      · have hnone : Operation.freed a (.alloc new) = [] := rfl
        rw [hnone, List.append_nil]
        exact hdated.alloc ha new
      · rw [hnone, List.append_nil]
        refine hdated.frees hfrees fun index => ?_
        have hcount := hfew index
        rw [List.count_append] at hcount
        omega

/-! ## The main statement -/

theorem occurs_run (hoccurs : a.Occurs) (operations : List Operation) :
    (a.run operations).Occurs := by
  induction operations generalizing a with
  | nil => exact hoccurs
  | cons operation rest ih => exact ih (hoccurs.perform operation)

theorem Accounted.run (hoccurs : a.Occurs) (ha : a.Accounted) (operations : List Operation) :
    (a.run operations).Accounted := by
  induction operations generalizing a with
  | nil => exact ha
  | cons operation rest ih =>
      exact ih (hoccurs.perform operation) (ha.perform hoccurs.unmarked operation)

/-- The handle to a record whose slot was freed since is dead. -/
theorem Dated.record?_eq_none {more : List Nat} {given' : List RecordId}
    (hbefore : Dated a freed given) (hrecord : a.record? id = some record)
    (hafter : Dated b (freed ++ more) given') (hgiven : id ∈ given') (hfreed : id.index ∈ more) :
    b.record? id = none := by
  have hthen : id.generation.toNat = freed.count id.index :=
    hbefore.generation_eq _ _ _ (isLive_iff_stateAt.1 (isLive_of_record? hrecord))
  obtain ⟨generation, full, hstate, -⟩ := hafter.given_before id hgiven
  have hnow := hafter.generation_eq _ _ _ hstate
  have hmore : 0 < more.count id.index := List.count_pos_iff.2 hfreed
  rw [List.count_append] at hnow
  by_contra hlive
  have hstate' := isLive_iff_stateAt.1 (Option.isSome_iff_ne_none.2 hlive)
  rw [hstate] at hstate'
  obtain ⟨rfl, -⟩ : generation = id.generation ∧ _ := by simpa using hstate'
  omega

/-- Whatever is done with an arena, as long as no slot is freed 2^32 times: no handle is given out
twice, and each is to one of the slots; a handle stands for the record that was stored under it,
with what was written to it, until that record is freed, and for nothing ever after.  The accounts
are right after each operation. -/
theorem resolves_until_freed (operations : List Operation)
    (hfew : ∀ index, (along Operation.freed empty operations).count index < 2 ^ 32) :
    (along Operation.given empty operations).Nodup ∧
    (∀ id ∈ along Operation.given empty operations,
      id.index < (empty.run operations).slots.size) ∧
    (∀ before record after, operations = before ++ .alloc record :: after →
      let made := (empty.run before).alloc record
      if made.1.index ∈ along Operation.freed made.2 after then
        (empty.run operations).Dead made.1
      else (empty.run operations).Resolves made.1 (writtenAlong made.2 made.1 record after)) ∧
    (empty.run operations).Accounted := by
  have hdated : Dated (empty.run operations) (along Operation.freed empty operations)
      (along Operation.given empty operations) := by
    simpa using dated_empty.run .empty accounted_empty (by simpa using hfew)
  refine ⟨hdated.nodup, fun id hid => ?_, ?_, accounted_empty.run .empty operations⟩
  · obtain ⟨generation, full, hstate, -⟩ := hdated.given_before id hid
    by_contra hbeyond
    rw [stateAt_eq_none_iff.2 (Nat.le_of_not_lt hbeyond)] at hstate
    simp at hstate
  · rintro before record after rfl
    intro made
    have hoccurs : (empty.run before).Occurs := occurs_run .empty before
    have haccounted : (empty.run before).Accounted := accounted_empty.run .empty before
    have hrun : empty.run (before ++ .alloc record :: after) = made.2.run after := run_append ..
    have hrecord : made.2.record? made.1 = some record := by
      rw [record?_alloc haccounted.vacancies, if_pos rfl]
    split_ifs with hfreed
    · have hfreedAlong : along Operation.freed empty (before ++ .alloc record :: after) =
          along Operation.freed empty before ++ along Operation.freed made.2 after :=
        along_append ..
      have hgiven : made.1 ∈ along Operation.given empty (before ++ .alloc record :: after) := by
        rw [along_append]
        exact List.mem_append_right _ List.mem_cons_self
      -- What is freed afterwards counts among what is freed in all, so the bound holds up to here
      -- too.
      rw [hfreedAlong] at hfew hdated
      have hbefore : Dated (empty.run before) (along Operation.freed empty before)
          (along Operation.given empty before) := by
        refine dated_empty.run .empty accounted_empty fun index => ?_
        have hcount := hfew index
        rw [List.count_append] at hcount
        rw [List.nil_append]
        omega
      exact dead_of_record?
        ((hbefore.alloc haccounted record).record?_eq_none hrecord hdated hgiven hfreed)
    · rw [hrun]
      exact resolves_of_record?
        (record?_run (hoccurs.alloc record) (haccounted.alloc record) hrecord hfreed)

/-- Two scopes that stand in one slot, one after the other: the first is released, the second is
captured and goes by a collection. -/
def comings : List Operation :=
  [.alloc (.fresh "main" .program), .alloc (.fresh "first" .function), .release ⟨1, 0⟩,
    .alloc (.fresh "second" .function), .capture ⟨1, 1⟩, .release ⟨1, 1⟩,
    .collect .empty [⟨0, 0⟩] []]

/-- The handles to the three records of one slot are told apart. -/
theorem resolves_third :
    let operations := comings ++ [.alloc (.fresh "third" .function), .define ⟨1, 2⟩ "x" .null]
    (∀ index, (along Operation.freed empty operations).count index < 2 ^ 32) ∧
    along Operation.given empty operations = [⟨0, 0⟩, ⟨1, 0⟩, ⟨1, 1⟩, ⟨1, 2⟩] ∧
    (empty.run operations).Dead ⟨1, 0⟩ ∧ (empty.run operations).Dead ⟨1, 1⟩ ∧
    (empty.run operations).Resolves ⟨1, 2⟩
      ((Record.fresh "third" .function).bind "x" (.value .null)) := by
  intro operations
  have hfreed : along Operation.freed empty operations = [1, 1] := by decide +kernel
  have hfew : ∀ index, (along Operation.freed empty operations).count index < 2 ^ 32 := by
    intro index
    rw [hfreed]
    exact List.count_le_length.trans_lt (by decide)
  obtain ⟨-, -, hresolves, -⟩ := resolves_until_freed operations hfew
  refine ⟨hfew, by decide +kernel, ?_, ?_, ?_⟩
  · have hfirst := hresolves (comings.take 1) (.fresh "first" .function)
      (operations.drop 2) rfl
    rw [if_pos (by decide +kernel)] at hfirst
    exact hfirst
  · have hsecond := hresolves (comings.take 3) (.fresh "second" .function)
      (operations.drop 4) rfl
    rw [if_pos (by decide +kernel)] at hsecond
    exact hsecond
  · have hthird := hresolves comings (.fresh "third" .function) [.define ⟨1, 2⟩ "x" .null] rfl
    have hhandle : ((empty.run comings).alloc (.fresh "third" .function)).1 = ⟨1, 2⟩ := by
      decide +kernel
    rw [if_neg (by decide +kernel), hhandle] at hthird
    simpa [writtenAlong, Operation.written] using hthird

end ScriptCore.ScopeArena
