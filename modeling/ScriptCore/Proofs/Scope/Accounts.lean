import Mathlib.Data.Finset.Card
import Mathlib.Data.List.Count
import ScriptCore.Proofs.Scope.Arena
import ScriptCore.Proofs.Scope.Collection

/-!
# The accounts of an arena

An arena is followed here from the one without records through any operations, which are data
(`Operation`).  Except for making a record, all that an operation does to the slots is to free some
of them; the two ways of freeing, at once and by a collection, are the same in this
(`Operation.perform_cases`).

So three statements are enough for every operation: what freeing does to a slot is what `Frees`
says, what making a record does is `Accounted.stateAt_alloc`, and both keep the accounts
(`Accounted`): each vacant slot is listed once, and every record that was made was freed or is live.

Between operations no slot is marked (`Unmarked`), so what counts of a slot is its generation and
whether a record stands in it, `stateAt`.  The occupied slots are counted as a finite set of
numbers: freeing takes away as many as it frees, and making a record adds one.
-/

namespace ScriptCore.ScopeArena

/-! ## Operations -/

/-- What is done with an arena.  `update` stands for whatever is done to a live record through its
handle. -/
inductive Operation
  | alloc (record : Record)
  | update (id : RecordId) (change : Record → Record)
  | define (id : RecordId) (name : String) (value : Value)
  | assign (id : RecordId) (name : String) (value : Value)
  | appendRecords (target other : RecordId)
  | capture (id : RecordId)
  | release (id : RecordId)
  | collect (heap : Heap) (scopes : List RecordId) (roots : List Value)

namespace Operation

/-- Carries out an operation. -/
def perform (a : ScopeArena) : Operation → ScopeArena
  | alloc record => (a.alloc record).2
  | update id change => (a.update id change).2
  | define id name value => (a.define id name value).2
  | assign id name value => (a.assign id name value).2
  | appendRecords target other => (a.appendRecords target other).2
  | capture id => (a.capture id).2
  | release id => (a.release id).2
  | collect heap scopes roots => (a.collect heap scopes roots).2

/-- The handles that an operation gives out. -/
def given (a : ScopeArena) : Operation → List RecordId
  | alloc record => [(a.alloc record).1]
  | _ => []

/-- The slots whose records an operation frees. -/
def freed (a : ScopeArena) : Operation → List Nat
  | release id =>
    match (a.release id).1 with
    | .ok true => [id.index]
    | _ => []
  | collect heap scopes roots => Collector.unreached (a.markedSlots heap scopes roots)
  | _ => []

end Operation

/-- Carries out operations one after the other. -/
def run (a : ScopeArena) : List Operation → ScopeArena
  | [] => a
  | operation :: rest => run (operation.perform a) rest

/-- What operations yield that are carried out one after the other. -/
def along {β : Type} (yield : ScopeArena → Operation → List β) (a : ScopeArena) :
    List Operation → List β
  | [] => []
  | operation :: rest => yield a operation ++ along yield (operation.perform a) rest

/-- The record in which an assignment binds a name: the first one on the way along the links that
does not link the name, unless a locked or a dead record comes before. -/
def assigneeWithin (a : ScopeArena) (name : String) : Nat → RecordId → Option RecordId
  | 0, _ => none
  | steps + 1, id =>
    match a.record? id with
    | none => none
    | some record =>
      if record.locked then none
      else
        match record.member? name with
        | some (.link owner) => a.assigneeWithin name steps owner
        | _ => some id

/-! ## What can be said of an arena -/

/-- The vacant slots are listed once each, and the records that were made are those that were freed
and those that are live. -/
structure Accounted (a : ScopeArena) : Prop where
  nodup : a.vacant.Nodup
  mem_vacant_iff : ∀ index, index ∈ a.vacant ↔
    ∃ slot, a.slots[index]? = some slot ∧ slot.record = none
  allocated_eq : a.allocated = a.reclaimed + a.liveCount

variable {a b : ScopeArena} {id : RecordId} {record : Record}

/-! ## Runs -/

theorem run_append (a : ScopeArena) (first second : List Operation) :
    a.run (first ++ second) = (a.run first).run second := by
  induction first generalizing a with
  | nil => rfl
  | cons operation rest ih => exact ih (operation.perform a)

theorem along_append {β : Type} (yield : ScopeArena → Operation → List β) (a : ScopeArena)
    (first second : List Operation) :
    along yield a (first ++ second) = along yield a first ++ along yield (a.run first) second := by
  induction first generalizing a with
  | nil => rfl
  | cons operation rest ih =>
      simp only [List.cons_append, along, run, ih, List.append_assoc]

/-! ## Slots, seen from outside -/

/-- The generation of a slot, and whether there is a record in it. -/
def stateAt (a : ScopeArena) (index : Nat) : Option (UInt32 × Bool) :=
  (a.slots[index]?).map fun slot => (slot.generation, slot.record.isSome)

theorem isLive_iff_stateAt :
    a.isLive id = true ↔ a.stateAt id.index = some (id.generation, true) := by
  rw [isLive_iff]
  simp only [record?_eq_some_iff, stateAt, Option.map_eq_some_iff, Prod.mk.injEq,
    Option.isSome_iff_exists]
  constructor
  · rintro ⟨record, slot, hslot, hgeneration, hrecord⟩
    exact ⟨slot, hslot, hgeneration, record, hrecord⟩
  · rintro ⟨slot, hslot, hgeneration, record, hrecord⟩
    exact ⟨record, slot, hslot, hgeneration, hrecord⟩

theorem stateAt_vacant_iff {index : Nat} :
    (∃ generation, a.stateAt index = some (generation, false)) ↔
      ∃ slot, a.slots[index]? = some slot ∧ slot.record = none := by
  simp [stateAt, Option.map_eq_some_iff]

theorem stateAt_eq_none_iff {index : Nat} : a.stateAt index = none ↔ a.slots.size ≤ index := by
  simp [stateAt]

/-- The slots in which there is a record. -/
def occupied (a : ScopeArena) : Finset Nat :=
  (Finset.range a.slots.size).filter fun index => (a.stateAt index).any (·.2)

theorem mem_occupied_iff {index : Nat} :
    index ∈ a.occupied ↔ ∃ generation, a.stateAt index = some (generation, true) := by
  have hrange : index < a.slots.size ↔ a.stateAt index ≠ none := by
    rw [ne_eq, stateAt_eq_none_iff, Nat.not_le]
  rw [occupied, Finset.mem_filter, Finset.mem_range, hrange]
  cases a.stateAt index with
  | none => simp
  | some state => obtain ⟨generation, full⟩ := state; simp

theorem liveCount_eq_card (a : ScopeArena) : a.liveCount = a.occupied.card := by
  have hslots : a.slots.toList = (List.range a.slots.size).map fun index =>
      a.slots.getD index default := by
    apply List.ext_getElem
    · simp
    · intro index hindex _
      simp only [Array.length_toList] at hindex
      simp [hindex]
  have hcard : a.occupied.card = (List.range a.slots.size).countP fun index =>
      decide ((a.stateAt index).any (·.2) = true) := by
    rw [List.countP_eq_length_filter]
    rfl
  rw [hcard, liveCount, ← Array.countP_toList, hslots, List.countP_map]
  refine List.countP_congr fun index hindex => ?_
  have hlt : index < a.slots.size := List.mem_range.1 hindex
  simp [stateAt, hlt]

/-! ## Freeing, in either way -/

/-- All that was done to the slots is that some of them were freed. -/
structure Frees (a b : ScopeArena) (freed : List Nat) : Prop where
  nodup : freed.Nodup
  occupied : ∀ index ∈ freed, index ∈ a.occupied
  stateAt_eq : ∀ index, b.stateAt index = (a.stateAt index).map fun state =>
    if index ∈ freed then (state.1 + 1, false) else state
  vacant_eq : b.vacant = freed.reverse ++ a.vacant
  allocated_eq : b.allocated = a.allocated
  reclaimed_eq : b.reclaimed = a.reclaimed + freed.length

theorem Frees.refl (a : ScopeArena) : Frees a a [] :=
  ⟨.nil, by simp, by simp, rfl, rfl, rfl⟩

theorem Frees.trans {c : ScopeArena} (hab : Frees a b []) (hbc : Frees b c []) : Frees a c [] where
  nodup := .nil
  occupied := by simp
  stateAt_eq index := by rw [hbc.stateAt_eq, hab.stateAt_eq]; simp
  vacant_eq := by rw [hbc.vacant_eq, hab.vacant_eq]; rfl
  allocated_eq := hbc.allocated_eq.trans hab.allocated_eq
  reclaimed_eq := hbc.reclaimed_eq.trans hab.reclaimed_eq

/-- Changing a record frees nothing. -/
theorem frees_update (a : ScopeArena) (id : RecordId) (change : Record → Record) :
    Frees a (a.update id change).2 [] := by
  cases hrecord : a.record? id with
  | none =>
      simp only [update, get, hrecord]
      exact .refl a
  | some record =>
      rw [update_of_record? hrecord]
      refine ⟨.nil, by simp, fun index => ?_, rfl, rfl, rfl⟩
      obtain ⟨slot, hslot, -, hheld⟩ := record?_eq_some_iff.1 hrecord
      by_cases hindex : id.index = index
      · subst hindex
        simp [stateAt, put, Array.getElem?_modify, hslot, hheld]
      · simp [stateAt, put, Array.getElem?_modify, hindex, Function.comp_def]

theorem frees_pin_all (ids : List RecordId) (a : ScopeArena) : Frees a (ids.foldl pin a) [] := by
  induction ids generalizing a with
  | nil => exact .refl a
  | cons id rest ih => exact (frees_update a id _).trans (ih (a.pin id))

/-- An assignment changes one record, or none. -/
theorem assignWithin_eq (a : ScopeArena) (name : String) (value : Value) (steps : Nat)
    (id : RecordId) :
    (a.assignWithin name value steps id).2 =
      match a.assigneeWithin name steps id with
      | some owner => (a.update owner (·.bind name (.value value))).2
      | none => a := by
  fun_induction a.assigneeWithin name steps id with
  | case1 => rfl
  | case2 id steps hrecord => simp [assignWithin, get, hrecord]
  | case3 id steps record hrecord hlocked => simp [assignWithin, get, hrecord, hlocked]
  | case4 id steps record hrecord hlocked owner hlink ih =>
      simpa [assignWithin, get, hrecord, hlocked, hlink] using ih
  | case5 id steps record hrecord hlocked hlink =>
      simp only [assignWithin, get, hrecord, hlocked, Bool.false_eq_true, if_false,
        update_of_record? hrecord]

/-- An assignment binds its name in a record that is not locked. -/
theorem unlocked_of_assigneeWithin {name : String} {steps : Nat} {first : RecordId}
    (howner : a.assigneeWithin name steps first = some id) (hrecord : a.record? id = some record) :
    record.locked = false := by
  fun_induction a.assigneeWithin name steps first with
  | case1 | case2 | case3 => nomatch howner
  | case4 first steps other hother hlocked next hlink ih => exact ih howner
  | case5 first steps other hother hlocked hlink =>
      obtain rfl := Option.some.inj howner
      obtain rfl : record = other := Option.some.inj (hrecord.symm.trans hother)
      simpa using hlocked

theorem appendRecords_eq (a : ScopeArena) (target other : RecordId) :
    (a.appendRecords target other).2 =
      match a.record? other with
      | some scope => (a.update target fun record => withLinks record (linksInto other scope)).2
      | none => a := by
  unfold appendRecords get
  cases a.record? other <;> rfl

theorem frees_release (a : ScopeArena) (id : RecordId) :
    Frees a (a.release id).2 ((Operation.release id).freed a) := by
  simp only [Operation.freed]
  cases hrecord : a.record? id with
  | none =>
      simp only [release, get, hrecord]
      exact .refl a
  | some record =>
      rw [release_of_record? hrecord]
      split_ifs
      · exact .refl a
      · obtain ⟨slot, hslot, -, hheld⟩ := record?_eq_some_iff.1 hrecord
        rw [free_of_record? hrecord]
        refine ⟨by simp, ?_, fun index => ?_, rfl, rfl, rfl⟩
        · simp [mem_occupied_iff, stateAt, hslot, hheld]
        · by_cases hindex : id.index = index
          · subst hindex
            simp [stateAt, Array.getElem?_modify, hslot, vacated]
          · simp [stateAt, Array.getElem?_modify, hindex, Ne.symm hindex, Function.comp_def]

theorem mem_unreached_iff {slots : Array Slot} {index : Nat} :
    index ∈ Collector.unreached slots ↔
      ∃ slot, slots[index]? = some slot ∧ Collector.isUnmarked slot = true := by
  rw [Collector.unreached, List.mem_filter, List.mem_range]
  constructor
  · rintro ⟨hlt, hunmarked⟩
    exact ⟨_, Array.getElem?_eq_getElem hlt, by simpa [hlt] using hunmarked⟩
  · rintro ⟨slot, hslot, hunmarked⟩
    obtain ⟨hlt, rfl⟩ := Array.getElem?_eq_some_iff.1 hslot
    exact ⟨hlt, by simpa [hlt] using hunmarked⟩

theorem frees_sweep {slots : Array Slot} (hsame : Collector.SameRecords a slots) :
    Frees a (Collector.sweep { a with slots }).2 (Collector.unreached slots) := by
  -- Marking sets marks and changes nothing else, so the states can be read off either row of slots.
  have hstate : ∀ index, a.stateAt index =
      (slots[index]?).map fun slot => (slot.generation, slot.record.isSome) := by
    intro index
    have hcontent := congrArg (Option.map fun entry : UInt32 × Option Record =>
      (entry.1, entry.2.isSome)) (hsame index)
    simpa [Collector.content, stateAt, Function.comp_def] using hcontent.symm
  refine ⟨List.nodup_range.filter _, fun index hindex => ?_, fun index => ?_, rfl, rfl, rfl⟩
  · obtain ⟨slot, hslot, hunmarked⟩ := mem_unreached_iff.1 hindex
    have hfull : slot.record.isSome = true := by
      simp only [Collector.isUnmarked, Bool.and_eq_true] at hunmarked
      exact hunmarked.1
    exact mem_occupied_iff.2 ⟨slot.generation, by simp [hstate, hslot, hfull]⟩
  · rw [hstate]
    cases hslot : slots[index]? with
    | none => simp [stateAt, Collector.sweep, hslot]
    | some slot =>
        have hmem : index ∈ Collector.unreached slots ↔ Collector.isUnmarked slot = true := by
          simp [mem_unreached_iff, hslot]
        simp only [stateAt, Collector.sweep, Array.getElem?_map, hslot, Option.map_some, hmem]
        split_ifs with hunmarked <;> simp [Collector.sweepSlot, hunmarked, vacated]

/-- An operation makes a record, or does nothing to the slots but to free some. -/
theorem Operation.perform_cases (ha : a.Unmarked) (operation : Operation) :
    (∃ record, operation = .alloc record) ∨
      operation.given a = [] ∧ Frees a (operation.perform a) (operation.freed a) := by
  cases operation with
  | alloc record => exact .inl ⟨record, rfl⟩
  | update id change => exact .inr ⟨rfl, frees_update a id change⟩
  | define id name value => exact .inr ⟨rfl, frees_update a id _⟩
  | assign id name value =>
      refine .inr ⟨rfl, ?_⟩
      simp only [perform, freed, ScopeArena.assign, assignWithin_eq]
      split
      · exact frees_update a _ _
      · exact .refl a
  | appendRecords target other =>
      refine .inr ⟨rfl, ?_⟩
      simp only [perform, freed, appendRecords_eq]
      split
      · exact frees_update a target _
      · exact .refl a
  | capture id =>
      refine .inr ⟨rfl, ?_⟩
      simp only [perform, freed, capture_eq]
      exact frees_pin_all _ a
  | release id => exact .inr ⟨rfl, frees_release a id⟩
  | collect heap scopes roots =>
      obtain ⟨unvisited, hmarking⟩ :=
        Collector.marking_mark (Collector.marking_start ha heap scopes roots)
      exact .inr ⟨rfl, frees_sweep hmarking.same⟩

/-! ## Accounts -/

theorem accounted_empty : empty.Accounted :=
  ⟨.nil, by simp [empty], rfl⟩

theorem Accounted.vacancies (ha : a.Accounted) : a.Vacancies :=
  ⟨ha.nodup, fun index => (ha.mem_vacant_iff index).1⟩

theorem Frees.occupied_eq {freed : List Nat} (hfrees : Frees a b freed) :
    b.occupied = a.occupied \ freed.toFinset := by
  ext index
  rw [Finset.mem_sdiff, mem_occupied_iff, mem_occupied_iff, hfrees.stateAt_eq, List.mem_toFinset]
  by_cases hindex : index ∈ freed <;> simp [hindex]

theorem Accounted.frees {freed : List Nat} (ha : a.Accounted) (hfrees : Frees a b freed) :
    b.Accounted where
  nodup := by
    rw [hfrees.vacant_eq, List.nodup_append]
    refine ⟨List.nodup_reverse.2 hfrees.nodup, ha.nodup, ?_⟩
    rintro index hfreed _ hvacant rfl
    obtain ⟨generation, hfull⟩ :=
      mem_occupied_iff.1 (hfrees.occupied index (List.mem_reverse.1 hfreed))
    obtain ⟨generation', hempty⟩ :=
      stateAt_vacant_iff.2 ((ha.mem_vacant_iff index).1 hvacant)
    simp [hfull] at hempty
  mem_vacant_iff index := by
    rw [← stateAt_vacant_iff, hfrees.vacant_eq, List.mem_append, List.mem_reverse,
      ha.mem_vacant_iff, ← stateAt_vacant_iff, hfrees.stateAt_eq]
    by_cases hindex : index ∈ freed
    · obtain ⟨generation, hfull⟩ := mem_occupied_iff.1 (hfrees.occupied index hindex)
      simp [hindex, hfull]
    · simp [hindex]
  allocated_eq := by
    -- All that is freed was occupied and nothing is freed twice, so the freed slots are counted
    -- off.
    have hsubset : freed.toFinset ⊆ a.occupied := fun index hindex =>
      hfrees.occupied index (List.mem_toFinset.1 hindex)
    have hcard := Finset.card_sdiff_add_card_eq_card hsubset
    rw [List.toFinset_card_of_nodup hfrees.nodup, ← hfrees.occupied_eq, ← liveCount_eq_card,
      ← liveCount_eq_card] at hcard
    rw [hfrees.allocated_eq, hfrees.reclaimed_eq, ha.allocated_eq]
    omega

/-! ## Making a record -/

/-- A new handle is to a vacant slot in its generation, or to one slot more. -/
theorem Accounted.stateAt_given (ha : a.Accounted) (record : Record) :
    a.stateAt (a.alloc record).1.index = some ((a.alloc record).1.generation, false) ∨
    a.stateAt (a.alloc record).1.index = none ∧ (a.alloc record).1.generation = 0 := by
  cases hvacant : a.vacant with
  | nil => exact .inr (by simp [alloc, hvacant, stateAt])
  | cons index rest =>
      obtain ⟨slot, hslot, hnone⟩ := (ha.mem_vacant_iff index).1 (by simp [hvacant])
      left
      simp [alloc, hvacant, handleAt, stateAt, hslot, hnone]

theorem Accounted.stateAt_alloc (ha : a.Accounted) (record : Record) (index : Nat) :
    (a.alloc record).2.stateAt index =
      if index = (a.alloc record).1.index then some ((a.alloc record).1.generation, true)
      else a.stateAt index := by
  cases hvacant : a.vacant with
  | nil =>
      simp only [alloc, hvacant, stateAt, Array.getElem?_push]
      split_ifs <;> rfl
  | cons first rest =>
      obtain ⟨slot, hslot, hnone⟩ := (ha.mem_vacant_iff first).1 (by simp [hvacant])
      by_cases hindex : first = index
      · subst hindex
        simp [alloc, hvacant, stateAt, handleAt, Array.getElem?_modify, hslot]
      · simp [alloc, hvacant, stateAt, handleAt, Array.getElem?_modify, hindex, Ne.symm hindex]

theorem Accounted.mem_vacant_alloc_iff (ha : a.Accounted) (record : Record) (index : Nat) :
    index ∈ (a.alloc record).2.vacant ↔
      index ≠ (a.alloc record).1.index ∧ index ∈ a.vacant := by
  have hnodup := ha.nodup
  cases hvacant : a.vacant with
  | nil => simp [ScopeArena.alloc, hvacant]
  | cons first rest =>
      rw [hvacant, List.nodup_cons] at hnodup
      simp only [ScopeArena.alloc, hvacant, handleAt, List.mem_cons]
      constructor
      · intro hrest
        refine ⟨?_, .inr hrest⟩
        rintro rfl
        exact hnodup.1 hrest
      · rintro ⟨hne, heq | hrest⟩
        · exact absurd heq hne
        · exact hrest

theorem Accounted.alloc (ha : a.Accounted) (record : Record) : (a.alloc record).2.Accounted := by
  have hgiven := ha.stateAt_given record
  -- The slot that is given is vacant, or is a new one beyond the others.
  have hnew : (a.alloc record).1.index ∉ a.occupied := by
    rw [mem_occupied_iff]
    rintro ⟨generation, hfull⟩
    rcases hgiven with hvacant | ⟨hnone, -⟩ <;> simp_all
  have hoccupied : (a.alloc record).2.occupied = insert (a.alloc record).1.index a.occupied := by
    ext index
    rw [Finset.mem_insert, mem_occupied_iff, mem_occupied_iff, ha.stateAt_alloc]
    split_ifs with hindex <;> simp [hindex]
  have hlive : (a.alloc record).2.liveCount = a.liveCount + 1 := by
    rw [liveCount_eq_card, liveCount_eq_card, hoccupied, Finset.card_insert_of_notMem hnew]
  have hcounts : (a.alloc record).2.allocated = a.allocated + 1 ∧
      (a.alloc record).2.reclaimed = a.reclaimed := by
    unfold ScopeArena.alloc
    split <;> exact ⟨rfl, rfl⟩
  refine ⟨(ha.vacancies.alloc record).nodup, fun index => ?_, ?_⟩
  · rw [← stateAt_vacant_iff, ha.stateAt_alloc, ha.mem_vacant_alloc_iff, ha.mem_vacant_iff,
      ← stateAt_vacant_iff]
    split_ifs with hindex <;> simp [hindex]
  · rw [hcounts.1, hcounts.2, hlive, ha.allocated_eq]
    omega

/-! ## Any operation -/

theorem Occurs.perform (ha : a.Occurs) (operation : Operation) : (operation.perform a).Occurs := by
  cases operation with
  | alloc record => exact ha.alloc record
  | update id change => exact ha.update id change
  | define id name value => exact ha.update id _
  | assign id name value => exact ha.assign id name value
  | appendRecords target other =>
      simp only [Operation.perform, appendRecords_eq]
      split
      · exact ha.update target _
      · exact ha
  | capture id => exact ha.capture id
  | release id => exact ha.release id
  | collect heap scopes roots => exact ha.collect heap scopes roots

theorem Accounted.perform (hunmarked : a.Unmarked) (ha : a.Accounted) (operation : Operation) :
    (operation.perform a).Accounted := by
  rcases operation.perform_cases hunmarked with ⟨record, rfl⟩ | ⟨-, hfrees⟩
  · exact ha.alloc record
  · exact ha.frees hfrees

theorem Occurs.accounted (ha : a.Occurs) : a.Accounted := by
  induction ha with
  | empty => exact accounted_empty
  | alloc ha record ih => exact ih.perform ha.unmarked (.alloc record)
  | update ha id change ih => exact ih.perform ha.unmarked (.update id change)
  | assign ha id name value ih => exact ih.perform ha.unmarked (.assign id name value)
  | capture ha id ih => exact ih.perform ha.unmarked (.capture id)
  | release ha id ih => exact ih.perform ha.unmarked (.release id)
  | collect ha heap scopes roots ih => exact ih.perform ha.unmarked (.collect heap scopes roots)

end ScriptCore.ScopeArena
