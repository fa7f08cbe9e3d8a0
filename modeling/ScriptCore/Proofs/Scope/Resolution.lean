import Mathlib.Combinatorics.Pigeonhole
import ScriptCore.Proofs.Scope.Sound

/-!
# How names are resolved

A name is looked up and assigned to by following its links from record to record, over as many
records as there are slots and one more.  Here this is compared with following the links without a
bound, in an arena in which anything may be linked to anything: in long chains, in circles and to
records that are dead.

`afterLinks name count id` is the record that so many links lead to.  Within one more link than
there are slots the links either end or come back to a record that they have passed
(`exists_last_or_cycle`), since all records that are passed stand in different slots otherwise.  So
the bound is never what ends a row of links, and each outcome of resolving a name says just what the
links lead to.

A record does not link a name that it owns.  Binding the name anew in its owner therefore leaves
every link and every owner as it was (`Rebinds.ownerOf_eq`), and an assignment is seen through
exactly those records from which the links of the name lead to the owner.
-/

namespace ScriptCore.ScopeArena

/-! ## Following links -/

/-- The record to which a record links a name. -/
def nameLink? (a : ScopeArena) (name : String) (id : RecordId) : Option RecordId :=
  ((a.record? id).bind (·.member? name)).bind Binding.link?

/-- The record that a number of links of a name lead to. -/
def afterLinks (a : ScopeArena) (name : String) : Nat → RecordId → Option RecordId
  | 0, id => some id
  | count + 1, id => (a.nameLink? name id).bind (a.afterLinks name count)

/-- The links of a name lead from one record to another. -/
def LeadsTo (a : ScopeArena) (name : String) (id other : RecordId) : Prop :=
  ∃ count, a.afterLinks name count id = some other

/-- The links of a name lead from a record back to itself. -/
def OnCycle (a : ScopeArena) (name : String) (id : RecordId) : Prop :=
  ∃ count, 0 < count ∧ a.afterLinks name count id = some id

/-- A live record does not bind a name. -/
def Lacks (a : ScopeArena) (id : RecordId) (name : String) : Prop :=
  ∃ record, a.record? id = some record ∧ record.member? name = none

/-- No record that the links of a name lead to is locked. -/
def Unlocked (a : ScopeArena) (name : String) (id : RecordId) : Prop :=
  ∀ via record, a.LeadsTo name id via → a.record? via = some record → record.locked = false

variable {a : ScopeArena} {name : String} {id other owner via last : RecordId} {record : Record}
  {count more steps : Nat}

theorem nameLink?_eq_some_iff : a.nameLink? name id = some owner ↔
    ∃ record, a.record? id = some record ∧ record.member? name = some (.link owner) := by
  have hlink : ∀ binding : Binding, binding.link? = some owner ↔ binding = .link owner := by
    rintro (value | other) <;> simp [Binding.link?]
  simp only [nameLink?, Option.bind_eq_some_iff, hlink, exists_eq_right]

/-- Links end at a record that owns the name, at one that does not bind it or at a dead one. -/
theorem nameLink?_eq_none_iff : a.nameLink? name id = none ↔
    a.Owns id name ∨ a.Lacks id name ∨ a.record? id = none := by
  simp only [nameLink?, Owns, Lacks]
  cases a.record? id with
  | none => simp
  | some record =>
      rcases hmember : record.member? name with _ | (value | owner) <;>
        simp [Binding.link?, hmember]

theorem afterLinks_add (count more : Nat) (id : RecordId) :
    a.afterLinks name (count + more) id =
      (a.afterLinks name count id).bind (a.afterLinks name more) := by
  induction count generalizing id with
  | zero => simp [afterLinks]
  | succ count ih =>
      rw [Nat.succ_add, afterLinks, afterLinks, Option.bind_assoc]
      exact Option.bind_congr fun next _ => ih next

theorem LeadsTo.refl (a : ScopeArena) (name : String) (id : RecordId) : a.LeadsTo name id id :=
  ⟨0, rfl⟩

theorem LeadsTo.head (hlink : a.nameLink? name id = some other)
    (hleads : a.LeadsTo name other via) : a.LeadsTo name id via := by
  obtain ⟨count, hcount⟩ := hleads
  exact ⟨count + 1, by rw [afterLinks, hlink, Option.bind_some, hcount]⟩

/-- What fewer links lead to lies on the way of more links. -/
theorem exists_afterLinks_of_le (hlast : a.afterLinks name more id = some last)
    (hle : count ≤ more) : ∃ via, a.afterLinks name count id = some via ∧
      a.afterLinks name (more - count) via = some last := by
  rw [← Nat.add_sub_cancel' hle, afterLinks_add] at hlast
  exact Option.bind_eq_some_iff.1 hlast

/-! ## Where links end -/

/-- Links that do not go on for long enough end at a record. -/
theorem exists_last_of_afterLinks_eq_none (hnone : a.afterLinks name count id = none) :
    ∃ fewer last, fewer < count ∧ a.afterLinks name fewer id = some last ∧
      a.nameLink? name last = none := by
  induction count generalizing id with
  | zero => simp [afterLinks] at hnone
  | succ count ih =>
      cases hlink : a.nameLink? name id with
      | none => exact ⟨0, id, Nat.succ_pos _, rfl, hlink⟩
      | some next =>
          rw [afterLinks, hlink, Option.bind_some] at hnone
          obtain ⟨fewer, last, hlt, hlast, hend⟩ := ih hnone
          exact ⟨fewer + 1, last, Nat.succ_lt_succ hlt, by rw [afterLinks, hlink]; exact hlast,
            hend⟩

/-- Links that go on for longer than there are slots pass a record twice. -/
theorem exists_repetition (hlast : a.afterLinks name (a.slots.size + 1) id = some last) :
    ∃ first second via, first < second ∧ second ≤ a.slots.size ∧
      a.afterLinks name first id = some via ∧ a.afterLinks name second id = some via := by
  -- All records that are passed link the name, so they are live.
  have hpassed : ∀ count ≤ a.slots.size, ∃ via record, a.afterLinks name count id = some via ∧
      a.record? via = some record := by
    intro count hcount
    obtain ⟨via, hvia, hrest⟩ := exists_afterLinks_of_le hlast (Nat.le_succ_of_le hcount)
    obtain ⟨more, hmore⟩ : ∃ more, a.slots.size + 1 - count = more + 1 :=
      ⟨a.slots.size - count, by omega⟩
    rw [hmore, afterLinks] at hrest
    obtain ⟨next, hnext, -⟩ := Option.bind_eq_some_iff.1 hrest
    obtain ⟨record, hrecord, -⟩ := nameLink?_eq_some_iff.1 hnext
    exact ⟨via, record, hvia, hrecord⟩
  choose passed record hpasses hrecord using hpassed
  let place : Nat → Nat := fun count =>
    if hcount : count ≤ a.slots.size then (passed count hcount).index else 0
  have hplace : ∀ count (hcount : count ≤ a.slots.size),
      place count = (passed count hcount).index := fun count hcount => dif_pos hcount
  have hmaps : ∀ count ∈ Finset.range (a.slots.size + 1),
      place count ∈ Finset.range a.slots.size := by
    intro count hcount
    have hle := Nat.lt_succ_iff.1 (Finset.mem_range.1 hcount)
    obtain ⟨slot, hslot, -⟩ := record?_eq_some_iff.1 (hrecord count hle)
    rw [hplace count hle, Finset.mem_range]
    exact (Array.getElem?_eq_some_iff.1 hslot).1
  obtain ⟨first, hfirst, second, hsecond, hne, hsame⟩ :=
    Finset.exists_ne_map_eq_of_card_lt_of_maps_to (by simp) hmaps
  replace hfirst := Nat.lt_succ_iff.1 (Finset.mem_range.1 hfirst)
  replace hsecond := Nat.lt_succ_iff.1 (Finset.mem_range.1 hsecond)
  -- Two live handles of one slot are the same.
  rw [hplace first hfirst, hplace second hsecond] at hsame
  have hid := eq_of_index_eq (hrecord second hsecond) (hrecord first hfirst) hsame
  have hagain := hid ▸ hpasses first hfirst
  rcases Nat.lt_or_gt_of_ne hne with hlt | hgt
  · exact ⟨first, second, _, hlt, hsecond, hagain, hpasses second hsecond⟩
  · exact ⟨second, first, _, hgt, hfirst, hpasses second hsecond, hagain⟩

/-- From a record to which they lead back, links never end. -/
theorem OnCycle.exists_afterLinks (hcycle : a.OnCycle name id) (count : Nat) :
    ∃ via, a.afterLinks name count id = some via := by
  obtain ⟨period, hpos, hperiod⟩ := hcycle
  have hrounds : ∀ rounds, a.afterLinks name (rounds * period) id = some id := by
    intro rounds
    induction rounds with
    | zero => rw [Nat.zero_mul, afterLinks]
    | succ rounds ih => rw [Nat.succ_mul, afterLinks_add, ih, Option.bind_some, hperiod]
  obtain ⟨via, hvia, -⟩ := exists_afterLinks_of_le (hrounds count) (Nat.le_mul_of_pos_right _ hpos)
  exact ⟨via, hvia⟩

/-- Links that end at a record do not come to a circle. -/
theorem LeadsTo.not_onCycle (hlast : a.LeadsTo name id last) (hend : a.nameLink? name last = none)
    (hvia : a.LeadsTo name id via) : ¬ a.OnCycle name via := by
  intro hcycle
  obtain ⟨count, hlast⟩ := hlast
  obtain ⟨before, hvia⟩ := hvia
  obtain ⟨next, hnext⟩ := hcycle.exists_afterLinks (count + 1)
  -- One more link than there are is followed from the start.
  have hbeyond : a.afterLinks name (before + (count + 1)) id = some next := by
    rw [afterLinks_add, hvia, Option.bind_some, hnext]
  obtain ⟨further, hfurther, -⟩ := exists_afterLinks_of_le hbeyond (Nat.le_add_left _ _)
  rw [afterLinks_add, hlast, Option.bind_some, afterLinks, hend] at hfurther
  nomatch hfurther

/-- Links end at one record only. -/
theorem LeadsTo.last_unique (hlast : a.LeadsTo name id last) (hend : a.nameLink? name last = none)
    (hother : a.LeadsTo name id other) (hotherEnd : a.nameLink? name other = none) :
    other = last := by
  obtain ⟨count, hcount⟩ := hlast
  obtain ⟨more, hmore⟩ := hother
  have hstays : ∀ {id last : RecordId} {count : Nat}, a.nameLink? name id = none →
      a.afterLinks name count id = some last → last = id := by
    intro id last count hnone hafter
    cases count with
    | zero => exact (Option.some.inj hafter).symm
    | succ count =>
        rw [afterLinks, hnone] at hafter
        nomatch hafter
  rcases Nat.le_total count more with hle | hge
  · obtain ⟨via, hvia, hrest⟩ := exists_afterLinks_of_le hmore hle
    obtain rfl := Option.some.inj (hcount.symm.trans hvia)
    exact hstays hend hrest
  · obtain ⟨via, hvia, hrest⟩ := exists_afterLinks_of_le hcount hge
    obtain rfl := Option.some.inj (hmore.symm.trans hvia)
    exact (hstays hotherEnd hrest).symm

/-- Within as many links as there are slots, links end, or they come to a circle. -/
theorem exists_last_or_cycle (a : ScopeArena) (name : String) (id : RecordId) :
    (∃ count last, count ≤ a.slots.size ∧ a.afterLinks name count id = some last ∧
      a.nameLink? name last = none) ∨
    ((∃ last, a.afterLinks name (a.slots.size + 1) id = some last) ∧
      ∃ via, a.LeadsTo name id via ∧ a.OnCycle name via) := by
  cases hbeyond : a.afterLinks name (a.slots.size + 1) id with
  | none =>
      obtain ⟨count, last, hlt, hlast, hend⟩ := exists_last_of_afterLinks_eq_none hbeyond
      exact .inl ⟨count, last, Nat.lt_succ_iff.1 hlt, hlast, hend⟩
  | some beyond =>
      obtain ⟨first, second, via, hlt, -, hfirst, hsecond⟩ := exists_repetition hbeyond
      refine .inr ⟨⟨beyond, rfl⟩, via, ⟨first, hfirst⟩, second - first, by omega, ?_⟩
      rw [← Nat.add_sub_cancel' hlt.le, afterLinks_add, hfirst, Option.bind_some] at hsecond
      exact hsecond

/-! ## Looking for the owner of a name -/

/-- What is found at the last record: the owner of the name, or the reason why there is none. -/
def ownerAt (a : ScopeArena) (name : String) (last : RecordId) : Except RuntimeError RecordId :=
  a.ownerWithin name 1 last

theorem ownerWithin_of_nameLink? (hlink : a.nameLink? name id = some other) (steps : Nat) :
    a.ownerWithin name (steps + 1) id = a.ownerWithin name steps other := by
  obtain ⟨record, hrecord, hmember⟩ := nameLink?_eq_some_iff.1 hlink
  simp only [ownerWithin, get_of_record? hrecord, bind, Except.bind, hmember]

theorem ownerWithin_of_last (hend : a.nameLink? name last = none) (steps : Nat) :
    a.ownerWithin name (steps + 1) last = a.ownerAt name last := by
  rw [ownerAt, ownerWithin, ownerWithin]
  rcases nameLink?_eq_none_iff.1 hend with ⟨record, value, hrecord, hmember⟩ |
    ⟨record, hrecord, hmember⟩ | hdead
  · simp only [get_of_record? hrecord, bind, Except.bind, hmember]
  · simp only [get_of_record? hrecord, bind, Except.bind, hmember]
  · simp only [get, hdead, bind, Except.bind]

theorem ownerWithin_add (hvia : a.afterLinks name count id = some via) (steps : Nat) :
    a.ownerWithin name (count + steps) id = a.ownerWithin name steps via := by
  induction count generalizing id with
  | zero =>
      obtain rfl := Option.some.inj hvia
      rw [Nat.zero_add]
  | succ count ih =>
      obtain ⟨next, hnext, hrest⟩ := Option.bind_eq_some_iff.1 hvia
      rw [Nat.succ_add, ownerWithin_of_nameLink? hnext, ih hrest]

theorem ownerOf_of_last (hcount : count ≤ a.slots.size)
    (hlast : a.afterLinks name count id = some last) (hend : a.nameLink? name last = none) :
    a.ownerOf id name = a.ownerAt name last := by
  rw [ownerOf, ← Nat.add_sub_cancel' hcount, Nat.add_assoc, ownerWithin_add hlast,
    ownerWithin_of_last hend]

/-- Either the links of a name end, and the outcome is what is found there, or they come to a
circle, and nothing owns the name. -/
theorem ownerOf_cases (a : ScopeArena) (name : String) (id : RecordId) :
    (∃ last, a.LeadsTo name id last ∧ a.nameLink? name last = none ∧
      a.ownerOf id name = a.ownerAt name last) ∨
    (∃ via, a.LeadsTo name id via ∧ a.OnCycle name via) ∧
      a.ownerOf id name = .error (.undefinedName name) := by
  rcases exists_last_or_cycle a name id with
    ⟨count, last, hcount, hlast, hend⟩ | ⟨⟨beyond, hbeyond⟩, hcycle⟩
  · exact .inl ⟨last, ⟨count, hlast⟩, hend, ownerOf_of_last hcount hlast hend⟩
  · exact .inr ⟨hcycle, ownerWithin_add hbeyond 0⟩

theorem ownerAt_of_owns (howns : a.Owns last name) : a.ownerAt name last = .ok last := by
  obtain ⟨record, value, hrecord, hmember⟩ := howns
  simp only [ownerAt, ownerWithin, get_of_record? hrecord, bind, Except.bind, hmember]

theorem ownerAt_of_lacks (hlacks : a.Lacks last name) :
    a.ownerAt name last = .error (.undefinedName name) := by
  obtain ⟨record, hrecord, hmember⟩ := hlacks
  simp only [ownerAt, ownerWithin, get_of_record? hrecord, bind, Except.bind, hmember]

theorem ownerAt_of_dead (hdead : a.record? last = none) :
    a.ownerAt name last = .error (.deadRecord last.index) := by
  simp only [ownerAt, ownerWithin, get, hdead, bind, Except.bind]

/-- Wherever links end, that is what looking for the owner comes to. -/
theorem LeadsTo.ownerOf_eq (hlast : a.LeadsTo name id last)
    (hend : a.nameLink? name last = none) : a.ownerOf id name = a.ownerAt name last := by
  rcases ownerOf_cases a name id with ⟨other, hother, hotherEnd, howner⟩ | ⟨⟨via, hvia, hcycle⟩, -⟩
  · rwa [hlast.last_unique hend hother hotherEnd] at howner
  · exact absurd hcycle (hlast.not_onCycle hend hvia)

theorem ownerOf_eq_ok_iff :
    a.ownerOf id name = .ok owner ↔ a.LeadsTo name id owner ∧ a.Owns owner name := by
  constructor
  · intro howner
    rcases ownerOf_cases a name id with ⟨last, hlast, hend, hfound⟩ | ⟨-, hnone⟩
    · rw [howner] at hfound
      rcases nameLink?_eq_none_iff.1 hend with howns | hlacks | hdead
      · rw [ownerAt_of_owns howns] at hfound
        obtain rfl := Except.ok.inj hfound
        exact ⟨hlast, howns⟩
      · rw [ownerAt_of_lacks hlacks] at hfound
        nomatch hfound
      · rw [ownerAt_of_dead hdead] at hfound
        nomatch hfound
    · rw [howner] at hnone
      nomatch hnone
  · rintro ⟨hleads, howns⟩
    rw [hleads.ownerOf_eq (nameLink?_eq_none_iff.2 (.inl howns)), ownerAt_of_owns howns]

theorem ownerOf_eq_undefined_iff : a.ownerOf id name = .error (.undefinedName name) ↔
    (∃ last, a.LeadsTo name id last ∧ a.Lacks last name) ∨
      ∃ via, a.LeadsTo name id via ∧ a.OnCycle name via := by
  constructor
  · intro hnone
    rcases ownerOf_cases a name id with ⟨last, hlast, hend, hfound⟩ | ⟨hcycle, -⟩
    · rw [hnone] at hfound
      rcases nameLink?_eq_none_iff.1 hend with howns | hlacks | hdead
      · rw [ownerAt_of_owns howns] at hfound
        nomatch hfound
      · exact .inl ⟨last, hlast, hlacks⟩
      · rw [ownerAt_of_dead hdead] at hfound
        nomatch hfound
    · exact .inr hcycle
  · rintro (⟨last, hlast, hlacks⟩ | ⟨via, hvia, hcycle⟩)
    · rw [hlast.ownerOf_eq (nameLink?_eq_none_iff.2 (.inr (.inl hlacks))),
        ownerAt_of_lacks hlacks]
    · rcases ownerOf_cases a name id with ⟨last, hlast, hend, -⟩ | ⟨-, hnone⟩
      · exact absurd hcycle (hlast.not_onCycle hend hvia)
      · exact hnone

theorem ownerOf_eq_dead_iff {index : Nat} : a.ownerOf id name = .error (.deadRecord index) ↔
    ∃ dead, a.LeadsTo name id dead ∧ a.isLive dead = false ∧ dead.index = index := by
  have hlive : ∀ dead, a.isLive dead = false ↔ a.record? dead = none := by
    intro dead
    rw [isLive, Option.isSome_eq_false_iff, Option.isNone_iff_eq_none]
  simp only [hlive]
  constructor
  · intro hfail
    rcases ownerOf_cases a name id with ⟨last, hlast, hend, hfound⟩ | ⟨-, hnone⟩
    · rw [hfail] at hfound
      rcases nameLink?_eq_none_iff.1 hend with howns | hlacks | hdead
      · rw [ownerAt_of_owns howns] at hfound
        cases hfound
      · rw [ownerAt_of_lacks hlacks] at hfound
        cases hfound
      · rw [ownerAt_of_dead hdead] at hfound
        exact ⟨last, hlast, hdead, (RuntimeError.deadRecord.inj (Except.error.inj hfound)).symm⟩
    · rw [hfail] at hnone
      cases hnone
  · rintro ⟨dead, hleads, hdead, rfl⟩
    rw [hleads.ownerOf_eq (nameLink?_eq_none_iff.2 (.inr (.inr hdead))), ownerAt_of_dead hdead]

/-- There is no other reason why a name has no owner. -/
theorem ownerOf_error_cases {err : RuntimeError} (hfail : a.ownerOf id name = .error err) :
    err = .undefinedName name ∨ ∃ index, err = .deadRecord index := by
  rcases ownerOf_cases a name id with ⟨last, -, hend, hfound⟩ | ⟨-, hnone⟩
  · rw [hfail] at hfound
    rcases nameLink?_eq_none_iff.1 hend with howns | hlacks | hdead
    · rw [ownerAt_of_owns howns] at hfound
      nomatch hfound
    · rw [ownerAt_of_lacks hlacks] at hfound
      exact .inl (Except.error.inj hfound)
    · rw [ownerAt_of_dead hdead] at hfound
      exact .inr ⟨_, Except.error.inj hfound⟩
  · rw [hfail] at hnone
    exact .inl (Except.error.inj hnone)

/-! ## Assigning -/

/-- An assignment binds the name in the owner if no record on the way is locked. -/
theorem assignWithin_of_ownerWithin (value : Value)
    (howner : a.ownerWithin name steps id = .ok owner) (hrecord : a.record? owner = some record)
    (hunlocked : a.Unlocked name id) :
    a.assignWithin name value steps id =
      (.ok (), a.put owner.index (record.bind name (.value value))) := by
  induction steps generalizing id with
  | zero => nomatch howner
  | succ steps ih =>
      cases hlink : a.nameLink? name id with
      | some next =>
          obtain ⟨scope, hscope, hmember⟩ := nameLink?_eq_some_iff.1 hlink
          have hfree := hunlocked id scope (.refl a name id) hscope
          rw [ownerWithin_of_nameLink? hlink] at howner
          rw [assignWithin, get_of_record? hscope]
          simp only [hfree, Bool.false_eq_true, if_false, hmember]
          exact ih howner fun via scope hvia => hunlocked via scope (hvia.head hlink)
      | none =>
          rw [ownerWithin_of_last hlink] at howner
          -- The row of links ends at a record that owns the name; the others give no owner.
          obtain ⟨hleads, hscope, value', hrecord', hmember⟩ :=
            ownerOf_eq_ok_iff.1 (((LeadsTo.refl a name id).ownerOf_eq hlink).trans howner)
          obtain rfl : owner = id := (LeadsTo.refl a name id).last_unique hlink hleads
            (nameLink?_eq_none_iff.2 (.inl ⟨hscope, value', hrecord', hmember⟩))
          obtain rfl : record = hscope := Option.some.inj (hrecord.symm.trans hrecord')
          have hfree := hunlocked owner record (.refl a name owner) hrecord
          rw [assignWithin, get_of_record? hrecord]
          simp only [hfree, Bool.false_eq_true, if_false, hmember]

/-- A record on the way that is locked ends the assignment. -/
theorem assignWithin_of_locked (value : Value) (hvia : a.afterLinks name count id = some via)
    (hrecord : a.record? via = some record) (hlocked : record.locked = true) (steps : Nat) :
    a.assignWithin name value (count + (steps + 1)) id = (.ok (), a) := by
  induction count generalizing id with
  | zero =>
      obtain rfl := Option.some.inj hvia
      rw [Nat.zero_add, assignWithin, get_of_record? hrecord]
      exact if_pos hlocked
  | succ count ih =>
      obtain ⟨next, hnext, hrest⟩ := Option.bind_eq_some_iff.1 hvia
      obtain ⟨scope, hscope, hmember⟩ := nameLink?_eq_some_iff.1 hnext
      rw [Nat.succ_add, assignWithin, get_of_record? hscope]
      by_cases hends : scope.locked = true
      · exact if_pos hends
      · simp only [if_neg hends, hmember]
        exact ih hrest

/-- Whatever links lead to, no more of them are needed than there are slots. -/
theorem LeadsTo.exists_le (hleads : a.LeadsTo name id other) :
    ∃ count, count ≤ a.slots.size ∧ a.afterLinks name count id = some other := by
  obtain ⟨count, hcount⟩ := hleads
  induction count using Nat.strong_induction_on with
  | _ count ih =>
      by_cases hle : count ≤ a.slots.size
      · exact ⟨count, hle, hcount⟩
      · -- The way passes a record twice and can do without the round between.
        obtain ⟨last, hlast, -⟩ := exists_afterLinks_of_le hcount (Nat.lt_of_not_le hle)
        obtain ⟨first, second, via, hlt, hsecond, hfirst, hagain⟩ := exists_repetition hlast
        obtain ⟨via', hvia, hrest⟩ := exists_afterLinks_of_le hcount
          (hsecond.trans (Nat.le_of_not_le hle))
        obtain rfl := Option.some.inj (hagain.symm.trans hvia)
        refine ih (first + (count - second)) (by omega) ?_
        rw [afterLinks_add, hfirst, Option.bind_some, hrest]

instance : Decidable (a.LeadsTo name id other) :=
  decidable_of_iff (∃ count, count < a.slots.size + 1 ∧
      a.afterLinks name count id = some other) <| by
    simp only [Nat.lt_succ_iff]
    exact ⟨fun ⟨count, _, hcount⟩ => ⟨count, hcount⟩, LeadsTo.exists_le⟩

instance : Decidable (a.Unlocked name id) :=
  decidable_of_iff (∀ count < a.slots.size + 1,
      ∀ record ∈ (a.afterLinks name count id).bind a.record?, record.locked = false) <| by
    constructor
    · intro hunlocked via record hvia hrecord
      obtain ⟨count, hle, hcount⟩ := hvia.exists_le
      exact hunlocked count (Nat.lt_succ_iff.2 hle) record (Option.bind_eq_some_iff.2
        ⟨via, hcount, hrecord⟩)
    · intro hunlocked count _ record hfound
      obtain ⟨via, hvia, hrecord⟩ := Option.bind_eq_some_iff.1 hfound
      exact hunlocked via record ⟨count, hvia⟩ hrecord

theorem assign_of_locked (value : Value) (hvia : a.LeadsTo name id via)
    (hrecord : a.record? via = some record) (hlocked : record.locked = true) :
    a.assign id name value = (.ok (), a) := by
  obtain ⟨count, hle, hcount⟩ := hvia.exists_le
  have hlocks := assignWithin_of_locked value hcount hrecord hlocked (a.slots.size - count)
  rwa [← Nat.add_assoc, Nat.add_sub_cancel' hle] at hlocks

/-! ## Looking a name up -/

theorem member?_bind (hrecord : record.members.Valid) (name : String) (binding : Binding)
    (other : String) : (record.bind name binding).member? other =
      if other = name then some binding else record.member? other := by
  rw [Record.member?, Record.bind, hrecord.find?_set, Record.member?]

/-- What a name stands for where its links lead. -/
theorem lookup_of_leadsTo {value : Value} (hleads : a.LeadsTo name id owner)
    (hrecord : a.record? owner = some record)
    (hmember : record.member? name = some (.value value)) : a.lookup id name = .ok value := by
  have howner := ownerOf_eq_ok_iff.2 ⟨hleads, record, value, hrecord, hmember⟩
  simp only [lookup, howner, get_of_record? hrecord, bind, Except.bind, hmember]

/-! ## Binding a name anew -/

/-- One arena is another one in which the owner of a name has bound it to a value anew. -/
structure Rebinds (a b : ScopeArena) (owner : RecordId) (name : String) (value : Value) : Prop where
  size : b.slots.size = a.slots.size
  owned : a.Owns owner name
  rebound : ∃ record later, a.record? owner = some record ∧ b.record? owner = some later ∧
    ∀ bound, later.member? bound =
      if bound = name then some (.value value) else record.member? bound
  others : ∀ id, id ≠ owner → b.record? id = a.record? id

variable {b : ScopeArena} {value : Value} {bound : String}

theorem rebinds_put (hrecord : a.record? owner = some record) (hvalid : record.members.Valid)
    (howns : a.Owns owner name) (value : Value) :
    a.Rebinds (a.put owner.index (record.bind name (.value value))) owner name value where
  size := Array.size_modify
  owned := howns
  rebound := by
    refine ⟨record, record.bind name (.value value), hrecord, ?_, fun bound => ?_⟩
    · rw [record?_put hrecord, if_pos rfl]
    · exact member?_bind hvalid name _ bound
  others id hid := by rw [record?_put hrecord, if_neg hid]

/-- The owner still owns the name, and nothing else is bound differently. -/
theorem Rebinds.ownerWithin_eq (hab : a.Rebinds b owner name value) (bound : String) (steps : Nat)
    (id : RecordId) : b.ownerWithin bound steps id = a.ownerWithin bound steps id := by
  induction steps generalizing id with
  | zero => rfl
  | succ steps ih =>
      rw [ownerWithin, ownerWithin]
      by_cases hid : id = owner
      · subst hid
        obtain ⟨record, later, hrecord, hlater, hmember⟩ := hab.rebound
        simp only [get_of_record? hrecord, get_of_record? hlater, bind, Except.bind, hmember]
        by_cases hbound : bound = name
        · obtain ⟨held, old, hheld, hold⟩ := hab.owned
          obtain rfl : record = held := Option.some.inj (hrecord.symm.trans hheld)
          simp only [hbound, if_true, hold]
        · simp only [if_neg hbound, ih]
      · simp only [get, hab.others id hid, ih]

theorem Rebinds.ownerOf_eq (hab : a.Rebinds b owner name value) (bound : String) (id : RecordId) :
    b.ownerOf id bound = a.ownerOf id bound := by
  rw [ownerOf, ownerOf, hab.size, hab.ownerWithin_eq]

/-- The new value is seen from where the links of the name lead to its owner. -/
theorem Rebinds.lookup_of_leadsTo (hab : a.Rebinds b owner name value)
    (hleads : a.LeadsTo name other owner) : b.lookup other name = .ok value := by
  obtain ⟨_, later, -, hlater, hmember⟩ := hab.rebound
  have howner : b.ownerOf other name = .ok owner :=
    (hab.ownerOf_eq name other).trans (ownerOf_eq_ok_iff.2 ⟨hleads, hab.owned⟩)
  simp only [lookup, howner, get_of_record? hlater, bind, Except.bind, hmember, if_true]

/-- Nothing else is seen to change. -/
theorem Rebinds.lookup_of_not (hab : a.Rebinds b owner name value)
    (helse : ¬ (bound = name ∧ a.LeadsTo name other owner)) :
    b.lookup other bound = a.lookup other bound := by
  rw [lookup, lookup, hab.ownerOf_eq]
  cases hfound : a.ownerOf other bound with
  | error err => rfl
  | ok found =>
      by_cases hid : found = owner
      · subst hid
        have hbound : bound ≠ name := by
          rintro rfl
          exact helse ⟨rfl, (ownerOf_eq_ok_iff.1 hfound).1⟩
        obtain ⟨record, later, hrecord, hlater, hmember⟩ := hab.rebound
        simp only [bind, Except.bind, get_of_record? hrecord, get_of_record? hlater, hmember,
          if_neg hbound]
      · simp only [bind, Except.bind, get, hab.others found hid]

theorem assign_of_unlocked (value : Value) (howner : a.ownerOf id name = .ok owner)
    (hrecord : a.record? owner = some record) (hvalid : record.members.Valid)
    (hunlocked : a.Unlocked name id) : ∃ later, a.assign id name value = (.ok (), later) ∧
      a.Rebinds later owner name value :=
  ⟨_, assignWithin_of_ownerWithin value howner hrecord hunlocked,
    rebinds_put hrecord hvalid (ownerOf_eq_ok_iff.1 howner).2 value⟩

/-! ## What resolving a name comes to -/

/-- Whatever the links of a name are, looking for its owner ends with the owner they lead to, with
an undefined name if they end elsewhere or run in a circle, or with the dead record they come to.
An assignment to a name that is owned is seen from exactly those records from which the links of
the name lead to its owner, and a locked record on the way makes it do nothing. -/
theorem resolves_and_assigns (a : ScopeArena) (id : RecordId) (name : String) :
    (∀ owner, a.ownerOf id name = .ok owner ↔ a.LeadsTo name id owner ∧ a.Owns owner name) ∧
    (a.ownerOf id name = .error (.undefinedName name) ↔
      (∃ last, a.LeadsTo name id last ∧ a.Lacks last name) ∨
        ∃ via, a.LeadsTo name id via ∧ a.OnCycle name via) ∧
    (∀ index, a.ownerOf id name = .error (.deadRecord index) ↔
      ∃ dead, a.LeadsTo name id dead ∧ a.isLive dead = false ∧ dead.index = index) ∧
    (∀ err, a.ownerOf id name = .error err →
      err = .undefinedName name ∨ ∃ index, err = .deadRecord index) ∧
    (∀ owner record value, a.ownerOf id name = .ok owner → a.record? owner = some record →
      record.members.Valid → a.Unlocked name id →
      ∃ later, a.assign id name value = (.ok (), later) ∧ ∀ other bound,
        (bound = name ∧ a.LeadsTo name other owner → later.lookup other bound = .ok value) ∧
        (¬ (bound = name ∧ a.LeadsTo name other owner) →
          later.lookup other bound = a.lookup other bound)) ∧
    (∀ via record value, a.LeadsTo name id via → a.record? via = some record →
      record.locked = true → a.assign id name value = (.ok (), a)) := by
  refine ⟨fun owner => ownerOf_eq_ok_iff, ownerOf_eq_undefined_iff,
    fun index => ownerOf_eq_dead_iff, fun err => ownerOf_error_cases, ?_,
    fun via record value => assign_of_locked value⟩
  intro owner record value howner hrecord hvalid hunlocked
  obtain ⟨later, hassign, hlater⟩ := assign_of_unlocked value howner hrecord hvalid hunlocked
  refine ⟨later, hassign, fun other bound => ⟨?_, hlater.lookup_of_not⟩⟩
  rintro ⟨rfl, hleads⟩
  exact hlater.lookup_of_leadsTo hleads

/-- A name is bound in one record, two others lead to it, two more form a circle, one of them
locked, and one leads to a record that was freed. -/
def tangled : ScopeArena :=
  let scope (binding : Binding) (locked : Bool) : Slot :=
    ⟨0, some ({ Record.fresh "scope" .function with locked }.bind "x" binding), false⟩
  { slots := #[scope (.value .null) false, scope (.link ⟨0, 0⟩) false, scope (.link ⟨1, 0⟩) false,
      scope (.link ⟨4, 0⟩) false, scope (.link ⟨3, 0⟩) true, scope (.link ⟨6, 0⟩) false,
      ⟨1, none, false⟩]
    vacant := [6]
    allocated := 7
    reclaimed := 1 }

/-- From the end of a row of two links the owner is found and assigned to; from the circle and from
the record that leads to a dead one it is not. -/
theorem resolves_tangled :
    tangled.ownerOf ⟨2, 0⟩ "x" = .ok ⟨0, 0⟩ ∧
    tangled.ownerOf ⟨3, 0⟩ "x" = .error (.undefinedName "x") ∧
    tangled.ownerOf ⟨5, 0⟩ "x" = .error (.deadRecord 6) ∧
    tangled.assign ⟨3, 0⟩ "x" (.integer 5) = (.ok (), tangled) ∧
    ∃ later, tangled.assign ⟨2, 0⟩ "x" (.integer 5) = (.ok (), later) ∧
      later.lookup ⟨1, 0⟩ "x" = .ok (.integer 5) ∧
      later.lookup ⟨3, 0⟩ "x" = tangled.lookup ⟨3, 0⟩ "x" := by
  obtain ⟨howner, -, -, -, hassign, -⟩ := resolves_and_assigns tangled ⟨2, 0⟩ "x"
  obtain ⟨-, hcircle, -, -, -, hlocked⟩ := resolves_and_assigns tangled ⟨3, 0⟩ "x"
  obtain ⟨-, -, hdead, -⟩ := resolves_and_assigns tangled ⟨5, 0⟩ "x"
  have hfound := (howner ⟨0, 0⟩).2
    ⟨by decide +kernel, _, .null, rfl, show Record.member? _ "x" = _ by decide +kernel⟩
  obtain ⟨later, hlater, hseen⟩ := hassign ⟨0, 0⟩ _ (.integer 5) hfound rfl
    (NameTable.valid_empty.set "x" (Binding.value .null)).1 (by decide +kernel)
  refine ⟨hfound, hcircle.2 (.inr ⟨⟨3, 0⟩, by decide +kernel, 2, by decide, by decide +kernel⟩),
    (hdead 6).2 ⟨⟨6, 0⟩, by decide +kernel, by decide +kernel, rfl⟩,
    hlocked ⟨4, 0⟩ _ (.integer 5) (by decide +kernel) rfl rfl, later, hlater,
    (hseen ⟨1, 0⟩ "x").1 ⟨rfl, by decide +kernel⟩, (hseen ⟨3, 0⟩ "x").2 ?_⟩
  rintro ⟨-, hleads⟩
  exact absurd hleads (by decide +kernel)

end ScriptCore.ScopeArena
