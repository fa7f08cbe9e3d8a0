import ScriptCore.Proofs.NameTable
import ScriptCore.Proofs.Scope.Arena
import ScriptCore.Proofs.Scope.Collection
import ScriptCore.Scope.CallStack

/-!
# When closing a scope is safe

A record that no function captured is freed as soon as its scope is closed, without a look at who
links to it.  That is safe because of an invariant of the whole arena, `ScopeArena.Sound`: a link
leads to a captured record or to a record lower on the stack, and what a captured record links to
is captured as well.  Nothing is above the top of the stack, so nothing links to it unless it is
captured.

Links lead to the owner of a name at once (`RecordSound.owned`), so a name is resolved in two steps
and no lookup or assignment ever meets a dead record.

The invariant takes the open scopes as a list.  A record that was made but not opened yet counts as
standing on top of it, so opening a scope and closing it again are each described by one lemma.  The
values bound in records are all of some kind `usable`, which the arena does not look into.
-/

namespace ScriptCore

namespace ScopeArena

/-- A live record binds a name to a value of its own. -/
def Owns (a : ScopeArena) (id : RecordId) (name : String) : Prop :=
  ∃ record value, a.record? id = some record ∧ record.member? name = some (.value value)

/-- What holds of a live record: it is open or captured, it binds usable values, and each link
leads to the owner of the name, which is captured or below and surely captured if the record is. -/
structure RecordSound (usable : Value → Prop) (a : ScopeArena) (stack : List RecordId)
    (id : RecordId) (record : Record) : Prop where
  held : id ∈ stack ∨ record.captured = true
  valid : record.members.Valid
  usable : ∀ name value, record.member? name = some (.value value) → usable value
  owned : ∀ name owner, record.member? name = some (.link owner) → a.Owns owner name
  below : ∀ name owner, record.member? name = some (.link owner) →
    a.Captured owner ∨ [owner, id].Sublist stack
  closed : record.captured = true → ∀ name owner, record.member? name = some (.link owner) →
    a.Captured owner

/-- The arena is fit for the given open scopes. -/
structure Sound (usable : Value → Prop) (a : ScopeArena) (stack : List RecordId) : Prop where
  unmarked : a.Unmarked
  vacancies : a.Vacancies
  nodup : stack.Nodup
  stack_live : ∀ id ∈ stack, a.isLive id = true
  records : ∀ id record, a.record? id = some record → RecordSound usable a stack id record

/-- A record that is live stays live, with name, kind, level and lock, and stays captured. -/
def Persists (a b : ScopeArena) (id : RecordId) : Prop :=
  ∀ record, a.record? id = some record → ∃ later, b.record? id = some later ∧
    later.name = record.name ∧ later.kind = record.kind ∧ later.level = record.level ∧
    later.locked = record.locked ∧ (record.captured = true → later.captured = true)

variable {usable : Value → Prop} {a b : ScopeArena} {stack : List RecordId} {id owner : RecordId}
  {record : Record}

theorem Persists.refl (a : ScopeArena) (id : RecordId) : a.Persists a id :=
  fun record hrecord => ⟨record, hrecord, rfl, rfl, rfl, rfl, fun hcaptured => hcaptured⟩

theorem Persists.trans {c : ScopeArena} (hab : a.Persists b id) (hbc : b.Persists c id) :
    a.Persists c id := by
  intro record hrecord
  obtain ⟨middle, hmiddle, hname, hkind, hlevel, hlocked, hcaptured⟩ := hab record hrecord
  obtain ⟨later, hlater, hname', hkind', hlevel', hlocked', hcaptured'⟩ := hbc middle hmiddle
  exact ⟨later, hlater, hname'.trans hname, hkind'.trans hkind, hlevel'.trans hlevel,
    hlocked'.trans hlocked, fun hyes => hcaptured' (hcaptured hyes)⟩

theorem Persists.of_eq (hsame : b.record? id = a.record? id) : a.Persists b id :=
  fun record hrecord => ⟨record, hsame.trans hrecord, rfl, rfl, rfl, rfl, fun hyes => hyes⟩

theorem Persists.isLive (hab : a.Persists b id) (hlive : a.isLive id = true) :
    b.isLive id = true := by
  obtain ⟨record, hrecord⟩ := isLive_iff.1 hlive
  obtain ⟨later, hlater, -⟩ := hab record hrecord
  exact isLive_of_record? hlater

theorem Persists.captured (hab : a.Persists b id) (hcaptured : a.Captured id) : b.Captured id := by
  obtain ⟨record, hrecord, hyes⟩ := hcaptured
  obtain ⟨later, hlater, -, -, -, -, hlaterYes⟩ := hab record hrecord
  exact ⟨later, hlater, hlaterYes hyes⟩

theorem Captured.isLive (hcaptured : a.Captured id) : a.isLive id = true := by
  obtain ⟨record, hrecord, -⟩ := hcaptured
  exact isLive_of_record? hrecord

theorem Owns.isLive {name : String} (howns : a.Owns id name) : a.isLive id = true := by
  obtain ⟨record, _, hrecord, -⟩ := howns
  exact isLive_of_record? hrecord

theorem sound_empty : empty.Sound usable [] where
  unmarked := by simp [Unmarked, empty]
  vacancies := vacancies_empty
  nodup := List.nodup_nil
  stack_live _ hid := absurd hid List.not_mem_nil
  records id record hrecord := by simp [record?, empty] at hrecord

/-! ## Order on the stack -/

theorem sublist_append_singleton {α : Type} {l : List α} {x y top : α} :
    [x, y].Sublist (l ++ [top]) ↔ [x, y].Sublist l ∨ x ∈ l ∧ y = top := by
  have hpair : ([x, y] : List α) = [x] ++ [y] := rfl
  constructor
  · intro hsub
    obtain ⟨front, back, hsplit, hfront, hback⟩ := List.sublist_append_iff.1 hsub
    rcases List.sublist_singleton.1 hback with rfl | rfl
    · rw [List.append_nil] at hsplit
      exact .inl (hsplit ▸ hfront)
    · rw [hpair] at hsplit
      obtain ⟨rfl, htop⟩ := List.append_inj' hsplit rfl
      exact .inr ⟨List.singleton_sublist.1 hfront, by simpa using htop⟩
  · rintro (hsub | ⟨hmem, rfl⟩)
    · exact hsub.trans (List.sublist_append_left _ _)
    · exact (List.singleton_sublist.2 hmem).append (List.Sublist.refl [y])

/-! ## Records that stay sound -/

/-- A record stays sound where names keep their owners, captured records stay captured and scopes
are only opened. -/
theorem RecordSound.mono {stack' : List RecordId} (hrecord : RecordSound usable a stack id record)
    (howns : ∀ owner name, a.Owns owner name → b.Owns owner name)
    (hcaptured : ∀ owner, a.Captured owner → b.Captured owner)
    (hstack : stack.Sublist stack') : RecordSound usable b stack' id record where
  held := hrecord.held.imp_left fun hmem => hstack.subset hmem
  valid := hrecord.valid
  usable := hrecord.usable
  owned name owner hlink := howns _ _ (hrecord.owned name owner hlink)
  below name owner hlink := (hrecord.below name owner hlink).imp (hcaptured owner)
    fun hsub => hsub.trans hstack
  closed hyes name owner hlink := hcaptured _ (hrecord.closed hyes name owner hlink)

/-- Binding a usable value keeps a record sound. -/
theorem RecordSound.bind_value (hrecord : RecordSound usable a stack id record) (name : String)
    {value : Value} (hvalue : usable value) :
    RecordSound usable a stack id (record.bind name (.value value)) := by
  -- Only the name that is bound changes, and not to a link.
  have hmember : ∀ other binding, (record.bind name (.value value)).member? other = some binding →
      binding = .value value ∨ record.member? other = some binding := by
    intro other binding hbound
    rw [Record.member?, Record.bind, hrecord.valid.find?_set] at hbound
    split at hbound
    · exact .inl (Option.some.inj hbound).symm
    · exact .inr hbound
  have hlink : ∀ other owner, (record.bind name (.value value)).member? other = some (.link owner) →
      record.member? other = some (.link owner) := fun other owner hbound =>
    (hmember other _ hbound).resolve_left (by simp)
  exact {
    held := hrecord.held
    valid := (hrecord.valid.set _ _).1
    usable := by
      intro other found hbound
      rcases hmember other _ hbound with hnew | hbefore
      · exact Binding.value.inj hnew ▸ hvalue
      · exact hrecord.usable other found hbefore
    owned := fun other owner hbound => hrecord.owned other owner (hlink other owner hbound)
    below := fun other owner hbound => hrecord.below other owner (hlink other owner hbound)
    closed := fun hyes other owner hbound =>
      hrecord.closed hyes other owner (hlink other owner hbound) }

/-! ## Exchanging a record -/

/-- A sound arena stays sound when a record is exchanged for one that is sound itself, owns what the
former owned and is captured if the former was. -/
theorem Sound.put (ha : a.Sound usable stack) (hrecord : a.record? id = some record) (new : Record)
    (hnew : RecordSound usable a stack id new)
    (howns : ∀ name value, record.member? name = some (.value value) →
      ∃ value', new.member? name = some (.value value'))
    (hcaptured : record.captured = true → new.captured = true) :
    (a.put id.index new).Sound usable stack := by
  have hrecord? := record?_put hrecord new
  -- What others demand of their owners is kept by the exchange.
  have hownsAll : ∀ owner name, a.Owns owner name → (a.put id.index new).Owns owner name := by
    rintro owner name ⟨held, value, hheld, hbound⟩
    by_cases howner : owner = id
    · subst owner
      obtain rfl : record = held := Option.some.inj (hrecord.symm.trans hheld)
      obtain ⟨value', hvalue'⟩ := howns name value hbound
      exact ⟨new, value', by simp [hrecord?], hvalue'⟩
    · exact ⟨held, value, by simp [hrecord?, howner, hheld], hbound⟩
  have hcapturedAll : ∀ owner, a.Captured owner → (a.put id.index new).Captured owner := by
    rintro owner ⟨held, hheld, hyes⟩
    by_cases howner : owner = id
    · subst owner
      obtain rfl : record = held := Option.some.inj (hrecord.symm.trans hheld)
      exact ⟨new, by simp [hrecord?], hcaptured hyes⟩
    · exact ⟨held, by simp [hrecord?, howner, hheld], hyes⟩
  exact {
    unmarked := ha.unmarked.put _ _
    vacancies := ha.vacancies.put hrecord _
    nodup := ha.nodup
    stack_live := by
      intro other hother
      obtain ⟨held, hheld⟩ := isLive_iff.1 (ha.stack_live other hother)
      rw [isLive, hrecord?]
      split <;> simp [hheld]
    records := by
      intro other held hheld
      rw [hrecord?] at hheld
      split at hheld
      · subst other
        obtain rfl := Option.some.inj hheld
        exact hnew.mono hownsAll hcapturedAll (List.Sublist.refl _)
      · exact (ha.records other held hheld).mono hownsAll hcapturedAll (List.Sublist.refl _) }

theorem persists_put (hrecord : a.record? id = some record) (new : Record)
    (hsame : new.name = record.name ∧ new.kind = record.kind ∧ new.level = record.level ∧
      new.locked = record.locked ∧ (record.captured = true → new.captured = true))
    (other : RecordId) : a.Persists (a.put id.index new) other := by
  intro held hheld
  rw [record?_put hrecord]
  split
  · subst other
    obtain rfl : record = held := Option.some.inj (hrecord.symm.trans hheld)
    exact ⟨new, rfl, hsame⟩
  · exact ⟨held, hheld, rfl, rfl, rfl, rfl, fun hyes => hyes⟩

/-! ## Names -/

theorem Sound.define (ha : a.Sound usable stack) (hrecord : a.record? id = some record)
    (name : String) {value : Value} (hvalue : usable value) :
    (a.put id.index (record.bind name (.value value))).Sound usable stack := by
  refine ha.put hrecord _ ((ha.records id record hrecord).bind_value name hvalue)
    (fun other found hbound => ?_) fun hyes => hyes
  rw [Record.member?, Record.bind, (ha.records id record hrecord).valid.find?_set]
  split
  · exact ⟨value, rfl⟩
  · exact ⟨found, hbound⟩

theorem persists_define (hrecord : a.record? id = some record) (name : String) (binding : Binding)
    (other : RecordId) : a.Persists (a.put id.index (record.bind name binding)) other :=
  persists_put hrecord (record.bind name binding) ⟨rfl, rfl, rfl, rfl, fun hyes => hyes⟩ other

/-- The number of records a name is followed over is enough for two steps. -/
theorem size_pos_of_record? (hrecord : a.record? id = some record) : 0 < a.slots.size := by
  obtain ⟨slot, hslot, -⟩ := record?_eq_some_iff.1 hrecord
  obtain ⟨hlt, -⟩ := Array.getElem?_eq_some_iff.1 hslot
  omega

/-- The record that owns a name as seen from a sound record is the record itself or the one it links
to at once. -/
theorem Sound.ownerOf_eq (ha : a.Sound usable stack) (hrecord : a.record? id = some record)
    (name : String) :
    a.ownerOf id name = match record.member? name with
      | none => .error (.undefinedName name)
      | some (.value _) => .ok id
      | some (.link owner) => .ok owner := by
  -- There is a slot, so the bound on the links is at least two.
  obtain ⟨size, hsize⟩ : ∃ size, a.slots.size + 1 = size + 1 + 1 :=
    ⟨a.slots.size - 1, by have := size_pos_of_record? hrecord; omega⟩
  rw [ownerOf, hsize, ownerWithin, get_of_record? hrecord]
  simp only [bind, Except.bind]
  cases hbound : record.member? name with
  | none => rfl
  | some binding =>
      cases binding with
      | value value => rfl
      | link owner =>
          obtain ⟨held, value, hheld, hvalue⟩ := (ha.records id record hrecord).owned _ _ hbound
          simp [ownerWithin, get_of_record? hheld, hvalue, bind, Except.bind]

/-- What a name stands for as seen from a sound record. -/
theorem Sound.lookup_eq (ha : a.Sound usable stack) (hrecord : a.record? id = some record)
    (name : String) :
    (record.member? name = none ∧ a.lookup id name = .error (.undefinedName name)) ∨
    (∃ value, record.member? name = some (.value value) ∧ a.lookup id name = .ok value) ∨
    ∃ owner held value, record.member? name = some (.link owner) ∧ a.record? owner = some held ∧
      held.member? name = some (.value value) ∧ a.lookup id name = .ok value := by
  have howner := ha.ownerOf_eq hrecord name
  cases hbound : record.member? name with
  | none =>
      simp only [hbound] at howner
      exact .inl ⟨rfl, by simp [lookup, howner, bind, Except.bind]⟩
  | some binding =>
      cases binding with
      | value value =>
          simp only [hbound] at howner
          refine .inr (.inl ⟨value, rfl, ?_⟩)
          simp [lookup, howner, get_of_record? hrecord, hbound, bind, Except.bind]
      | link owner =>
          simp only [hbound] at howner
          obtain ⟨held, value, hheld, hvalue⟩ := (ha.records id record hrecord).owned _ _ hbound
          refine .inr (.inr ⟨owner, held, value, rfl, hheld, hvalue, ?_⟩)
          simp [lookup, howner, get_of_record? hheld, hvalue, bind, Except.bind]

/-- Assigning binds the value in the record itself, or in the owner to which it links the name;
a lock on either stands in the way. -/
theorem Sound.assign_eq (ha : a.Sound usable stack) (hrecord : a.record? id = some record)
    (name : String) (value : Value) :
    (record.locked = true ∧ a.assign id name value = (.ok (), a)) ∨
    (record.locked = false ∧ (∀ owner, record.member? name ≠ some (.link owner)) ∧
      a.assign id name value = (.ok (), a.put id.index (record.bind name (.value value)))) ∨
    ∃ owner held, record.locked = false ∧ record.member? name = some (.link owner) ∧
      a.record? owner = some held ∧
      a.assign id name value =
        (.ok (), if held.locked then a else a.put owner.index (held.bind name (.value value))) := by
  -- As for `ownerOf_eq`, two steps are enough: a link leads to an owner.
  obtain ⟨size, hsize⟩ : ∃ size, a.slots.size + 1 = size + 1 + 1 :=
    ⟨a.slots.size - 1, by have := size_pos_of_record? hrecord; omega⟩
  have hassign : a.assign id name value = a.assignWithin name value (size + 1 + 1) id := by
    rw [assign, hsize]
  rw [hassign, assignWithin, get_of_record? hrecord]
  by_cases hlocked : record.locked = true
  · exact .inl ⟨hlocked, by simp [hlocked]⟩
  · have hunlocked : record.locked = false := by simpa using hlocked
    simp only [if_neg hlocked]
    cases hbound : record.member? name with
    | none => exact .inr (.inl ⟨hunlocked, by simp, rfl⟩)
    | some binding =>
        cases binding with
        | value found => exact .inr (.inl ⟨hunlocked, by simp, rfl⟩)
        | link owner =>
            obtain ⟨held, found, hheld, hvalue⟩ := (ha.records id record hrecord).owned _ _ hbound
            refine .inr (.inr ⟨owner, held, hunlocked, rfl, hheld, ?_⟩)
            by_cases hownerLocked : held.locked = true <;>
              simp [assignWithin, get_of_record? hheld, hvalue, hownerLocked]

theorem Sound.assign (ha : a.Sound usable stack) (hrecord : a.record? id = some record)
    (name : String) {value : Value} (hvalue : usable value) :
    (a.assign id name value).1 = .ok () ∧ (a.assign id name value).2.Sound usable stack ∧
      ∀ other, a.Persists (a.assign id name value).2 other := by
  rcases ha.assign_eq hrecord name value with
    ⟨-, hassign⟩ | ⟨-, -, hassign⟩ | ⟨owner, held, -, -, hheld, hassign⟩
  · rw [hassign]
    exact ⟨rfl, ha, Persists.refl a⟩
  · rw [hassign]
    exact ⟨rfl, ha.define hrecord name hvalue, persists_define hrecord name _⟩
  · rw [hassign]
    refine ⟨rfl, ?_⟩
    dsimp only
    split
    · exact ⟨ha, Persists.refl a⟩
    · exact ⟨ha.define hheld name hvalue, persists_define hheld name _⟩

end ScopeArena

end ScriptCore
