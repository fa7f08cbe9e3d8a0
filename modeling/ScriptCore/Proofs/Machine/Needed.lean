import ScriptCore.Proofs.Machine.Sound

/-!
# What a collection should keep

A program pauses after each of its expressions for a collection.  What is still needed then can be
come to from the open scopes, from the value of the expression and from the literals of the
expressions that are still to be evaluated.  Besides the steps of the collector there are three that
it does not take: from a function to the defaults of its parameters, from a function to the literals
in its body, and from a module to the defaults of its template (`Overlooks`).

So a collection keeps what is needed if and only if everything that is needed is also reached by the
collector's own steps (`Pause.keepsNeeded_iff_covers`).  Then the machine is sound afterwards for
the values that remain (`Pause.Fit.sound_collected`).
-/

namespace ScriptCore

/-- A value gives access to another one that the collector does not look at. -/
inductive Overlooks (h : Heap) : Value → Value → Prop
  | parameter {address : Address} {name : String} {value : Value}
      (hmem : (name, .value value) ∈ (h.function address).parameters.entries) :
      Overlooks h (.function address) value
  | literal {address : Address} {scope : RecordId} {body : Expr} {value : Value}
      (hcallable : (h.function address).callable = .closure scope body)
      (hmentions : body.Mentions value) : Overlooks h (.function address) value
  | template {address : Address} {template : Parameters} {name : String} {value : Value}
      (htemplate : (h.module address).template = some template)
      (hmem : (name, .value value) ∈ template.entries) : Overlooks h (.module address) value

/-- A point at which a program is about to collect: the machine, the value of the last expression
and the expressions that are still to be evaluated. -/
structure Pause where
  machine : Machine
  value : Value
  later : List Expr

/-- A record is live, and a value is usable. -/
def WorkItem.Available (usable : Value → Prop) (a : ScopeArena) : WorkItem → Prop
  | .record id => a.isLive id = true
  | .value held => usable held

namespace Pause

variable {p : Pause} {usable : Value → Prop}

/-- The machine after the collection. -/
def collected (p : Pause) : Machine :=
  (Machine.collect [p.value] p.machine).2

/-- What the collector reaches. -/
abbrev Reached (p : Pause) : WorkItem → Prop :=
  ScriptCore.Reached p.machine.arena p.machine.heap p.machine.stack.records.toList [p.value]

/-- What can still be come to. -/
inductive Needed (p : Pause) : WorkItem → Prop
  | scope {id : RecordId} (hopen : id ∈ p.machine.stack.records.toList) : p.Needed (.record id)
  | value : p.Needed (.value p.value)
  | literal {expr : Expr} {value : Value} (hexpr : expr ∈ p.later)
      (hmentions : expr.Mentions value) : p.Needed (.value value)
  | step {item next : WorkItem} (hneeded : p.Needed item)
      (hleads : Leads p.machine.arena p.machine.heap item next) : p.Needed next
  | overlooked {holder value : Value} (hneeded : p.Needed (.value holder))
      (hoverlooks : Overlooks p.machine.heap holder value) : p.Needed (.value value)

/-- The collector reaches every live record that is needed. -/
def Covers (p : Pause) : Prop :=
  ∀ id, p.machine.arena.isLive id = true → p.Needed (.record id) → p.Reached (.record id)

/-- The collection frees no record that is needed. -/
def KeepsNeeded (p : Pause) : Prop :=
  ∀ id, p.machine.arena.isLive id = true → p.Needed (.record id) →
    p.collected.arena.isLive id = true

/-- The machine is sound, and the value and the literals to come are usable. -/
structure Fit (usable : Value → Prop) (p : Pause) : Prop where
  sound : p.machine.Sound usable
  value : usable p.value
  later : ∀ expr ∈ p.later, expr.Fit usable

/-- A value is needed, or nothing was made at its address. -/
def Remains (p : Pause) (value : Value) : Prop :=
  p.machine.heap.Made value → p.Needed (.value value)

theorem needed_of_reached {item : WorkItem} (hreached : p.Reached item) : p.Needed item := by
  induction hreached with
  | scope hmem => exact .scope hmem
  | root hmem =>
      obtain rfl := List.mem_singleton.1 hmem
      exact .value
  | step _ hleads ih => exact ih.step hleads

theorem keepsNeeded_iff_covers (hp : p.Fit usable) : p.KeepsNeeded ↔ p.Covers := by
  have hkept := fun id => ScopeArena.isLive_collect_iff hp.sound.arena.unmarked p.machine.heap
    p.machine.stack.records.toList [p.value] id
  constructor
  · intro hkeeps id hlive hneeded
    exact ((hkept id).1 (hkeeps id hlive hneeded)).2
  · intro hcovers id hlive hneeded
    exact (hkept id).2 ⟨hlive, hcovers id hlive hneeded⟩

/-! ## Where nothing was made nothing is found -/

theorem made_of_leads {a : ScopeArena} {h : Heap} {value : Value} {next : WorkItem}
    (hleads : Leads a h (.value value) next) : h.Made value := by
  by_contra hnot
  -- Where nothing was made stands an empty container, or a function that counts its arguments.
  cases hleads with
  | scope hcallable =>
      rw [h.function_of_not_made hnot] at hcallable
      cases hcallable
  | receiver hcallable =>
      rw [h.function_of_not_made hnot] at hcallable
      cases hcallable
  | element hmem =>
      rw [h.list_of_not_made hnot] at hmem
      cases hmem
  | key hmem =>
      rw [h.dict_of_not_made hnot] at hmem
      cases hmem
  | entry hmem =>
      rw [h.dict_of_not_made hnot] at hmem
      cases hmem
  | attributeValue hmem =>
      rw [h.module_of_not_made hnot] at hmem
      cases hmem
  | fieldValue hmem =>
      rw [h.struct_of_not_made hnot] at hmem
      cases hmem

theorem made_of_overlooks {h : Heap} {holder value : Value}
    (hoverlooks : Overlooks h holder value) :
    h.Made holder := by
  by_contra hnot
  cases hoverlooks with
  | parameter hmem =>
      rw [h.function_of_not_made hnot] at hmem
      cases hmem
  | literal hcallable =>
      rw [h.function_of_not_made hnot] at hcallable
      cases hcallable
  | template htemplate =>
      rw [h.module_of_not_made hnot] at htemplate
      cases htemplate

theorem Remains.leads {holder value : Value} (hholder : p.Remains holder)
    (hleads : Leads p.machine.arena p.machine.heap (.value holder) (.value value)) :
    p.Remains value :=
  fun _ => (hholder (made_of_leads hleads)).step hleads

theorem Remains.overlooks {holder value : Value} (hholder : p.Remains holder)
    (hoverlooks : Overlooks p.machine.heap holder value) : p.Remains value :=
  fun _ => (hholder (made_of_overlooks hoverlooks)).overlooked hoverlooks

/-! ## What is needed is there -/

/-- What the items of a sound machine lead to is live or usable as well. -/
theorem available_of_leads {m : Machine} (hm : m.Sound usable) {item next : WorkItem}
    (hitem : item.Available usable m.arena) (hleads : Leads m.arena m.heap item next) :
    next.Available usable m.arena := by
  cases hleads with
  | link hlive hmem =>
      have hrecord := hm.arena.records _ _ hlive
      -- A link leads to a record that owns the name, which is therefore live.
      obtain ⟨name, hlink⟩ := hrecord.valid.mem_values_iff.1 hmem
      exact (hrecord.owned name _ hlink).isLive
  | member hlive hmem =>
      have hrecord := hm.arena.records _ _ hlive
      obtain ⟨name, hbound⟩ := hrecord.valid.mem_values_iff.1 hmem
      exact hrecord.usable name _ hbound
  | scope hcallable => exact ((hm.heap.function _ hitem).scope _ _ hcallable).isLive
  | receiver hcallable => exact (hm.heap.function _ hitem).receiver _ hcallable
  | element hmem =>
      obtain ⟨items, hitems, hall⟩ := hm.heap.list _ hitem
      exact hall _ (hitems.toList_eq ▸ hmem)
  | key hmem => exact (DictTable.Sound.usable_of_mem (hm.heap.dict _ hitem)).1 _ hmem
  | entry hmem => exact (DictTable.Sound.usable_of_mem (hm.heap.dict _ hitem)).2.1 _ hmem
  | attributeValue hmem => exact (hm.heap.module _ hitem).attributes _ hmem
  | fieldValue hmem => exact (hm.heap.struct _ hitem).2 _ hmem

theorem usable_of_overlooks {h : Heap} {captured : RecordId → Prop} (hh : h.Sound usable captured)
    {holder value : Value} (hholder : usable holder) (hoverlooks : Overlooks h holder value) :
    usable value := by
  cases hoverlooks with
  | parameter hmem => exact (hh.function _ hholder).parameters.defaults _ _ hmem
  | literal hcallable hmentions => exact (hh.function _ hholder).body _ _ hcallable _ hmentions
  | template htemplate hmem => exact ((hh.module _ hholder).template _ htemplate).defaults _ _ hmem

theorem Fit.available_of_needed (hp : p.Fit usable) {item : WorkItem} (hneeded : p.Needed item) :
    item.Available usable p.machine.arena := by
  induction hneeded with
  | scope hopen => exact hp.sound.arena.stack_live _ hopen
  | value => exact hp.value
  | literal hexpr hmentions => exact hp.later _ hexpr _ hmentions
  | step _ hleads ih => exact available_of_leads hp.sound ih hleads
  | overlooked _ hoverlooks ih => exact usable_of_overlooks hp.sound.heap ih hoverlooks

theorem Fit.usable_of_remains (hp : p.Fit usable) {value : Value} (hvalue : p.Remains value) :
    usable value := by
  -- What was not made is usable anyway, and nothing stands there.
  by_cases hmade : p.machine.heap.Made value
  · exact hp.available_of_needed (hvalue hmade)
  · exact hp.sound.heap.unmade value hmade

/-! ## After the collection -/

/-- The scope of a function that remains was not freed. -/
theorem Fit.captured_collected (hp : p.Fit usable) (hcovers : p.Covers) {address : Address}
    (hremains : p.Remains (.function address)) {scope : RecordId} {body : Expr}
    (hcallable : (p.machine.heap.function address).callable = .closure scope body) :
    p.collected.arena.Captured scope := by
  have hleads : Leads p.machine.arena p.machine.heap (.value (.function address)) (.record scope) :=
    .scope hcallable
  have hfunction := hp.sound.heap.function address (hp.usable_of_remains hremains)
  obtain ⟨record, hrecord, hyes⟩ := hfunction.scope scope body hcallable
  have hreached : p.Reached (.record scope) :=
    hcovers scope (ScopeArena.isLive_of_record? hrecord)
      ((hremains (made_of_leads hleads)).step hleads)
  -- A reached record survives as it was.
  have hkept := ScopeArena.record?_collect_of_reached hp.sound.arena.unmarked hreached
  exact ⟨record, hkept.trans hrecord, hyes⟩

theorem Fit.heap_collected (hp : p.Fit usable) (hcovers : p.Covers) :
    p.collected.heap.Sound p.Remains p.collected.arena.Captured where
  unmade value hvalue hmade := absurd hmade hvalue
  list address haddress := by
    obtain ⟨items, hitems, -⟩ := hp.sound.heap.list address (hp.usable_of_remains haddress)
    exact ⟨items, hitems, fun value hvalue =>
      haddress.leads (.element (hitems.toList_eq.symm ▸ hvalue))⟩
  dict address haddress := by
    obtain ⟨rows, hrows, -⟩ := hp.sound.heap.dict address (hp.usable_of_remains haddress)
    refine ⟨rows, hrows, fun row hrow => ⟨haddress.leads (.key ?_), haddress.leads (.entry ?_)⟩⟩
    · rw [hrows.rawKeys_eq]
      exact List.mem_map.2 ⟨row, hrow, rfl⟩
    · rw [hrows.values_eq]
      exact List.mem_map.2 ⟨row, hrow, rfl⟩
  module address haddress := by
    have hmodule := hp.sound.heap.module address (hp.usable_of_remains haddress)
    exact {
      valid := hmodule.valid
      attributes := fun value hvalue => haddress.leads (.attributeValue hvalue)
      template := fun template htemplate => {
        valid := (hmodule.template template htemplate).valid
        defaults := fun name value hmem => haddress.overlooks (.template htemplate hmem) } }
  struct address haddress := by
    have hstruct := hp.sound.heap.struct address (hp.usable_of_remains haddress)
    exact ⟨hstruct.1, fun value hvalue => haddress.leads (.fieldValue hvalue)⟩
  function address haddress := by
    have hfunction := hp.sound.heap.function address (hp.usable_of_remains haddress)
    exact {
      parameters := {
        valid := hfunction.parameters.valid
        defaults := fun name value hmem => haddress.overlooks (.parameter hmem) }
      scope := fun scope body hcallable => hp.captured_collected hcovers haddress hcallable
      body := fun scope body hcallable value hmentions =>
        haddress.overlooks (.literal hcallable hmentions)
      receiver := fun receiver hcallable => haddress.leads (.receiver hcallable)
      host := hfunction.host }

/-- A collection that covers what is needed leaves a sound machine for the values that remain. -/
theorem Fit.sound_collected (hp : p.Fit usable) (hcovers : p.Covers) :
    p.collected.Sound p.Remains where
  arena := hp.sound.arena.collect fun _ hreached _ => needed_of_reached hreached
  heap := hp.heap_collected hcovers
  base := hp.sound.base

theorem fit_later {expr : Expr} (hexpr : expr ∈ p.later) : expr.Fit p.Remains :=
  fun _ hmentions _ => .literal hexpr hmentions

/-! ## When nothing is overlooked -/

/-- A collection that frees nothing covers what is needed. -/
theorem Fit.covers_of_frees_nothing (hp : p.Fit usable)
    (hnone : (p.machine.arena.collect p.machine.heap p.machine.stack.records.toList
      [p.value]).1 = 0) :
    p.Covers :=
  fun _ hlive _ => ScopeArena.reached_of_collect_eq_zero hp.sound.arena.unmarked hnone hlive

end Pause

end ScriptCore
