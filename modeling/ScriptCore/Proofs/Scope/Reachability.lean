import ScriptCore.Scope.Collector

/-!
# What the collector can reach

The collector walks over two graphs at once: the records, which are linked to each other and hold
values, and the containers, which hold values too.  `Leads` says what one step of the walk can be,
`Reached` what any number of steps from the open scopes and the held values can come to.

A dead record leads nowhere, and so does an address at which nothing was made.

Both are relations, with no walk in them and no order, so they can be read without knowing how the
collector goes about it.  That the collector marks just what is reached is shown in
`ScriptCore.Proofs.Scope.Marking`, and that it keeps just that in
`ScriptCore.Proofs.Scope.Collection`.  `Reached.mono` compares arenas: what is reached depends on
the records that are reached alone.
-/

namespace ScriptCore

/-- What an item leads to in one step: a record to the records it links to and to the values bound
in it, a function to the scope it was defined in and to the container it is bound to, a container
to what is in it. -/
inductive Leads (a : ScopeArena) (h : Heap) : WorkItem → WorkItem → Prop
  | link {id owner : RecordId} {record : Record} (hlive : a.record? id = some record)
      (hmem : .link owner ∈ record.members.values) : Leads a h (.record id) (.record owner)
  | member {id : RecordId} {record : Record} {value : Value} (hlive : a.record? id = some record)
      (hmem : .value value ∈ record.members.values) : Leads a h (.record id) (.value value)
  | scope {address : Address} {scope : RecordId} {body : Expr}
      (hcallable : (h.function address).callable = .closure scope body) :
      Leads a h (.value (.function address)) (.record scope)
  | receiver {address : Address} {receiver : Value}
      (hcallable : (h.function address).callable.receiver? = some receiver) :
      Leads a h (.value (.function address)) (.value receiver)
  | element {address : Address} {value : Value} (hmem : value ∈ (h.list address).toList) :
      Leads a h (.value (.list address)) (.value value)
  | key {address : Address} {value : Value} (hmem : value ∈ (h.dict address).rawKeys.toList) :
      Leads a h (.value (.dict address)) (.value value)
  | entry {address : Address} {value : Value} (hmem : value ∈ (h.dict address).values.toList) :
      Leads a h (.value (.dict address)) (.value value)
  | attributeValue {address : Address} {value : Value}
      (hmem : value ∈ (h.module address).attributes.values) :
      Leads a h (.value (.module address)) (.value value)
  | fieldValue {address : Address} {value : Value}
      (hmem : value ∈ (h.struct address).fields.values) :
      Leads a h (.value (.struct address)) (.value value)

/-- What the given scopes and values lead to in any number of steps. -/
inductive Reached (a : ScopeArena) (h : Heap) (scopes : List RecordId) (roots : List Value) :
    WorkItem → Prop
  | scope {id : RecordId} (hmem : id ∈ scopes) : Reached a h scopes roots (.record id)
  | root {value : Value} (hmem : value ∈ roots) : Reached a h scopes roots (.value value)
  | step {item next : WorkItem} (hreached : Reached a h scopes roots item)
      (hleads : Leads a h item next) : Reached a h scopes roots next

variable {a : ScopeArena} {h : Heap}

/-! ## The steps of the walk are those of the relation -/

theorem leads_of_mem_items {id : RecordId} {record : Record} {item : WorkItem}
    (hlive : a.record? id = some record) (hmem : item ∈ record.items) :
    Leads a h (.record id) item := by
  obtain ⟨binding, hbinding, rfl⟩ := List.mem_map.1 hmem
  cases binding with
  | value value => exact .member hlive hbinding
  | link owner => exact .link hlive hbinding

theorem leads_of_mem_contents {value inner : Value} {container : Container}
    (hcontainer : Heap.container? value = some container) (hmem : inner ∈ h.contents container) :
    Leads a h (.value value) (.value inner) := by
  cases value <;> simp only [Heap.container?, Option.some.injEq, reduceCtorEq] at hcontainer <;>
    subst hcontainer <;> simp only [Heap.contents] at hmem
  case list => exact .element hmem
  case dict =>
    rcases List.mem_append.1 hmem with hkey | hentry
    · exact .key hkey
    · exact .entry hentry
  case module => exact .attributeValue hmem
  case struct => exact .fieldValue hmem

theorem leads_of_simpleItem {value : Value} {item : WorkItem}
    (hitem : h.simpleItem? value = some item) : Leads a h (.value value) item := by
  cases value <;> simp only [Heap.simpleItem?, reduceCtorEq] at hitem
  case function address =>
    cases hcallable : (h.function address).callable <;>
      simp only [hcallable, Heap.callableItem?, Option.some.injEq, reduceCtorEq] at hitem <;>
      subst hitem
    case closure scope body => exact .scope hcallable
    case listMethod method receiver => exact .receiver (by simp [hcallable, Callable.receiver?])
    case dictMethod method receiver => exact .receiver (by simp [hcallable, Callable.receiver?])

/-- Every step from a record goes to one of its items. -/
theorem mem_items_of_leads {id : RecordId} {item : WorkItem}
    (hleads : Leads a h (.record id) item) :
    ∃ record, a.record? id = some record ∧ item ∈ record.items := by
  cases hleads with
  | link hlive hmem => exact ⟨_, hlive, List.mem_map.2 ⟨_, hmem, rfl⟩⟩
  | member hlive hmem => exact ⟨_, hlive, List.mem_map.2 ⟨_, hmem, rfl⟩⟩

/-- Every step from a value goes into the container that it is, or to what the value leads to
without being a container. -/
theorem content_or_simpleItem_of_leads {value : Value} {item : WorkItem}
    (hleads : Leads a h (.value value) item) :
    (∃ container inner, Heap.container? value = some container ∧ inner ∈ h.contents container ∧
      item = .value inner) ∨
    (Heap.container? value = none ∧ h.simpleItem? value = some item) := by
  cases hleads with
  | scope hcallable =>
      exact .inr ⟨rfl, by simp [Heap.simpleItem?, hcallable, Heap.callableItem?]⟩
  | @receiver address receiver hcallable =>
      refine .inr ⟨rfl, ?_⟩
      cases hcase : (h.function address).callable <;>
        simp_all [Heap.simpleItem?, Callable.receiver?, Heap.callableItem?]
  | element hmem => exact .inl ⟨_, _, rfl, hmem, rfl⟩
  | key hmem => exact .inl ⟨_, _, rfl, List.mem_append_left _ hmem, rfl⟩
  | entry hmem => exact .inl ⟨_, _, rfl, List.mem_append_right _ hmem, rfl⟩
  | attributeValue hmem => exact .inl ⟨_, _, rfl, hmem, rfl⟩
  | fieldValue hmem => exact .inl ⟨_, _, rfl, hmem, rfl⟩

/-! ## Arenas in which the same records are reached -/

/-- A step stays a step in an arena in which the record it starts from is the same. -/
theorem Leads.mono {b : ScopeArena} {item next : WorkItem} (hleads : Leads a h item next)
    (hsame : ∀ id, item = .record id → b.record? id = a.record? id) : Leads b h item next := by
  cases hleads with
  | link hlive hmem => exact .link ((hsame _ rfl).trans hlive) hmem
  | member hlive hmem => exact .member ((hsame _ rfl).trans hlive) hmem
  | scope hcallable => exact .scope hcallable
  | receiver hcallable => exact .receiver hcallable
  | element hmem => exact .element hmem
  | key hmem => exact .key hmem
  | entry hmem => exact .entry hmem
  | attributeValue hmem => exact .attributeValue hmem
  | fieldValue hmem => exact .fieldValue hmem

/-- Whatever is reached stays reached in an arena in which the reached records are the same. -/
theorem Reached.mono {b : ScopeArena} {scopes : List RecordId} {roots : List Value}
    {item : WorkItem} (hreached : Reached a h scopes roots item)
    (hsame : ∀ id, Reached a h scopes roots (.record id) → b.record? id = a.record? id) :
    Reached b h scopes roots item := by
  induction hreached with
  | scope hmem => exact .scope hmem
  | root hmem => exact .root hmem
  | step hbefore hleads ih =>
      refine .step ih (hleads.mono ?_)
      rintro id rfl
      exact hsame id hbefore

end ScriptCore
