import ScriptCore.Heap
import ScriptCore.Proofs.Literals
import ScriptCore.Proofs.NameTable

/-!
# When the values in the heap can be used

After a collection the heap may hold functions whose scopes are gone; they do no harm as long as
nothing leads to them.  `Heap.Sound usable captured h` is about the values that can still be used:
whatever is in a usable container is usable, and a usable function was defined in a captured scope
and has usable defaults and literals.  Things that are made later are usable from the beginning.

What counts as usable is a parameter, because a collection narrows it to what was reached.
`Sound.change` is the one lemma by which operations are shown to keep a heap sound: each thing is as
it was before or satisfies its condition anew.
-/

namespace ScriptCore

/-- The defaults of parameters are usable. -/
structure Parameters.Fit (usable : Value → Prop) (p : Parameters) : Prop where
  valid : p.table.Valid
  defaults : ∀ name value, (name, .value value) ∈ p.entries → usable value

/-- A function that can be called: its scope is captured, and its literals, its defaults and its
receiver are usable.  Of the routines of the host only the one that counts its arguments is
allowed; it stands wherever no function was made. -/
structure Function.Sound (usable : Value → Prop) (captured : RecordId → Prop) (f : Function) :
    Prop where
  parameters : f.parameters.Fit usable
  scope : ∀ scope body, f.callable = .closure scope body → captured scope
  body : ∀ scope body, f.callable = .closure scope body → body.Fit usable
  receiver : ∀ receiver, f.callable.receiver? = some receiver → usable receiver
  host : ∀ routine, f.callable = .host routine → routine = .count

/-- A module whose attributes and template are usable. -/
structure Module.Sound (usable : Value → Prop) (module : Module) : Prop where
  valid : module.attributes.Valid
  attributes : ∀ value ∈ module.attributes.values, usable value
  template : ∀ template, module.template = some template → template.Fit usable

namespace Heap

/-- A value is the address of something that was made. -/
def Made (h : Heap) : Value → Prop
  | .list address => address < h.lists.size
  | .dict address => address < h.dicts.size
  | .module address => address < h.modules.size
  | .struct address => address < h.structs.size
  | .function address => address < h.functions.size
  | _ => False

/-- Nothing is taken out of a heap. -/
structure Grows (h h' : Heap) : Prop where
  lists : h.lists.size ≤ h'.lists.size
  dicts : h.dicts.size ≤ h'.dicts.size
  modules : h.modules.size ≤ h'.modules.size
  structs : h.structs.size ≤ h'.structs.size
  functions : h.functions.size ≤ h'.functions.size

theorem Grows.made {h h' : Heap} (hgrows : h.Grows h') {value : Value} (hmade : h.Made value) :
    h'.Made value := by
  cases value with
  | list address => exact Nat.lt_of_lt_of_le hmade hgrows.lists
  | dict address => exact Nat.lt_of_lt_of_le hmade hgrows.dicts
  | module address => exact Nat.lt_of_lt_of_le hmade hgrows.modules
  | struct address => exact Nat.lt_of_lt_of_le hmade hgrows.structs
  | function address => exact Nat.lt_of_lt_of_le hmade hgrows.functions
  | _ => exact hmade

/-- What can be used leads only to what can be used. -/
structure Sound (usable : Value → Prop) (captured : RecordId → Prop) (h : Heap) : Prop where
  unmade : ∀ value, ¬ h.Made value → usable value
  list : ∀ address, usable (.list address) →
    ∃ items, (h.list address).Holds items ∧ ∀ value ∈ items, usable value
  dict : ∀ address, usable (.dict address) →
    ∃ rows, (h.dict address).Holds hashText rows ∧
      ∀ row ∈ rows, usable row.rawKey ∧ usable row.value
  module : ∀ address, usable (.module address) → (h.module address).Sound usable
  struct : ∀ address, usable (.struct address) →
    (h.struct address).fields.Valid ∧ ∀ value ∈ (h.struct address).fields.values, usable value
  function : ∀ address, usable (.function address) → (h.function address).Sound usable captured

end Heap

/-! ## The heap without anything in it -/

theorem Parameters.fit_empty {usable : Value → Prop} : Parameters.empty.Fit usable :=
  ⟨NameTable.valid_empty, fun _ _ hmem => absurd hmem List.not_mem_nil⟩

theorem Function.sound_default {usable : Value → Prop} {captured : RecordId → Prop} :
    (default : Function).Sound usable captured where
  parameters := Parameters.fit_empty
  scope _ _ hcallable := nomatch hcallable
  body _ _ hcallable := nomatch hcallable
  receiver _ hcallable := nomatch hcallable
  host _ hcallable := (Callable.host.inj hcallable).symm

theorem Function.Sound.mono {usable : Value → Prop} {captured captured' : RecordId → Prop}
    {f : Function}
    (hf : f.Sound usable captured) (hcaptured : ∀ id, captured id → captured' id) :
    f.Sound usable captured' :=
  { hf with scope := fun scope body hcallable => hcaptured scope (hf.scope scope body hcallable) }

theorem Module.sound_default {usable : Value → Prop} : (default : Module).Sound usable where
  valid := NameTable.valid_empty
  attributes _ hmem := absurd hmem List.not_mem_nil
  template _ htemplate := nomatch htemplate

namespace Heap

variable {usable : Value → Prop} {captured : RecordId → Prop} {h : Heap}

theorem sound_empty (husable : ∀ value, usable value) : Heap.empty.Sound usable captured where
  unmade value _ := husable value
  list _ _ := ⟨[], ResizableArray.holds_empty, by simp⟩
  dict _ _ := ⟨[], HashTable.holds_empty, by simp⟩
  module _ _ := Module.sound_default
  struct _ _ := ⟨NameTable.valid_empty, fun _ hmem => absurd hmem List.not_mem_nil⟩
  function _ _ := Function.sound_default

/-! ## Addresses at which nothing was made -/

private theorem getD_of_le {α : Type} (store : Array α) {address : Nat}
    (hle : ¬ address < store.size)
    (other : α) : store.getD address other = other := by
  rw [Array.getD_eq_getD_getElem?, Array.getElem?_eq_none (Nat.le_of_not_lt hle), Option.getD_none]

variable (h) {address : Address}

theorem list_of_not_made (hnot : ¬ h.Made (.list address)) : h.list address = .empty :=
  getD_of_le h.lists hnot .empty

theorem dict_of_not_made (hnot : ¬ h.Made (.dict address)) : h.dict address = .empty :=
  getD_of_le h.dicts hnot .empty

theorem module_of_not_made (hnot : ¬ h.Made (.module address)) : h.module address = default :=
  getD_of_le h.modules hnot default

theorem struct_of_not_made (hnot : ¬ h.Made (.struct address)) : h.struct address = default :=
  getD_of_le h.structs hnot default

theorem function_of_not_made (hnot : ¬ h.Made (.function address)) : h.function address = default :=
  getD_of_le h.functions hnot default

variable {h}

/-! ## Heaps that stay sound -/

/-- A heap stays sound if everything that was made stays and whatever is exchanged or made anew is
sound. -/
theorem Sound.change (hh : h.Sound usable captured) {h' : Heap}
    (hgrows : h.Grows h')
    (hlist : ∀ address, h'.list address = h.list address ∨
      ∃ items, (h'.list address).Holds items ∧ ∀ value ∈ items, usable value)
    (hdict : ∀ address, h'.dict address = h.dict address ∨
      ∃ rows, (h'.dict address).Holds hashText rows ∧
        ∀ row ∈ rows, usable row.rawKey ∧ usable row.value)
    (hmodule : ∀ address, h'.module address = h.module address ∨
      (h'.module address).Sound usable)
    (hstruct : ∀ address, h'.struct address = h.struct address ∨
      (h'.struct address).fields.Valid ∧
        ∀ value ∈ (h'.struct address).fields.values, usable value)
    (hfunction : ∀ address, h'.function address = h.function address ∨
      (h'.function address).Sound usable captured) :
    h'.Sound usable captured where
  unmade value hvalue := hh.unmade value fun hbefore => hvalue (hgrows.made hbefore)
  list address haddress := (hlist address).elim
    (fun hsame => hsame ▸ hh.list address haddress) fun hnew => hnew
  dict address haddress := (hdict address).elim
    (fun hsame => hsame ▸ hh.dict address haddress) fun hnew => hnew
  module address haddress := (hmodule address).elim
    (fun hsame => hsame ▸ hh.module address haddress) fun hnew => hnew
  struct address haddress := (hstruct address).elim
    (fun hsame => hsame ▸ hh.struct address haddress) fun hnew => hnew
  function address haddress := (hfunction address).elim
    (fun hsame => hsame ▸ hh.function address haddress) fun hnew => hnew

theorem Sound.mono {captured' : RecordId → Prop} (hh : h.Sound usable captured)
    (hcaptured : ∀ id, captured id → captured' id) : h.Sound usable captured' :=
  { hh with function := fun address haddress => (hh.function address haddress).mono hcaptured }

private theorem getD_setIfInBounds {α : Type} (xs : Array α) (i j : Nat) (x fallback : α) :
    (xs.setIfInBounds i x).getD j fallback = xs.getD j fallback ∨
      (xs.setIfInBounds i x).getD j fallback = x := by
  simp only [Array.getD_eq_getD_getElem?, Array.getElem?_setIfInBounds]
  grind

private theorem getD_push {α : Type} (xs : Array α) (j : Nat) (x fallback : α) :
    (xs.push x).getD j fallback = xs.getD j fallback ∨ (xs.push x).getD j fallback = x := by
  simp only [Array.getD_eq_getD_getElem?, Array.getElem?_push]
  grind

theorem Sound.setList (hh : h.Sound usable captured) (address : Address)
    {array : ResizableArray Value} {items : List Value} (harray : array.Holds items)
    (hitems : ∀ value ∈ items, usable value) : (h.setList address array).Sound usable captured := by
  refine hh.change ?_ (fun other => ?_) (fun _ => .inl rfl) (fun _ => .inl rfl)
    (fun _ => .inl rfl) (fun _ => .inl rfl)
  · exact ⟨by simp [Heap.setList], Nat.le_refl _, Nat.le_refl _, Nat.le_refl _, Nat.le_refl _⟩
  · refine (getD_setIfInBounds h.lists address other array .empty).imp_right fun hnew => ?_
    exact ⟨items, by rwa [Heap.list, Heap.setList, hnew], hitems⟩

theorem Sound.setDict (hh : h.Sound usable captured) (address : Address) {table : DictTable}
    {rows : List (ChainEntry Value Value)} (htable : table.Holds hashText rows)
    (hrows : ∀ row ∈ rows, usable row.rawKey ∧ usable row.value) :
    (h.setDict address table).Sound usable captured := by
  refine hh.change ?_ (fun _ => .inl rfl) (fun other => ?_) (fun _ => .inl rfl)
    (fun _ => .inl rfl) (fun _ => .inl rfl)
  · exact ⟨Nat.le_refl _, by simp [Heap.setDict], Nat.le_refl _, Nat.le_refl _, Nat.le_refl _⟩
  · refine (getD_setIfInBounds h.dicts address other table .empty).imp_right fun hnew => ?_
    exact ⟨rows, by rwa [Heap.dict, Heap.setDict, hnew], hrows⟩

theorem Sound.setModule (hh : h.Sound usable captured) (address : Address) {content : Module}
    (hcontent : content.Sound usable) : (h.setModule address content).Sound usable captured := by
  refine hh.change ?_ (fun _ => .inl rfl) (fun _ => .inl rfl) (fun other => ?_)
    (fun _ => .inl rfl) (fun _ => .inl rfl)
  · exact ⟨Nat.le_refl _, Nat.le_refl _, by simp [Heap.setModule], Nat.le_refl _, Nat.le_refl _⟩
  · refine (getD_setIfInBounds h.modules address other content default).imp_right fun hnew => ?_
    rwa [Heap.module, Heap.setModule, hnew]

theorem Sound.setStruct (hh : h.Sound usable captured) (address : Address)
    {content : StructInstance} (hvalid : content.fields.Valid)
    (hfields : ∀ value ∈ content.fields.values, usable value) :
    (h.setStruct address content).Sound usable captured := by
  refine hh.change ?_ (fun _ => .inl rfl) (fun _ => .inl rfl) (fun _ => .inl rfl)
    (fun other => ?_) (fun _ => .inl rfl)
  · exact ⟨Nat.le_refl _, Nat.le_refl _, Nat.le_refl _, by simp [Heap.setStruct], Nat.le_refl _⟩
  · refine (getD_setIfInBounds h.structs address other content default).imp_right fun hnew => ?_
    rw [Heap.struct, Heap.setStruct, hnew]
    exact ⟨hvalid, hfields⟩

theorem Sound.setFunction (hh : h.Sound usable captured) (address : Address) {content : Function}
    (hcontent : content.Sound usable captured) :
    (h.setFunction address content).Sound usable captured := by
  refine hh.change ?_ (fun _ => .inl rfl) (fun _ => .inl rfl) (fun _ => .inl rfl)
    (fun _ => .inl rfl) (fun other => ?_)
  · exact ⟨Nat.le_refl _, Nat.le_refl _, Nat.le_refl _, Nat.le_refl _, by simp [Heap.setFunction]⟩
  · refine (getD_setIfInBounds h.functions address other content default).imp_right fun hnew => ?_
    rwa [Heap.function, Heap.setFunction, hnew]

/-! ## Making things -/

theorem Sound.newList (hh : h.Sound usable captured) {items : List Value}
    (hitems : ∀ value ∈ items, usable value) :
    (h.newList items).2.Sound usable captured ∧ usable (h.newList items).1 := by
  refine ⟨hh.change ?_ (fun other => ?_) (fun _ => .inl rfl) (fun _ => .inl rfl)
    (fun _ => .inl rfl) (fun _ => .inl rfl), hh.unmade _ (Nat.lt_irrefl _)⟩
  · exact ⟨by simp [Heap.newList], Nat.le_refl _, Nat.le_refl _, Nat.le_refl _, Nat.le_refl _⟩
  · refine (getD_push h.lists other (.ofList items) .empty).imp_right fun hnew => ?_
    exact ⟨items, by rw [Heap.list, Heap.newList, hnew]; exact ResizableArray.holds_ofList _,
      hitems⟩

theorem Sound.newDict (hh : h.Sound usable captured) {table : DictTable}
    {rows : List (ChainEntry Value Value)} (htable : table.Holds hashText rows)
    (hrows : ∀ row ∈ rows, usable row.rawKey ∧ usable row.value) :
    (h.newDict table).2.Sound usable captured ∧ usable (h.newDict table).1 := by
  refine ⟨hh.change ?_ (fun _ => .inl rfl) (fun other => ?_) (fun _ => .inl rfl)
    (fun _ => .inl rfl) (fun _ => .inl rfl), hh.unmade _ (Nat.lt_irrefl _)⟩
  · exact ⟨Nat.le_refl _, by simp [Heap.newDict], Nat.le_refl _, Nat.le_refl _, Nat.le_refl _⟩
  · refine (getD_push h.dicts other table .empty).imp_right fun hnew => ?_
    exact ⟨rows, by rwa [Heap.dict, Heap.newDict, hnew], hrows⟩

theorem Sound.newStruct (hh : h.Sound usable captured) {content : StructInstance}
    (hvalid : content.fields.Valid) (hfields : ∀ value ∈ content.fields.values, usable value) :
    (h.newStruct content).2.Sound usable captured ∧ usable (h.newStruct content).1 := by
  refine ⟨hh.change ?_ (fun _ => .inl rfl) (fun _ => .inl rfl) (fun _ => .inl rfl)
    (fun other => ?_) (fun _ => .inl rfl), hh.unmade _ (Nat.lt_irrefl _)⟩
  · exact ⟨Nat.le_refl _, Nat.le_refl _, Nat.le_refl _, by simp [Heap.newStruct], Nat.le_refl _⟩
  · refine (getD_push h.structs other content default).imp_right fun hnew => ?_
    rw [Heap.struct, Heap.newStruct, hnew]
    exact ⟨hvalid, hfields⟩

theorem Sound.newFunction (hh : h.Sound usable captured) (name : String) (parameters : Parameters)
    (callable : Callable)
    (hnew : Function.Sound usable captured ⟨name, parameters, callable, none, false⟩) :
    (h.newFunction name parameters callable).2.Sound usable captured ∧
      usable (h.newFunction name parameters callable).1 := by
  refine ⟨hh.change ?_ (fun _ => .inl rfl) (fun _ => .inl rfl) (fun _ => .inl rfl)
    (fun _ => .inl rfl) (fun other => ?_), hh.unmade _ (Nat.lt_irrefl _)⟩
  · exact ⟨Nat.le_refl _, Nat.le_refl _, Nat.le_refl _, Nat.le_refl _, by simp [Heap.newFunction]⟩
  · refine (getD_push h.functions other _ default).imp_right fun heq => ?_
    rwa [Heap.function, Heap.newFunction, heq]

end Heap

end ScriptCore
