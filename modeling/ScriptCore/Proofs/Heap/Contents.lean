import ScriptCore.Dict
import ScriptCore.Proofs.Parameters

/-!
# Containers of usable values

The steps on arrays and dict tables, taken for what they do to the values inside: a container of
usable values stays one, and what is taken out of it is usable.

A step of an array is a function that gives an outcome together with the array that it leaves, as
the operations of `ResizableArray` are.  `StepKeeps usable good` says of a step that the items stay
usable and that it gives something good or an error of the program.  Each step is reduced to what it
does to the list of the items (`Holds`), where one sees what comes in and what stays.
-/

namespace ScriptCore

/-! ## Arrays of usable values -/

namespace ResizableArray

variable {α : Type} {a : ResizableArray α} {items : List α}

theorem calm_position (a : ResizableArray α) (operation : String) (index : Int) :
    Calm (fun _ => True) (a.position operation index) := by
  simp only [position]
  generalize (if index < 0 then index + a.count else index) = resolved
  split
  · intro hkind
    cases hkind
  · trivial

theorem Holds.calm_get (ha : a.Holds items) (index : Int) : Calm (· ∈ items) (a.get index) := by
  have hposition := a.calm_position "get_item" index
  cases hplace : a.position "get_item" index with
  | error err =>
      rw [hplace] at hposition
      simpa [get, hplace, bind, Except.bind] using hposition
  | ok place =>
      obtain ⟨hlt, hget⟩ := ha.get_eq hplace
      rw [hget]
      exact List.getElem_mem hlt

/-- A step on arrays that keeps their elements usable, and gives something good or an error of the
program. -/
def StepKeeps {β : Type} (usable : α → Prop) (good : β → Prop)
    (step : ResizableArray α → Except RuntimeError β × ResizableArray α) : Prop :=
  ∀ a items, a.Holds items → (∀ value ∈ items, usable value) →
    (∃ after, (step a).2.Holds after ∧ ∀ value ∈ after, usable value) ∧ Calm good (step a).1

variable {usable : α → Prop}

theorem stepKeeps_append {value : α} (hvalue : usable value) :
    StepKeeps usable (fun _ => True) fun a => (.ok (), a.append value) := by
  intro a items ha hitems
  refine ⟨⟨_, ha.append value, fun other hother => ?_⟩, trivial⟩
  rcases List.mem_append.1 hother with hbefore | hlast
  · exact hitems other hbefore
  · exact List.mem_singleton.1 hlast ▸ hvalue

theorem stepKeeps_pop : StepKeeps usable usable pop := by
  intro a items ha hitems
  by_cases hempty : items = []
  · have hcount : a.count = 0 := by simp [ha.count_eq, hempty]
    have hpop : a.pop = (.error (.emptyArray "pop"), a) := by simp [pop, hcount]
    rw [hpop]
    refine ⟨⟨items, ha, hitems⟩, fun hkind => ?_⟩
    cases hkind
  · obtain ⟨after, hpop, hafter⟩ := ha.pop hempty
    rw [hpop]
    exact ⟨⟨_, hafter, fun value hvalue => hitems value (List.dropLast_subset items hvalue)⟩,
      hitems _ (List.getLast_mem hempty)⟩

theorem stepKeeps_insert (index : Int) {value : α} (hvalue : usable value) :
    StepKeeps usable (fun _ => True) (·.insert index value) := by
  intro a items ha hitems
  have hposition : Calm (fun _ => True) (a.insertPosition index) := by
    unfold insertPosition
    split
    · trivial
    · exact a.calm_position _ _
  cases hplace : a.insertPosition index with
  | error err =>
      rw [hplace] at hposition
      have hinsert : a.insert index value = (.error err, a) := by simp [insert, hplace]
      simp only [hinsert]
      exact ⟨⟨items, ha, hitems⟩, hposition⟩
  | ok place =>
      obtain ⟨after, hinsert, hafter, hle⟩ := ha.insert value hplace
      simp only [hinsert]
      refine ⟨⟨_, hafter, fun other hother => ?_⟩, trivial⟩
      -- The list then holds the new value and what it held before.
      rcases (List.mem_insertIdx hle).1 hother with rfl | hbefore
      · exact hvalue
      · exact hitems other hbefore

theorem stepKeeps_removeAt (index : Int) : StepKeeps usable usable (·.removeAt index) := by
  intro a items ha hitems
  have hposition := a.calm_position "remove_at" index
  by_cases hcount : a.count = 0
  · have hremove : a.removeAt index = (.error (.emptyArray "remove_at"), a) := by
      simp [removeAt, hcount]
    simp only [hremove]
    refine ⟨⟨items, ha, hitems⟩, fun hkind => ?_⟩
    cases hkind
  · cases hplace : a.position "remove_at" index with
    | error err =>
        rw [hplace] at hposition
        have hremove : a.removeAt index = (.error err, a) := by simp [removeAt, hcount, hplace]
        simp only [hremove]
        exact ⟨⟨items, ha, hitems⟩, hposition⟩
    | ok place =>
        obtain ⟨hlt, after, hremove, hafter⟩ := ha.removeAt hplace
        simp only [hremove]
        exact ⟨⟨_, hafter, fun value hvalue => hitems value (List.mem_of_mem_eraseIdx hvalue)⟩,
          hitems _ (List.getElem_mem hlt)⟩

theorem stepKeeps_overwrite (index : Int) {value : α} (hvalue : usable value) :
    StepKeeps usable (fun _ => True) (·.overwrite index value) := by
  intro a items ha hitems
  have hposition := a.calm_position "insert_at" index
  cases hplace : a.position "insert_at" index with
  | error err =>
      rw [hplace] at hposition
      have hwrite : a.overwrite index value = (.error err, a) := by simp [overwrite, hplace]
      simp only [hwrite]
      exact ⟨⟨items, ha, hitems⟩, hposition⟩
  | ok place =>
      have hwrite : a.overwrite index value =
          (.ok (), { a with slots := a.slots.setIfInBounds place (some value) }) := by
        simp [overwrite, hplace]
      simp only [hwrite]
      have hlt : place < items.length := ha.count_eq ▸ position_lt hplace
      refine ⟨⟨_, ha.set hlt value, fun other hother => ?_⟩, trivial⟩
      rcases List.mem_or_eq_of_mem_set hother with hbefore | rfl
      · exact hitems other hbefore
      · exact hvalue

theorem stepKeeps_clear : StepKeeps usable (fun _ => True) fun a => (.ok (), a.clear) :=
  fun _ _ _ _ => ⟨⟨[], holds_empty, by simp⟩, trivial⟩

end ResizableArray

/-! ## Tables of usable values -/

variable {usable : Value → Prop} {captured : RecordId → Prop}

/-- A table that holds usable keys and values. -/
def DictTable.Sound (usable : Value → Prop) (table : DictTable) : Prop :=
  ∃ rows, table.Holds hashText rows ∧ ∀ row ∈ rows, usable row.rawKey ∧ usable row.value

namespace DictTable

variable {table : DictTable}

theorem sound_empty : DictTable.Sound usable .empty :=
  ⟨[], HashTable.holds_empty, by simp⟩

theorem Sound.append (htable : DictTable.Sound usable table) (text : String) {key value : Value}
    (hkey : usable key) (hvalue : usable value) :
    DictTable.Sound usable (table.append key (hashText text) text value) := by
  obtain ⟨rows, hrows, hall⟩ := htable
  obtain ⟨order, happend⟩ := hrows.append key text value
  refine ⟨_, happend, fun row hrow => ?_⟩
  rcases List.mem_append.1 hrow with hbefore | hlast
  · exact hall row (List.mem_filter.1 hbefore).1
  · obtain rfl := List.mem_singleton.1 hlast
    exact ⟨hkey, hvalue⟩

theorem Sound.calm_search (htable : DictTable.Sound usable table) (text : String) :
    Calm usable (table.search text (hashText text)) := by
  obtain ⟨rows, hrows, hall⟩ := htable
  unfold HashTable.search
  rw [hrows.find?_eq]
  split
  · rename_i row hfound
    exact (hall row (List.mem_of_find?_eq_some hfound)).2
  · exact nofun

theorem Sound.remove (htable : DictTable.Sound usable table) (text : String) :
    DictTable.Sound usable (table.remove text (hashText text)).2 ∧
      Calm usable (table.remove text (hashText text)).1 := by
  obtain ⟨rows, hrows, hall⟩ := htable
  cases hfound : rows.find? fun row => row.key == text with
  | none =>
      rw [hrows.remove_of_find?_eq_none hfound]
      exact ⟨⟨rows, hrows, hall⟩, nofun⟩
  | some row =>
      obtain ⟨after, hremove, hafter⟩ := hrows.remove_of_find? hfound
      rw [hremove]
      exact ⟨⟨_, hafter, fun other hother => hall other (List.mem_filter.1 hother).1⟩,
        (hall row (List.mem_of_find?_eq_some hfound)).2⟩

theorem Sound.usable_of_mem (htable : DictTable.Sound usable table) :
    (∀ value ∈ table.rawKeys.toList, usable value) ∧ (∀ value ∈ table.values.toList, usable value) ∧
      ∀ entry ∈ table.entries, usable entry.1 ∧ usable entry.2 := by
  obtain ⟨rows, hrows, hall⟩ := htable
  rw [hrows.rawKeys_eq, hrows.values_eq, hrows.entries_eq]
  simp only [List.mem_map]
  refine ⟨?_, ?_, ?_⟩
  · rintro _ ⟨row, hrow, rfl⟩
    exact (hall row hrow).1
  · rintro _ ⟨row, hrow, rfl⟩
    exact (hall row hrow).2
  · rintro _ ⟨row, hrow, rfl⟩
    exact hall row hrow

end DictTable

namespace Heap

variable {h : Heap}

theorem calm_key (h : Heap) (value : Value) :
    Calm (fun key => key.hash = hashText key.text) (h.key value) := by
  unfold key
  split
  · rfl
  · exact nofun

theorem calm_insertEntry (h : Heap) {table : DictTable} (htable : DictTable.Sound usable table)
    {key value : Value} (hkey : usable key) (hvalue : usable value) :
    Calm (DictTable.Sound usable) (h.insertEntry table key value) := by
  refine (h.calm_key key).bind fun k hk => ?_
  rw [hk]
  exact htable.append k.text hkey hvalue

theorem calm_lookupEntry (h : Heap) {table : DictTable} (htable : DictTable.Sound usable table)
    (key : Value) : Calm usable (h.lookupEntry table key) := by
  refine (h.calm_key key).bind fun k hk => ?_
  rw [hk]
  exact htable.calm_search k.text

theorem calm_hasEntry (h : Heap) (table : DictTable) (key : Value) :
    Calm (fun _ => True) (h.hasEntry table key) :=
  (h.calm_key key).bind fun _ _ => trivial

theorem Sound.removeEntry (h : Heap) {table : DictTable} (htable : DictTable.Sound usable table)
    (key : Value) : DictTable.Sound usable (h.removeEntry table key).2 ∧
      Calm usable (h.removeEntry table key).1 := by
  have hkey := h.calm_key key
  unfold Heap.removeEntry
  split
  · rename_i err herr
    rw [herr] at hkey
    exact ⟨htable, hkey⟩
  · rename_i k hk
    rw [hk, calm_ok] at hkey
    rw [hkey]
    exact htable.remove k.text

theorem calm_tableOf (h : Heap) {entries : List (Value × Value)}
    (hentries : ∀ entry ∈ entries, usable entry.1 ∧ usable entry.2) :
    Calm (DictTable.Sound usable) (h.tableOf entries) :=
  calm_foldlM (fun _ entry hentry htable =>
    h.calm_insertEntry htable (hentries entry hentry).1 (hentries entry hentry).2)
    DictTable.sound_empty

end Heap

end ScriptCore
