import Mathlib.Data.List.Nodup
import ScriptCore.Key
import ScriptCore.Proofs.HashTable

/-!
# What name tables hold

A name table is described by its entries, the row of names with what they are bound to: names are
different, looking up finds the entry of the name, and binding a name takes its entry out and puts
a new one at the end.

The key text of a name is the name behind a fixed prefix, so different names have different keys.

The table below is one with keys, and what it holds is known from there (`HashTable.Holds`).  What
is added is that the key of a row is that of its name (`NameTable.Valid`), so that rows can be
compared by names instead of keys.
-/

namespace ScriptCore.NameTable

variable {ν : Type}

/-- The table holds some rows, each under the key of its name. -/
def Valid (t : NameTable ν) : Prop :=
  ∃ rows, t.table.Holds hashText rows ∧ ∀ row ∈ rows, row.key = "s:" ++ row.rawKey

theorem valid_empty : (empty : NameTable ν).Valid :=
  ⟨[], HashTable.holds_empty, fun _ hrow => absurd hrow List.not_mem_nil⟩

@[simp] theorem entries_empty : (empty : NameTable ν).entries = [] :=
  rfl

theorem key_beq_ofName (row name : String) :
    (("s:" ++ row) == (Key.ofName name).text) = (row == name) := by
  rw [Bool.eq_iff_iff, beq_iff_eq, beq_iff_eq, Key.ofName, Key.ofText, String.append_right_inj]

variable {t : NameTable ν}

/-! ## Looking at a table -/

theorem Valid.find?_eq (ht : t.Valid) (name : String) :
    t.find? name = (t.entries.find? fun entry => entry.1 == name).map (·.2) := by
  obtain ⟨rows, hrows, hkeys⟩ := ht
  have hsame : rows.find? (fun row => row.key == (Key.ofName name).text) =
      rows.find? fun row => row.rawKey == name :=
    List.find?_congr fun row hrow => by rw [hkeys row hrow, key_beq_ofName]
  have hfind : t.table.find? (Key.ofName name).text (Key.ofName name).hash =
      rows.find? fun row => row.rawKey == name := (hrows.find?_eq _).trans hsame
  rw [find?, entries, hrows.entries_eq, List.find?_map, hfind, Option.map_map]
  rfl

theorem Valid.names_eq (ht : t.Valid) : t.names = t.entries.map (·.1) := by
  obtain ⟨rows, hrows, -⟩ := ht
  simp [names, entries, hrows.entries_eq, hrows.rawKeys_eq]

theorem Valid.values_eq (ht : t.Valid) : t.values = t.entries.map (·.2) := by
  obtain ⟨rows, hrows, -⟩ := ht
  simp [values, entries, hrows.entries_eq, hrows.values_eq]

theorem Valid.count_eq (ht : t.Valid) : t.count = t.entries.length := by
  obtain ⟨rows, hrows, -⟩ := ht
  simp [count, entries, hrows.entries_eq, hrows.count_eq]

theorem Valid.names_nodup (ht : t.Valid) : (t.entries.map (·.1)).Nodup := by
  obtain ⟨rows, hrows, hkeys⟩ := ht
  have hnodup := hrows.keys_nodup
  rw [show rows.map (·.key) = (rows.map (·.rawKey)).map ("s:" ++ ·) by
    simpa using hkeys] at hnodup
  simpa [entries, hrows.entries_eq, Function.comp_def] using List.Nodup.of_map _ hnodup

theorem Valid.find?_eq_some_iff (ht : t.Valid) {name : String} {value : ν} :
    t.find? name = some value ↔ (name, value) ∈ t.entries := by
  rw [ht.find?_eq]
  constructor
  · intro hfound
    obtain ⟨⟨other, found⟩, hentry, rfl⟩ := Option.map_eq_some_iff.1 hfound
    have hname : other = name := by simpa using List.find?_some hentry
    exact hname ▸ List.mem_of_find?_eq_some hentry
  · intro hmem
    cases hfound : t.entries.find? fun entry => entry.1 == name with
    | none => simpa using List.find?_eq_none.1 hfound _ hmem
    | some entry =>
        have hname : entry.1 = name := by simpa using List.find?_some hfound
        have hsame := List.inj_on_of_nodup_map ht.names_nodup
          (List.mem_of_find?_eq_some hfound) hmem hname
        simp [hsame]

theorem contains_eq (t : NameTable ν) (name : String) :
    t.contains name = (t.find? name).isSome := by
  rw [contains, find?, HashTable.contains, Option.isSome_map]

/-- Exactly the names that the table lists are bound. -/
theorem Valid.isSome_find?_iff (ht : t.Valid) {name : String} :
    (t.find? name).isSome = true ↔ name ∈ t.names := by
  rw [Option.isSome_iff_exists, ht.names_eq, List.mem_map]
  simp only [ht.find?_eq_some_iff, Prod.exists, exists_and_right, exists_eq_right]

theorem Valid.mem_values_iff (ht : t.Valid) {value : ν} :
    value ∈ t.values ↔ ∃ name, t.find? name = some value := by
  simp only [ht.find?_eq_some_iff, ht.values_eq, List.mem_map, Prod.exists, exists_eq_right]

/-! ## Binding -/

/-- Binding a name takes its entry out and puts a new one at the end. -/
theorem Valid.set (ht : t.Valid) (name : String) (value : ν) :
    (t.set name value).Valid ∧
      (t.set name value).entries = t.entries.filter (fun entry => entry.1 != name) ++
        [(name, value)] := by
  obtain ⟨rows, hrows, hkeys⟩ := ht
  obtain ⟨order, hset⟩ := hrows.append name (Key.ofName name).text value
  -- To have the key of the name is to have the name.
  have hsame : (rows.filter fun row => row.key != (Key.ofName name).text) =
      rows.filter fun row => row.rawKey != name :=
    List.filter_congr fun row hrow => by rw [bne, bne, hkeys row hrow, key_beq_ofName]
  rw [hsame] at hset
  refine ⟨⟨_, hset, fun row hrow => ?_⟩, ?_⟩
  · rcases List.mem_append.1 hrow with hbefore | hlast
    · exact hkeys row (List.mem_filter.1 hbefore).1
    · obtain rfl := List.mem_singleton.1 hlast
      rfl
  · rw [entries, entries, hrows.entries_eq]
    refine hset.entries_eq.trans ?_
    simp [List.filter_map, Function.comp_def]

/-- Removing a name takes its entry out. -/
theorem Valid.remove (ht : t.Valid) (name : String) :
    (t.remove name).2.Valid ∧
      (t.remove name).2.entries = t.entries.filter fun entry => entry.1 != name := by
  obtain ⟨rows, hrows, hkeys⟩ := ht
  have hafter := hrows.remove (Key.ofName name).text
  have hsame : (rows.filter fun row => row.key != (Key.ofName name).text) =
      rows.filter fun row => row.rawKey != name :=
    List.filter_congr fun row hrow => by rw [bne, bne, hkeys row hrow, key_beq_ofName]
  rw [hsame] at hafter
  refine ⟨⟨_, hafter, fun row hrow => hkeys row (List.mem_filter.1 hrow).1⟩, ?_⟩
  rw [entries, entries, hrows.entries_eq]
  refine hafter.entries_eq.trans ?_
  rw [List.filter_map]
  rfl

theorem Valid.find?_set (ht : t.Valid) (name other : String) (value : ν) :
    (t.set name value).find? other = if other = name then some value else t.find? other := by
  obtain ⟨hvalid, hentries⟩ := ht.set name value
  split
  · rename_i hname
    rw [hvalid.find?_eq_some_iff, hentries, hname]
    simp
  · rename_i hname
    apply Option.ext
    intro found
    rw [hvalid.find?_eq_some_iff, ht.find?_eq_some_iff, hentries]
    simp [hname]

theorem Valid.mem_names_set (ht : t.Valid) (name other : String) (value : ν) :
    other ∈ (t.set name value).names ↔ other ∈ t.names ∨ name = other := by
  rw [← (ht.set name value).1.isSome_find?_iff, ← ht.isSome_find?_iff, ht.find?_set]
  by_cases hother : other = name
  · simp [hother]
  · simp [hother, Ne.symm hother]

/-- What is bound after a name was bound is the new value or was bound before. -/
theorem Valid.mem_values_set (ht : t.Valid) {name : String} {value found : ν}
    (hmem : found ∈ (t.set name value).values) : found = value ∨ found ∈ t.values := by
  obtain ⟨hvalid, hentries⟩ := ht.set name value
  rw [hvalid.values_eq, hentries] at hmem
  rw [ht.values_eq]
  grind

/-- A table that binds names in order. -/
theorem valid_ofList (bindings : List (String × ν)) :
    (ofList bindings).Valid ∧ ∀ value ∈ (ofList bindings).values, value ∈ bindings.map (·.2) := by
  -- The names are bound one after the other, so this is said of any table to begin with.
  suffices hfold : ∀ (bindings : List (String × ν)) (t : NameTable ν) (given : List ν), t.Valid →
      (∀ value ∈ t.values, value ∈ given) →
      (bindings.foldl (fun table binding => table.set binding.1 binding.2) t).Valid ∧
        ∀ value ∈ (bindings.foldl (fun table binding => table.set binding.1 binding.2) t).values,
          value ∈ given ++ bindings.map (·.2) by
    exact hfold bindings empty [] valid_empty (by simp [valid_empty.values_eq])
  intro bindings
  induction bindings with
  | nil => exact fun t given ht hgiven => ⟨ht, by simpa using hgiven⟩
  | cons binding rest ih =>
      intro t given ht hgiven
      have hset := ih (t.set binding.1 binding.2) (given ++ [binding.2])
        (ht.set _ _).1 fun value hvalue => by
          rcases ht.mem_values_set hvalue with rfl | hbefore
          · simp
          · simp [hgiven value hbefore]
      simpa using hset

/-- Names that are all different keep the order in which they are bound. -/
theorem entries_ofList {bindings : List (String × ν)} (hnodup : (bindings.map (·.1)).Nodup) :
    (ofList bindings).entries = bindings := by
  suffices hfold : ∀ (rest : List (String × ν)) (t : NameTable ν), t.Valid →
      ((t.entries ++ rest).map (·.1)).Nodup →
      (rest.foldl (fun table binding => table.set binding.1 binding.2) t).entries =
        t.entries ++ rest by
    exact hfold bindings empty valid_empty hnodup
  intro rest
  induction rest with
  | nil => exact fun t _ _ => (List.append_nil _).symm
  | cons binding rest ih =>
      intro t ht hnodup
      obtain ⟨hvalid, hentries⟩ := ht.set binding.1 binding.2
      -- The name is new, so no entry is taken out for it.
      have hnew : t.entries.filter (fun entry => entry.1 != binding.1) = t.entries := by
        refine List.filter_eq_self.2 fun entry hentry => ?_
        rw [List.map_append, List.nodup_append] at hnodup
        exact bne_iff_ne.2 (hnodup.2.2 _ (List.mem_map_of_mem hentry) _ List.mem_cons_self)
      rw [hnew] at hentries
      have hrest := ih (t.set binding.1 binding.2) hvalid
        (by rwa [hentries, List.append_assoc])
      rw [List.foldl_cons, hrest, hentries, List.append_assoc]
      rfl

end ScriptCore.NameTable
