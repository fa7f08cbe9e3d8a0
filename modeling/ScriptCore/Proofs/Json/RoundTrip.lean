import Mathlib.Data.List.Nodup
import ScriptCore.Equality
import ScriptCore.Json.Import
import ScriptCore.Proofs.Heap.Equality
import ScriptCore.Proofs.Json.Written

/-!
# Reading JSON and writing it again

Plain data and documents stand for each other.  `Heap.Depicts` relates a value made of plain data
to a document: numbers, strings, booleans and null to themselves, lists to arrays and dicts with
string keys to objects.  Three statements about it are enough.

* Reading a document makes a value that depicts it, and changes nothing that was there before
  (`depicts_ofJson`).
* A value that depicts a document has it as its written form (`Depicts.written`).
* Two values that depict one document are equal, whatever the order of the entries in their dicts
  (`Depicts.equalsWithin`).

Since every plain value depicts some document, the two conversions undo each other either way round
(`json_round_trip`).

Documents are taken as their readers give them: with integers of 64 bits, finite floats and sorted
members (`JsonTree.Proper`).  Values are taken as programs make them, so lists and dicts may be
shared, and a shared one is written out at each place; but nothing may contain itself
(`Heap.Plain`).
-/

namespace ScriptCore

/-- The whole numbers of a document fit into integers, its other numbers are finite, and the members
of its objects are sorted by name. -/
inductive JsonTree.Proper : JsonTree → Prop
  | null : Proper .null
  | boolean (truth : Bool) : Proper (.boolean truth)
  | integer {number : Int} (hleast : Int64.minValue.toInt ≤ number)
      (hgreatest : number ≤ Int64.maxValue.toInt) : Proper (.integer number)
  | float {number : Float} (hfinite : number.isFinite = true) : Proper (.float number)
  | string (text : String) : Proper (.string text)
  | array {items : List JsonTree} (hitems : ∀ item ∈ items, Proper item) : Proper (.array items)
  | object {members : List (String × JsonTree)} (hsorted : Sorted members)
      (hmembers : ∀ member ∈ members, Proper member.2) : Proper (.object members)

namespace Heap

/-- A value made of null, booleans, integers, finite floats, strings, and of lists and dicts with
string keys that hold such values; the containers were made, and are such as their own operations
leave them.  Containers may be shared, but as the value is made from the inside, none of them stands
within itself. -/
inductive Plain (h : Heap) : Value → Prop
  | null : Plain h .null
  | boolean (truth : Bool) : Plain h (.boolean truth)
  | integer (number : Int64) : Plain h (.integer number)
  | float {number : Float} (hfinite : number.isFinite = true) : Plain h (.float number)
  | string (text : String) : Plain h (.string text)
  | list {address : Address} {items : List Value} (hmade : h.Made (.list address))
      (hholds : (h.list address).Holds items) (hitems : ∀ item ∈ items, Plain h item) :
      Plain h (.list address)
  | dict {address : Address} {rows : List (ChainEntry Value Value)}
      (hmade : h.Made (.dict address)) (hholds : (h.dict address).Holds hashText rows)
      (hkeys : ∀ row ∈ rows, ∃ name, row.rawKey = .string name ∧ row.key = (Key.ofName name).text)
      (hrows : ∀ row ∈ rows, Plain h row.value) : Plain h (.dict address)

/-- The rows of a table stand under the names of the members, in the same order. -/
structure Named (rows : List (ChainEntry Value Value)) (members : List (String × JsonTree)) :
    Prop where
  rawKeys : rows.map (·.rawKey) = members.map fun member => .string member.1
  keys : rows.map (·.key) = members.map fun member => (Key.ofName member.1).text

/-- A value of plain data is what a document says. -/
inductive Depicts (h : Heap) : Value → JsonTree → Prop
  | null : Depicts h .null .null
  | boolean (truth : Bool) : Depicts h (.boolean truth) (.boolean truth)
  | integer (number : Int64) : Depicts h (.integer number) (.integer number.toInt)
  | float {number : Float} (hfinite : number.isFinite = true) :
      Depicts h (.float number) (.float number)
  | string (text : String) : Depicts h (.string text) (.string text)
  | list {address : Address} {items : List Value} {trees : List JsonTree}
      (hmade : h.Made (.list address)) (hholds : (h.list address).Holds items)
      (hlength : trees.length = items.length)
      (hall : ∀ pair ∈ items.zip trees, Depicts h pair.1 pair.2) :
      Depicts h (.list address) (.array trees)
  | dict {address : Address} {rows : List (ChainEntry Value Value)}
      {members : List (String × JsonTree)} (hmade : h.Made (.dict address))
      (hholds : (h.dict address).Holds hashText rows) (hnamed : Named rows members)
      (hall : ∀ pair ∈ rows.zip members, Depicts h pair.1.value pair.2.2) :
      Depicts h (.dict address) (.ofMembers members)

/-- All lists and dicts that were made stay as they are. -/
structure Extends (h h' : Heap) : Prop where
  lists : h.lists.size ≤ h'.lists.size
  dicts : h.dicts.size ≤ h'.dicts.size
  list : ∀ address, h.Made (.list address) → h'.list address = h.list address
  dict : ∀ address, h.Made (.dict address) → h'.dict address = h.dict address

variable {h h' : Heap} {value value' : Value} {tree : JsonTree}
  {rows : List (ChainEntry Value Value)} {members : List (String × JsonTree)}

/-! ## Names in order -/

theorem Named.length_eq (hnamed : Named rows members) : members.length = rows.length := by
  simpa using (congrArg List.length hnamed.rawKeys).symm

theorem Named.of_mem_zip (hnamed : Named rows members)
    {pair : ChainEntry Value Value × (String × JsonTree)} (hpair : pair ∈ rows.zip members) :
    pair.1.rawKey = .string pair.2.1 ∧ pair.1.key = (Key.ofName pair.2.1).text := by
  obtain ⟨place, hplace⟩ := List.mem_iff_getElem?.1 hpair
  obtain ⟨hrow, hmember⟩ := List.getElem?_zip_eq_some.1 hplace
  have hrawKey := congrArg (·[place]?) hnamed.rawKeys
  have hkey := congrArg (·[place]?) hnamed.keys
  simp only [List.getElem?_map, hrow, hmember, Option.map_some, Option.some.injEq] at hrawKey hkey
  exact ⟨hrawKey, hkey⟩

theorem ofName_injective : Function.Injective fun name => (Key.ofName name).text := by
  intro name name' heq
  simpa [Key.ofName, Key.ofText] using heq

/-- The names under which the rows of a table stand are different. -/
theorem Named.names_nodup (hnamed : Named rows members) (hnodup : (rows.map (·.key)).Nodup) :
    (members.map (·.1)).Nodup := by
  rw [hnamed.keys] at hnodup
  exact List.Nodup.of_map (fun name => (Key.ofName name).text)
    (by simpa [Function.comp_def] using hnodup)

/-- A key is among those of the rows if it is that of a name that comes out sorted. -/
theorem Named.mem_keys_iff (hnamed : Named rows members) {key : String} :
    key ∈ rows.map (·.key) ↔
      ∃ name ∈ (JsonTree.sortedMembers members).map (·.1), (Key.ofName name).text = key := by
  have hkeys : rows.map (·.key) =
      (members.map (·.1)).map fun name => (Key.ofName name).text := by
    rw [hnamed.keys, List.map_map]
    rfl
  simp only [hkeys, JsonTree.mem_names_sortedMembers, List.mem_map (b := key)]

/-! ## What depicts a document has it as its form -/

theorem Depicts.written (hdepicts : h.Depicts value tree) : h.Written value tree := by
  induction hdepicts with
  | null => exact .null
  | boolean truth => exact .boolean truth
  | integer number => exact .integer number
  | float hfinite => exact .float hfinite
  | string text => exact .string text
  | list hmade hholds hlength _ ih =>
      refine .list (by rw [hholds.toList_eq, hlength]) fun pair hpair => ?_
      rw [hholds.toList_eq] at hpair
      exact ih pair hpair
  | dict hmade hholds hnamed _ ih =>
      -- The entries are the rows without their keys.
      have hentries := hholds.entries_eq
      refine .dict (by rw [hentries, List.length_map, hnamed.length_eq]) (fun pair hpair => ?_)
        fun pair hpair => ?_
      all_goals
        rw [hentries, List.zip_map_left] at hpair
        obtain ⟨⟨row, member⟩, hrow, rfl⟩ := List.mem_map.1 hpair
      · show h.plainText row.rawKey = member.1
        rw [(hnamed.of_mem_zip hrow).1]
        rfl
      · exact ih _ hrow

/-! ## Reading a document -/

theorem Extends.refl (h : Heap) : h.Extends h :=
  ⟨Nat.le_refl _, Nat.le_refl _, fun _ _ => rfl, fun _ _ => rfl⟩

theorem Extends.trans {h'' : Heap} (hfirst : h.Extends h') (hsecond : h'.Extends h'') :
    h.Extends h'' where
  lists := hfirst.lists.trans hsecond.lists
  dicts := hfirst.dicts.trans hsecond.dicts
  list address hmade := (hsecond.list address (Nat.lt_of_lt_of_le hmade hfirst.lists)).trans
    (hfirst.list address hmade)
  dict address hmade := (hsecond.dict address (Nat.lt_of_lt_of_le hmade hfirst.dicts)).trans
    (hfirst.dict address hmade)

theorem extends_newList (h : Heap) (items : List Value) : h.Extends (h.newList items).2 where
  lists := by simp [newList]
  dicts := Nat.le_refl _
  list address hmade := by
    have hlt : address < h.lists.size := hmade
    simp [Heap.list, newList, Array.getD_eq_getD_getElem?, Array.getElem?_push, hlt.ne]
  dict _ _ := rfl

theorem extends_newDict (h : Heap) (table : DictTable) : h.Extends (h.newDict table).2 where
  lists := Nat.le_refl _
  dicts := by simp [newDict]
  list _ _ := rfl
  dict address hmade := by
    have hlt : address < h.dicts.size := hmade
    simp [Heap.dict, newDict, Array.getD_eq_getD_getElem?, Array.getElem?_push, hlt.ne]

/-- A value goes on depicting a document when things are made. -/
theorem Depicts.mono (hdepicts : h.Depicts value tree) (hextends : h.Extends h') :
    h'.Depicts value tree := by
  induction hdepicts with
  | null => exact .null
  | boolean truth => exact .boolean truth
  | integer number => exact .integer number
  | float hfinite => exact .float hfinite
  | string text => exact .string text
  | list hmade hholds hlength _ ih =>
      exact .list (Nat.lt_of_lt_of_le hmade hextends.lists)
        ((hextends.list _ hmade).symm ▸ hholds) hlength ih
  | dict hmade hholds hnamed _ ih =>
      exact .dict (Nat.lt_of_lt_of_le hmade hextends.dicts)
        ((hextends.dict _ hmade).symm ▸ hholds) hnamed ih

theorem depicts_newList {items : List Value} {trees : List JsonTree}
    (hlength : trees.length = items.length)
    (hall : ∀ pair ∈ items.zip trees, h.Depicts pair.1 pair.2) :
    (h.newList items).2.Depicts (h.newList items).1 (.array trees) := by
  refine .list (by simp [newList, Made]) ?_ hlength fun pair hpair =>
    (hall pair hpair).mono (h.extends_newList items)
  simpa [Heap.list, newList] using ResizableArray.holds_ofList items

theorem depicts_newDict {table : DictTable} (hholds : table.Holds hashText rows)
    (hnamed : Named rows members)
    (hall : ∀ pair ∈ rows.zip members, h.Depicts pair.1.value pair.2.2) :
    (h.newDict table).2.Depicts (h.newDict table).1 (.ofMembers members) := by
  refine .dict (by simp [newDict, Made]) ?_ hnamed fun pair hpair =>
    (hall pair hpair).mono (h.extends_newDict table)
  simpa [Heap.dict, newDict] using hholds

/-- A whole number that fits is read as the integer. -/
theorem depicts_importNumber {number : Int} (hleast : Int64.minValue.toInt ≤ number)
    (hgreatest : number ≤ Int64.maxValue.toInt) :
    h.Depicts (importNumber number) (.integer number) := by
  have hsame : (Int64.ofInt number).toInt = number :=
    Int64.toInt_ofInt_of_le hleast (Int.lt_of_le_of_lt hgreatest (by decide))
  rw [importNumber, if_pos ⟨hleast, hgreatest⟩]
  conv => rhs; rw [← hsame]
  exact .integer _

/-- Writing an entry under a name that is not there puts a row at the end. -/
theorem Named.insertNamed {table : DictTable} (hholds : table.Holds hashText rows)
    (hnamed : Named rows members) {name : String} (hnew : name ∉ members.map (·.1))
    (value : Value) (tree : JsonTree) :
    ∃ last, last.value = value ∧ (insertNamed table name value).Holds hashText (rows ++ [last]) ∧
      Named (rows ++ [last]) (members ++ [(name, tree)]) := by
  obtain ⟨order, happend⟩ := hholds.append (.string name) (Key.ofName name).text value
  -- No row stands under the name, so none is taken out.
  have hkeep : (rows.filter fun row => row.key != (Key.ofName name).text) = rows := by
    refine List.filter_eq_self.2 fun row hrow => ?_
    rw [bne_iff_ne]
    rintro heq
    have hkey : row.key ∈ rows.map (·.key) := List.mem_map.2 ⟨row, hrow, rfl⟩
    rw [hnamed.keys, heq] at hkey
    obtain ⟨member, hmember, hsame⟩ := List.mem_map.1 hkey
    exact hnew (List.mem_map.2 ⟨member, hmember, ofName_injective hsame⟩)
  rw [hkeep] at happend
  exact ⟨_, rfl, happend, by simp [hnamed.rawKeys], by simp [hnamed.keys]⟩

mutual

/-- Reading a document makes a value that depicts it, and leaves what was made before. -/
theorem depicts_ofJson (h : Heap) (tree : JsonTree) (hproper : tree.Proper) :
    h.Extends (h.ofJson tree).2 ∧ (h.ofJson tree).2.Depicts (h.ofJson tree).1 tree := by
  cases tree with
  | null => exact ⟨.refl h, .null⟩
  | boolean truth => exact ⟨.refl h, .boolean truth⟩
  | integer number =>
      cases hproper with
      | integer hleast hgreatest => exact ⟨.refl h, depicts_importNumber hleast hgreatest⟩
  | float number =>
      cases hproper with
      | float hfinite => exact ⟨.refl h, .float hfinite⟩
  | string text => exact ⟨.refl h, .string text⟩
  | array items =>
      cases hproper with
      | array hitems =>
          obtain ⟨hextends, hlength, hall⟩ := depicts_ofJsonItems h items hitems
          exact ⟨hextends.trans (extends_newList _ _), depicts_newList hlength hall⟩
  | object members =>
      cases hproper with
      | object hsorted hmembers =>
          -- The members are read into an empty table, which has nothing of the document yet.
          have hnamed : Named [] [] := ⟨rfl, rfl⟩
          obtain ⟨hextends, rows, hholds, hnamed, hall⟩ := depicts_ofJsonMembers h .empty
            HashTable.holds_empty hnamed (by simp) members hsorted hmembers
          refine ⟨hextends.trans (extends_newDict _ _), ?_⟩
          have hdepicts := depicts_newDict hholds hnamed hall
          rwa [JsonTree.ofMembers_eq, List.nil_append, hsorted.sortedMembers_eq] at hdepicts

theorem depicts_ofJsonItems (h : Heap) (items : List JsonTree)
    (hproper : ∀ item ∈ items, item.Proper) :
    h.Extends (h.ofJsonItems items).2 ∧ items.length = (h.ofJsonItems items).1.length ∧
      ∀ pair ∈ (h.ofJsonItems items).1.zip items,
        (h.ofJsonItems items).2.Depicts pair.1 pair.2 := by
  match items with
  | [] => exact ⟨.refl h, rfl, by simp [ofJsonItems]⟩
  | item :: rest =>
      obtain ⟨hitem, hrest⟩ := List.forall_mem_cons.1 hproper
      obtain ⟨hextends, hdepicts⟩ := depicts_ofJson h item hitem
      obtain ⟨hextends', hlength, hall⟩ := depicts_ofJsonItems (h.ofJson item).2 rest hrest
      refine ⟨hextends.trans hextends', congrArg (· + 1) hlength, ?_⟩
      exact List.forall_mem_cons.2 ⟨hdepicts.mono hextends', hall⟩

theorem depicts_ofJsonMembers (h : Heap) (table : DictTable)
    {rows : List (ChainEntry Value Value)} {done : List (String × JsonTree)}
    (hholds : table.Holds hashText rows) (hnamed : Named rows done)
    (hdone : ∀ pair ∈ rows.zip done, h.Depicts pair.1.value pair.2.2)
    (members : List (String × JsonTree)) (hsorted : JsonTree.Sorted (done ++ members))
    (hproper : ∀ member ∈ members, member.2.Proper) :
    h.Extends (h.ofJsonMembers table members).2 ∧
      ∃ rows, (h.ofJsonMembers table members).1.Holds hashText rows ∧
        Named rows (done ++ members) ∧ ∀ pair ∈ rows.zip (done ++ members),
          (h.ofJsonMembers table members).2.Depicts pair.1.value pair.2.2 := by
  match members with
  | [] => exact ⟨.refl h, rows, hholds, by rwa [List.append_nil], by rwa [List.append_nil]⟩
  | (name, item) :: rest =>
      obtain ⟨hitem, hrest⟩ := List.forall_mem_cons.1 hproper
      obtain ⟨hextends, hdepicts⟩ := depicts_ofJson h item hitem
      have hnew : name ∉ done.map (·.1) := by
        have hnodup := hsorted.names_nodup
        rw [List.map_append, List.nodup_append] at hnodup
        exact fun hbefore => hnodup.2.2 _ hbefore name (by simp) rfl
      obtain ⟨last, hvalue, hholds', hnamed'⟩ :=
        hnamed.insertNamed hholds hnew (h.ofJson item).1 item
      -- What was read before still depicts its members in the heap that has grown since.
      have hdone' : ∀ pair ∈ (rows ++ [last]).zip (done ++ [(name, item)]),
          (h.ofJson item).2.Depicts pair.1.value pair.2.2 := by
        intro pair hpair
        rw [List.zip_append hnamed.length_eq.symm] at hpair
        rcases List.mem_append.1 hpair with hbefore | hlast
        · exact (hdone pair hbefore).mono hextends
        · obtain rfl : pair = (last, (name, item)) := by simpa using hlast
          exact hvalue ▸ hdepicts
      have hassoc : done ++ (name, item) :: rest = done ++ [(name, item)] ++ rest := by simp
      rw [hassoc] at hsorted ⊢
      obtain ⟨hextends', hrows'⟩ := depicts_ofJsonMembers (h.ofJson item).2 _ hholds' hnamed'
        hdone' rest hsorted hrest
      exact ⟨hextends.trans hextends', hrows'⟩

end

/-! ## Values that depict one document are equal -/

/-- A value beside a key is that of a row, which has a member at its place. -/
theorem Named.exists_member {table : DictTable} (hholds : table.Holds hashText rows)
    (hnamed : Named rows members) {key : String} (hvalue : table.valueOf? key = some value) :
    ∃ row member, (row, member) ∈ rows.zip members ∧ row.value = value ∧
      (Key.ofName member.1).text = key := by
  rw [hholds.valueOf?_eq, Option.map_eq_some_iff] at hvalue
  obtain ⟨row, hfound, rfl⟩ := hvalue
  obtain ⟨member, hpair⟩ :=
    exists_mem_zip_of_mem hnamed.length_eq (List.mem_of_find?_eq_some hfound)
  have hkey : row.key = key := by simpa using List.find?_some hfound
  exact ⟨row, member, hpair, rfl, (hnamed.of_mem_zip hpair).2.symm.trans hkey⟩

/-- Two tables that stand under the names of one object have the same keys, and the values beside a
key belong to one member. -/
theorem Named.matchingValues_eq {table table' : DictTable}
    {rows' : List (ChainEntry Value Value)} {members' : List (String × JsonTree)}
    (hholds : table.Holds hashText rows) (hholds' : table'.Holds hashText rows')
    (hnamed : Named rows members) (hnamed' : Named rows' members')
    (hsame : JsonTree.sortedMembers members = JsonTree.sortedMembers members') :
    table.count = table'.count ∧ ∃ pairs, matchingValues table table' = some pairs ∧
      ∀ pair ∈ pairs, ∃ row row' name tree, row.value = pair.1 ∧ row'.value = pair.2 ∧
        (row, (name, tree)) ∈ rows.zip members ∧ (row', (name, tree)) ∈ rows'.zip members' := by
  have hnodup := hnamed.names_nodup hholds.keys_nodup
  have hnodup' := hnamed'.names_nodup hholds'.keys_nodup
  have hcount : table.count = table'.count := by
    rw [hholds.count_eq, hholds'.count_eq, ← hnamed.length_eq, ← hnamed'.length_eq,
      ← JsonTree.length_sortedMembers_eq_iff.2 hnodup,
      ← JsonTree.length_sortedMembers_eq_iff.2 hnodup', hsame]
  refine ⟨hcount, ?_⟩
  cases hpairs : matchingValues table table' with
  | none =>
      obtain ⟨key, hne⟩ := (hholds.matchingValues_eq_none_iff hholds' hcount).1 hpairs
      refine absurd (Bool.eq_iff_iff.2 ?_) hne
      rw [hholds.isSome_valueOf?_iff, hholds'.isSome_valueOf?_iff, hnamed.mem_keys_iff,
        hnamed'.mem_keys_iff, hsame]
  | some pairs =>
      refine ⟨pairs, rfl, fun ⟨value, value'⟩ hpair => ?_⟩
      obtain ⟨key, hvalue, hvalue'⟩ := (hholds.mem_of_matchingValues hholds' hpairs _ _).1 hpair
      obtain ⟨row, ⟨name, tree⟩, hrow, hat, rfl⟩ := hnamed.exists_member hholds hvalue
      obtain ⟨row', member', hrow', hat', hkey⟩ := hnamed'.exists_member hholds' hvalue'
      -- Both members are in the sorted object, under one name.
      have hmember := JsonTree.mem_sortedMembers hnodup (List.of_mem_zip hrow).2
      have hmember' := JsonTree.mem_sortedMembers hnodup' (List.of_mem_zip hrow').2
      obtain rfl : member' = (name, tree) :=
        List.inj_on_of_nodup_map (JsonTree.sorted_sortedMembers members').names_nodup hmember'
          (hsame ▸ hmember) (ofName_injective hkey)
      exact ⟨row, row', name, tree, hat, hat', hrow, hrow'⟩

theorem float_beq_self {number : Float} (hfinite : number.isFinite = true) :
    (number == number) = true := by
  refine Float.beq_self_iff.2 ?_
  rintro rfl
  exact absurd hfinite (by decide)

/-- Of two values that depict one document the heads agree, and the pairs below depict one document
each. -/
theorem Depicts.compareHeads_eq (hdepicts : h.Depicts value tree)
    (hdepicts' : h.Depicts value' tree) :
    ∃ pairs, h.compareHeads value value' = some pairs ∧
      ∀ pair ∈ pairs, ∃ part, h.Depicts pair.1 part ∧ h.Depicts pair.2 part := by
  have hnothing : ∀ pair ∈ ([] : List (Value × Value)),
      ∃ part, h.Depicts pair.1 part ∧ h.Depicts pair.2 part := by simp
  cases hdepicts with
  | null =>
      cases hdepicts' with
      | null => exact ⟨[], rfl, hnothing⟩
  | boolean truth =>
      cases hdepicts' with
      | boolean => exact ⟨[], if_pos (beq_self_eq_true truth), hnothing⟩
  | integer number =>
      generalize htree : JsonTree.integer number.toInt = other at hdepicts'
      cases hdepicts' with
      | integer number' =>
          obtain rfl := Int64.toInt_inj.1 (JsonTree.integer.inj htree)
          exact ⟨[], if_pos (beq_self_eq_true number), hnothing⟩
      | _ => nomatch htree
  | float hfinite =>
      cases hdepicts' with
      | float => exact ⟨[], if_pos (float_beq_self hfinite), hnothing⟩
  | string text =>
      cases hdepicts' with
      | string => exact ⟨[], if_pos (beq_self_eq_true text), hnothing⟩
  | list hmade hholds hlength hall =>
      cases hdepicts' with
      | list hmade' hholds' hlength' hall' =>
          rename_i address items trees address' items'
          have hcount : (h.list address).count = (h.list address').count := by
            rw [hholds.count_eq, hholds'.count_eq, ← hlength, ← hlength']
          refine ⟨items.zip items', ?_, fun pair hpair => ?_⟩
          · rw [← hholds.toList_eq, ← hholds'.toList_eq]
            exact if_pos (beq_iff_eq.2 hcount)
          · -- The item of the array at the same place is what both depict.
            obtain ⟨place, hplace⟩ := List.mem_iff_getElem?.1 hpair
            obtain ⟨hitem, hitem'⟩ := List.getElem?_zip_eq_some.1 hplace
            obtain ⟨hlt, -⟩ := List.getElem?_eq_some_iff.1 hitem
            have hpart := List.getElem?_eq_getElem (hlength ▸ hlt : place < trees.length)
            refine ⟨trees[place], hall (pair.1, _) ?_, hall' (pair.2, _) ?_⟩
            · exact List.mem_iff_getElem?.2 ⟨place, List.getElem?_zip_eq_some.2 ⟨hitem, hpart⟩⟩
            · exact List.mem_iff_getElem?.2 ⟨place, List.getElem?_zip_eq_some.2 ⟨hitem', hpart⟩⟩
  | dict hmade hholds hnamed hall =>
      rename_i address rows members
      generalize htree : JsonTree.ofMembers members = other at hdepicts'
      cases hdepicts' with
      | dict hmade' hholds' hnamed' hall' =>
          rename_i address' rows' members'
          obtain ⟨hcount, pairs, hpairs, hmatch⟩ :=
            hnamed.matchingValues_eq hholds hholds' hnamed' (JsonTree.object.inj htree)
          refine ⟨pairs, ?_, fun pair hpair => ?_⟩
          · rw [← hpairs]
            exact if_pos (beq_iff_eq.2 hcount)
          · obtain ⟨row, row', name, tree, hat, hat', hrow, hrow'⟩ := hmatch pair hpair
            exact ⟨tree, hat ▸ hall _ hrow, hat' ▸ hall' _ hrow'⟩
      | _ => nomatch htree

/-- No difference shows between two values that depict one document. -/
theorem Depicts.equalsWithin (hdepicts : h.Depicts value tree) (hdepicts' : h.Depicts value' tree)
    (levels : Nat) (comparing : List (Value × Value)) :
    h.equalsWithin levels comparing value value' = true := by
  induction levels generalizing value value' tree comparing with
  | zero => rfl
  | succ levels ih =>
      obtain ⟨pairs, hpairs, hall⟩ := hdepicts.compareHeads_eq hdepicts'
      rw [Heap.equalsWithin]
      split_ifs
      · rfl
      · rfl
      · simp only [hpairs, List.all_eq_true]
        intro pair hpair
        obtain ⟨part, hleft, hright⟩ := hall pair hpair
        exact ih hleft hright _

/-! ## Plain values depict documents -/

/-- If each member of a row has a partner, there is a row of partners, and no others are in it. -/
theorem exists_partners {α β : Type} {related : α → β → Prop} {l : List α}
    (hall : ∀ x ∈ l, ∃ y, related x y) :
    ∃ l' : List β, l'.length = l.length ∧ (∀ pair ∈ l.zip l', related pair.1 pair.2) ∧
      ∀ y ∈ l', ∃ x ∈ l, related x y := by
  induction l with
  | nil => exact ⟨[], rfl, by simp, by simp⟩
  | cons x rest ih =>
      obtain ⟨⟨y, hy⟩, hrest⟩ := List.forall_mem_cons.1 hall
      obtain ⟨l', hlength, hpairs, hothers⟩ := ih hrest
      refine ⟨y :: l', congrArg (· + 1) hlength, List.forall_mem_cons.2 ⟨hy, hpairs⟩, ?_⟩
      refine List.forall_mem_cons.2 ⟨⟨x, List.mem_cons_self, hy⟩, fun other hother => ?_⟩
      obtain ⟨x', hx', hrelated⟩ := hothers other hother
      exact ⟨x', List.mem_cons_of_mem _ hx', hrelated⟩

theorem Plain.exists_depicts (hplain : h.Plain value) :
    ∃ tree, h.Depicts value tree ∧ tree.Proper := by
  induction hplain with
  | null => exact ⟨_, .null, .null⟩
  | boolean truth => exact ⟨_, .boolean truth, .boolean truth⟩
  | integer number =>
      exact ⟨_, .integer number, .integer (Int64.minValue_le_toInt number) (Int64.toInt_le number)⟩
  | float hfinite => exact ⟨_, .float hfinite, .float hfinite⟩
  | string text => exact ⟨_, .string text, .string text⟩
  | list hmade hholds _ ih =>
      obtain ⟨trees, hlength, hall, hproper⟩ := exists_partners ih
      refine ⟨_, .list hmade hholds hlength fun pair hpair => (hall pair hpair).1,
        .array fun tree htree => ?_⟩
      obtain ⟨item, -, -, hitem⟩ := hproper tree htree
      exact hitem
  | dict hmade hholds hkeys hrows ih =>
      rename_i address rows
      have hpartner : ∀ row ∈ rows, ∃ member : String × JsonTree,
          (row.rawKey = .string member.1 ∧ row.key = (Key.ofName member.1).text) ∧
            h.Depicts row.value member.2 ∧ member.2.Proper := by
        intro row hrow
        obtain ⟨name, hname⟩ := hkeys row hrow
        obtain ⟨tree, htree⟩ := ih row hrow
        exact ⟨(name, tree), hname, htree⟩
      -- Each row of the table has a member of its own name, so rows and members correspond in
      -- order.
      obtain ⟨members, hlength, hall, hproper⟩ := exists_partners hpartner
      have hnamed : Named rows members :=
        ⟨map_eq_map_of_zip hlength fun pair hpair => (hall pair hpair).1.1,
          map_eq_map_of_zip hlength fun pair hpair => (hall pair hpair).1.2⟩
      refine ⟨_, .dict hmade hholds hnamed fun pair hpair => (hall pair hpair).2.1,
        .object (JsonTree.sorted_sortedMembers members) fun member hmember => ?_⟩
      obtain ⟨row, -, -, -, htree⟩ := hproper member (JsonTree.mem_of_mem_sortedMembers hmember)
      exact htree

/-! ## The main statement -/

/-- Reading a proper document and writing what was read gives back the document, and writing plain
data and reading what was written gives a value equal to the data. -/
theorem json_round_trip :
    (∀ (h : Heap) (tree : JsonTree), tree.Proper →
      (h.ofJson tree).2.toJson (h.ofJson tree).1 = .ok tree) ∧
    ∀ (h : Heap) (value : Value), h.Plain value →
      ∃ tree, h.toJson value = .ok tree ∧
        (h.ofJson tree).2.equals (h.ofJson tree).1 value = true := by
  refine ⟨fun h tree hproper => ?_, fun h value hplain => ?_⟩
  · exact toJson_eq_ok_iff.2 (depicts_ofJson h tree hproper).2.written
  · obtain ⟨tree, hdepicts, hproper⟩ := hplain.exists_depicts
    obtain ⟨hextends, hread⟩ := depicts_ofJson h tree hproper
    exact ⟨tree, toJson_eq_ok_iff.2 hdepicts.written,
      hread.equalsWithin (hdepicts.mono hextends) _ _⟩

/-- A dict in which one list stands twice, under names that are not in order. -/
def sharing : Heap :=
  { empty with
    lists := #[.ofList [.integer 7, .float 0.5]]
    dicts := #[insertNamed (insertNamed .empty "y" (.list 0)) "x" (.list 0)] }

/-- An object goes through a dict and back, and a dict with a shared list through an object. -/
theorem sharing_round_trip :
    let tree : JsonTree := .object [("a", .array [.integer (-3), .null]), ("b", .object [])]
    tree.Proper ∧ (empty.ofJson tree).2.toJson (empty.ofJson tree).1 = .ok tree ∧
    sharing.Plain (.dict 0) ∧ ∃ tree, sharing.toJson (.dict 0) = .ok tree ∧
      (sharing.ofJson tree).2.equals (sharing.ofJson tree).1 (.dict 0) = true := by
  intro tree
  have hproper : tree.Proper := by
    refine .object ?_ (List.forall_mem_cons.2 ⟨?_, List.forall_mem_singleton.2 ?_⟩)
    · exact List.pairwise_pair.2 (show "a" < "b" by decide +kernel)
    · refine .array (List.forall_mem_cons.2 ⟨?_, List.forall_mem_singleton.2 .null⟩)
      exact .integer (by decide) (by decide)
    · exact .object .nil (by simp)
  have hlist : sharing.Plain (.list 0) := by
    refine .list Nat.zero_lt_one (ResizableArray.holds_ofList _) ?_
    exact List.forall_mem_cons.2
      ⟨.integer 7, List.forall_mem_singleton.2 (.float (by decide +kernel))⟩
  have hdict : sharing.Plain (.dict 0) := by
    obtain ⟨order, hfirst⟩ := HashTable.holds_empty.append (Value.string "y")
      (Key.ofName "y").text (Value.list 0)
    obtain ⟨order', hsecond⟩ := hfirst.append (Value.string "x") (Key.ofName "x").text
      (Value.list 0)
    refine .dict Nat.zero_lt_one hsecond ?_ ?_ <;> simp [Key.ofName, Key.ofText, hlist]
  exact ⟨hproper, json_round_trip.1 empty tree hproper, hdict,
    json_round_trip.2 sharing (.dict 0) hdict⟩

end Heap

end ScriptCore
