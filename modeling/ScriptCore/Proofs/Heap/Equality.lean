import ScriptCore.Equality
import ScriptCore.Proofs.Decimal.Order
import ScriptCore.Proofs.Heap.Sound

/-!
# What equality of values means

Two values differ if some finite path of matching positions leads from them to two values that
differ at the head (`Heap.Differs`).  This file shows that `Heap.equals` decides just that, on heaps
with cycles as on heaps without (`equals_decides_differs`).

* **Termination.**  `Heap.Compares` is the comparison as it goes, without a bound: a derivation is a
  run that ends.  The pairs that are being compared are different pairs of containers of the heap,
  of which there are finitely many, so the bound of `equals` is never used up
  (`compares_equalsWithin`).
* **No false alarm.**  A run that answers `false` has found a pair that differs at the head, and the
  pairs it was within are the path to it.
* **No difference is missed.**  A pair that is met again while it is being compared counts as equal,
  which may hide a difference below it.  But it cannot hide one at the end of a *shortest* path:
  each pair on the way differs by a shorter path than all pairs it is within, so it is none of them.

Going through the entries of one table finds every difference of keys, since two tables of the same
size either have the same keys or each lacks one that the other has.
-/

namespace ScriptCore

/-! ## Matching positions -/

/-- The value that stands beside a key in the arrays of a table. -/
def HashTable.valueOf? {κ ν : Type} (t : HashTable κ ν) (key : String) : Option ν :=
  (t.indexed.find? fun entry => entry.1 == key).map (·.2.2)

/-- A place inside a container: an index of a list, or the key of an entry or a field. -/
inductive Position
  | index (place : Nat)
  | key (text : String)
  deriving DecidableEq, Repr

/-- The kinds of values that equality tells apart at first sight.  All numbers are of one kind. -/
inductive Value.Kind
  | number
  | string
  | boolean
  | null
  | datetime
  | error
  | list
  | dict
  | struct
  | module
  | function
  deriving DecidableEq, Repr

/-- The kind of a value. -/
def Value.kind : Value → Value.Kind
  | integer _ => .number
  | float _ => .number
  | string _ => .string
  | boolean _ => .boolean
  | null => .null
  | datetime _ => .datetime
  | error .. => .error
  | list _ => .list
  | dict _ => .dict
  | struct _ => .struct
  | module _ => .module
  | function _ => .function

/-- Two values of one kind that are no containers are different.  Numbers of different types are
compared as floats; modules and functions are different unless they are the same one. -/
inductive Value.UnequalLeaves : Value → Value → Prop
  | integers {left right : Int64} (hne : left ≠ right) :
      UnequalLeaves (.integer left) (.integer right)
  | floats {left right : Float} (hne : (left == right) = false) :
      UnequalLeaves (.float left) (.float right)
  | mixed {integer : Int64} {float : Float} (hne : (Float.ofInt integer.toInt == float) = false) :
      UnequalLeaves (.integer integer) (.float float)
  | mixed' {integer : Int64} {float : Float} (hne : (Float.ofInt integer.toInt == float) = false) :
      UnequalLeaves (.float float) (.integer integer)
  | strings {left right : String} (hne : left ≠ right) :
      UnequalLeaves (.string left) (.string right)
  | booleans {left right : Bool} (hne : left ≠ right) :
      UnequalLeaves (.boolean left) (.boolean right)
  | datetimes {left right : Instant} (hne : left ≠ right) :
      UnequalLeaves (.datetime left) (.datetime right)
  | errors {label message label' message' : String} (hne : (label, message) ≠ (label', message')) :
      UnequalLeaves (.error label message) (.error label' message')
  | modules {left right : Address} (hne : left ≠ right) :
      UnequalLeaves (.module left) (.module right)
  | functions {left right : Address} (hne : left ≠ right) :
      UnequalLeaves (.function left) (.function right)

theorem Value.UnequalLeaves.symm {left right : Value} (hleaf : left.UnequalLeaves right) :
    right.UnequalLeaves left := by
  cases hleaf with
  | integers hne => exact .integers hne.symm
  | floats hne => exact .floats (BEq.comm.trans hne)
  | mixed hne => exact .mixed' hne
  | mixed' hne => exact .mixed hne
  | strings hne => exact .strings hne.symm
  | booleans hne => exact .booleans hne.symm
  | datetimes hne => exact .datetimes hne.symm
  | errors hne => exact .errors hne.symm
  | modules hne => exact .modules hne.symm
  | functions hne => exact .functions hne.symm

namespace Heap

/-- What stands at a position in a container. -/
def inner? (h : Heap) : Value → Position → Option Value
  | .list address, .index place => (h.list address).toList[place]?
  | .dict address, .key text => (h.dict address).valueOf? text
  | .struct address, .key text => (h.struct address).fields.table.valueOf? text
  | _, _ => none

/-- Two values can be told apart without looking into what they contain. -/
inductive DiffersAtHead (h : Heap) : Value → Value → Prop
  | kind {left right : Value} (hkind : left.kind ≠ right.kind) : DiffersAtHead h left right
  | leaf {left right : Value} (hleaf : left.UnequalLeaves right) : DiffersAtHead h left right
  | length {left right : Address} (hlength : (h.list left).count ≠ (h.list right).count) :
      DiffersAtHead h (.list left) (.list right)
  | size {left right : Address} (hsize : (h.dict left).count ≠ (h.dict right).count) :
      DiffersAtHead h (.dict left) (.dict right)
  | key {left right : Address} (text : String)
      (hkey : (h.inner? (.dict left) (.key text)).isSome ≠
        (h.inner? (.dict right) (.key text)).isSome) :
      DiffersAtHead h (.dict left) (.dict right)
  | factory {left right : Address} (hkind : (h.struct left).kind ≠ (h.struct right).kind) :
      DiffersAtHead h (.struct left) (.struct right)
  | field {left right : Address} (text : String)
      (hfield : (h.inner? (.struct left) (.key text)).isSome ≠
        (h.inner? (.struct right) (.key text)).isSome) :
      DiffersAtHead h (.struct left) (.struct right)

/-- A path of matching positions leads to values that differ at the head.  It never goes on below a
container and itself. -/
inductive Differs (h : Heap) : List Position → Value → Value → Prop
  | here {left right : Value} (hhead : h.DiffersAtHead left right) : Differs h [] left right
  | deeper {left right left' right' : Value} {position : Position} {path : List Position}
      (hapart : left ≠ right) (hleft : h.inner? left position = some left')
      (hright : h.inner? right position = some right') (hrest : Differs h path left' right') :
      Differs h (position :: path) left right

/-- The comparison as it goes: comparing two values within the given pairs comes to an answer.  The
pairs at matching positions are compared in order, up to the first that differs. -/
inductive Compares (h : Heap) : List (Value × Value) → Value → Value → Bool → Prop
  | same {comparing : List (Value × Value)} {left right : Value}
      (hsame : sameContainer left right = true) : Compares h comparing left right true
  | again {comparing : List (Value × Value)} {left right : Value}
      (hapart : sameContainer left right = false) (hagain : (left, right) ∈ comparing) :
      Compares h comparing left right true
  | heads {comparing : List (Value × Value)} {left right : Value}
      (hapart : sameContainer left right = false) (hnew : (left, right) ∉ comparing)
      (hheads : h.compareHeads left right = none) : Compares h comparing left right false
  | equal {comparing : List (Value × Value)} {left right : Value} {pairs : List (Value × Value)}
      (hapart : sameContainer left right = false) (hnew : (left, right) ∉ comparing)
      (hheads : h.compareHeads left right = some pairs)
      (hall : ∀ pair ∈ pairs, Compares h ((left, right) :: comparing) pair.1 pair.2 true) :
      Compares h comparing left right true
  | unequal {comparing : List (Value × Value)} {left right : Value}
      {before after : List (Value × Value)} {pair : Value × Value}
      (hapart : sameContainer left right = false) (hnew : (left, right) ∉ comparing)
      (hheads : h.compareHeads left right = some (before ++ pair :: after))
      (hbefore : ∀ pair ∈ before, Compares h ((left, right) :: comparing) pair.1 pair.2 true)
      (hpair : Compares h ((left, right) :: comparing) pair.1 pair.2 false) :
      Compares h comparing left right false

/-- The tables of dicts and structs hold rows, each key text under its own hash. -/
structure TablesHold (hashOf : String → UInt64) (h : Heap) : Prop where
  dict : ∀ address, ∃ rows, (h.dict address).Holds hashOf rows
  struct : ∀ address, ∃ rows, (h.struct address).fields.table.Holds hashOf rows

end Heap

/-! ## Comparing the heads of tables -/

private theorem mapM_eq_none_iff {α β : Type} {f : α → Option β} {l : List α} :
    l.mapM f = none ↔ ∃ x ∈ l, f x = none := by
  induction l with
  | nil => simp
  | cons x rest ih => cases hx : f x <;> cases hrest : rest.mapM f <;> simp_all

private theorem mem_of_mapM_eq_some {α β : Type} {f : α → Option β} {l : List α} {results : List β}
    (hresults : l.mapM f = some results) (result : β) :
    result ∈ results ↔ ∃ x ∈ l, f x = some result := by
  induction l generalizing results with
  | nil =>
      obtain rfl := Option.some.inj hresults
      simp
  | cons x rest ih =>
      cases hx : f x with
      | none => simp [hx] at hresults
      | some first =>
          cases hrest : rest.mapM f with
          | none => simp [hx, hrest] at hresults
          | some others =>
              obtain rfl : first :: others = results := by simpa [hx, hrest] using hresults
              simp [hx, ih hrest, eq_comm]

namespace HashTable

theorem valueOf?_empty {κ ν : Type} (key : String) :
    (empty : HashTable κ ν).valueOf? key = none :=
  rfl

variable {κ : Type} {hashOf : String → UInt64} {t t' : HashTable κ Value}
  {rows rows' : List (ChainEntry κ Value)}

theorem Holds.indexed_eq (ht : t.Holds hashOf rows) :
    t.indexed = rows.map fun row => (row.key, row.hash, row.value) := by
  rw [indexed, ht.keys.toList_eq, ht.hashes.toList_eq, ht.values.toList_eq, List.zip_map',
    List.zip_map']

theorem Holds.valueOf?_eq (ht : t.Holds hashOf rows) (key : String) :
    t.valueOf? key = (rows.find? fun row => row.key == key).map (·.value) := by
  rw [valueOf?, ht.indexed_eq, List.find?_map, Option.map_map]
  rfl

theorem Holds.isSome_valueOf?_iff (ht : t.Holds hashOf rows) (key : String) :
    (t.valueOf? key).isSome = true ↔ key ∈ rows.map (·.key) := by
  simp [ht.valueOf?_eq]

/-- The value of a row stands beside its key. -/
theorem Holds.valueOf?_of_mem (ht : t.Holds hashOf rows) {row : ChainEntry κ Value}
    (hrow : row ∈ rows) : t.valueOf? row.key = some row.value := by
  rw [ht.valueOf?_eq]
  cases hfound : rows.find? fun other => other.key == row.key with
  | none => simpa using List.find?_eq_none.1 hfound row hrow
  | some other =>
      have hkey : other.key = row.key := by simpa using List.find?_some hfound
      rw [List.inj_on_of_nodup_map ht.keys_nodup (List.mem_of_find?_eq_some hfound) hrow hkey]
      rfl

/-- Looking up the key of a row in another table finds the value that stands beside it. -/
theorem Holds.find?_map_value (ht' : t'.Holds hashOf rows') (ht : t.Holds hashOf rows)
    {row : ChainEntry κ Value} (hrow : row ∈ rows) :
    (t'.find? row.key row.hash).map (·.value) = t'.valueOf? row.key := by
  rw [ht.hash_eq row hrow, ht'.find?_eq, ht'.valueOf?_eq]

/-- The pairs of matching values are those that stand beside the same key. -/
theorem Holds.mem_of_matchingValues (ht : t.Holds hashOf rows) (ht' : t'.Holds hashOf rows')
    {pairs : List (Value × Value)} (hpairs : Heap.matchingValues t t' = some pairs)
    (value value' : Value) :
    (value, value') ∈ pairs ↔
      ∃ key, t.valueOf? key = some value ∧ t'.valueOf? key = some value' := by
  rw [mem_of_mapM_eq_some hpairs, ht.indexed_eq]
  constructor
  · rintro ⟨entry, hentry, hfound⟩
    obtain ⟨row, hrow, rfl⟩ := List.mem_map.1 hentry
    obtain ⟨found, hfind, heq⟩ := Option.map_eq_some_iff.1 hfound
    obtain ⟨rfl, rfl⟩ := Prod.mk.inj heq
    refine ⟨row.key, ht.valueOf?_of_mem hrow, ?_⟩
    rw [← ht'.find?_map_value ht hrow, hfind]
    rfl
  · rintro ⟨key, hvalue, hvalue'⟩
    have hsome : (t.valueOf? key).isSome = true := by rw [hvalue]; rfl
    obtain ⟨row, hrow, rfl⟩ := List.mem_map.1 ((ht.isSome_valueOf?_iff key).1 hsome)
    obtain rfl := Option.some.inj ((ht.valueOf?_of_mem hrow).symm.trans hvalue)
    rw [← ht'.find?_map_value ht hrow] at hvalue'
    obtain ⟨found, hfind, rfl⟩ := Option.map_eq_some_iff.1 hvalue'
    exact ⟨_, List.mem_map.2 ⟨row, hrow, rfl⟩, by simp [hfind]⟩

/-- Two tables of the same size have the same keys if the second has all keys of the first, so going
through the first one finds every difference. -/
theorem Holds.matchingValues_eq_none_iff (ht : t.Holds hashOf rows) (ht' : t'.Holds hashOf rows')
    (hcount : t.count = t'.count) :
    Heap.matchingValues t t' = none ↔
      ∃ key, (t.valueOf? key).isSome ≠ (t'.valueOf? key).isSome := by
  have hmissing : Heap.matchingValues t t' = none ↔ ¬ rows.map (·.key) ⊆ rows'.map (·.key) := by
    rw [Heap.matchingValues, mapM_eq_none_iff, ht.indexed_eq, List.subset_def]
    push Not
    constructor
    · rintro ⟨entry, hentry, hnone⟩
      obtain ⟨row, hrow, rfl⟩ := List.mem_map.1 hentry
      refine ⟨row.key, List.mem_map.2 ⟨row, hrow, rfl⟩, ?_⟩
      rw [← ht'.isSome_valueOf?_iff, ← ht'.find?_map_value ht hrow]
      simpa using hnone
    · rintro ⟨key, hkey, hno⟩
      obtain ⟨row, hrow, rfl⟩ := List.mem_map.1 hkey
      rw [← ht'.isSome_valueOf?_iff, ← ht'.find?_map_value ht hrow] at hno
      exact ⟨_, List.mem_map.2 ⟨row, hrow, rfl⟩, by simpa using hno⟩
  rw [hmissing]
  constructor
  · intro hnot
    rw [List.subset_def] at hnot
    push Not at hnot
    obtain ⟨key, hkey, hno⟩ := hnot
    refine ⟨key, ?_⟩
    rw [← ht.isSome_valueOf?_iff] at hkey
    rw [← ht'.isSome_valueOf?_iff] at hno
    simp [hkey, hno]
  · rintro ⟨key, hne⟩ hsubset
    -- As many different keys as in the other table, all of them in it, are all of its keys.
    have hperm : (rows.map (·.key)).Perm (rows'.map (·.key)) := by
      refine (List.subperm_of_subset ht.keys_nodup hsubset).perm_of_length_le ?_
      rw [List.length_map, List.length_map, ← ht.count_eq, ← ht'.count_eq, hcount]
    refine hne (Bool.eq_iff_iff.2 ?_)
    rw [ht.isSome_valueOf?_iff, ht'.isSome_valueOf?_iff, hperm.mem_iff]

/-- Tables with the same keys are of the same size. -/
theorem Holds.count_eq_of_keys (ht : t.Holds hashOf rows) (ht' : t'.Holds hashOf rows')
    (hkeys : ∀ key, (t.valueOf? key).isSome = (t'.valueOf? key).isSome) : t.count = t'.count := by
  have hperm : (rows.map (·.key)).Perm (rows'.map (·.key)) := by
    rw [List.perm_ext_iff_of_nodup ht.keys_nodup ht'.keys_nodup]
    intro key
    rw [← ht.isSome_valueOf?_iff, ← ht'.isSome_valueOf?_iff, hkeys]
  have hlength := hperm.length_eq
  rwa [List.length_map, List.length_map, ← ht.count_eq, ← ht'.count_eq] at hlength

/-- Tables of different sizes, or with values that cannot be matched, have a key in one of them
only. -/
theorem Holds.exists_key_of_mismatch (ht : t.Holds hashOf rows) (ht' : t'.Holds hashOf rows')
    (hmismatch : t.count = t'.count → Heap.matchingValues t t' = none) :
    ∃ key, (t.valueOf? key).isSome ≠ (t'.valueOf? key).isSome := by
  by_cases hcount : t.count = t'.count
  · exact (ht.matchingValues_eq_none_iff ht' hcount).1 (hmismatch hcount)
  · by_contra hsame
    push Not at hsame
    exact hcount (ht.count_eq_of_keys ht' hsame)

end HashTable

namespace Heap

variable {h : Heap} {hashOf : String → UInt64} {left right : Value}
  {comparing pairs : List (Value × Value)}

/-! ## Comparing heads -/

/-- What it means that two heads agree: nothing is left to compare below them, or they are two
containers of a kind and the pairs are those of their contents. -/
theorem compareHeads_cases (hpairs : h.compareHeads left right = some pairs) :
    ((∀ position, h.inner? left position = none) ∧ pairs = []) ∨
    (∃ address address', left = .list address ∧ right = .list address' ∧
      (h.list address).toList.zip (h.list address').toList = pairs) ∨
    (∃ address address', left = .dict address ∧ right = .dict address' ∧
      matchingValues (h.dict address) (h.dict address') = some pairs) ∨
    (∃ address address', left = .struct address ∧ right = .struct address' ∧
      matchingValues (h.struct address).fields.table (h.struct address').fields.table =
        some pairs) := by
  cases left with
  | list address =>
      cases right with
      | list address' =>
          unfold compareHeads at hpairs
          simp only at hpairs
          split at hpairs
          · exact .inr (.inl ⟨address, address', rfl, rfl, Option.some.inj hpairs⟩)
          · nomatch hpairs
      | _ => nomatch hpairs
  | dict address =>
      cases right with
      | dict address' =>
          unfold compareHeads at hpairs
          simp only at hpairs
          split at hpairs
          · exact .inr (.inr (.inl ⟨address, address', rfl, rfl, hpairs⟩))
          · nomatch hpairs
      | _ => nomatch hpairs
  | struct address =>
      cases right with
      | struct address' =>
          unfold compareHeads at hpairs
          simp only at hpairs
          split at hpairs
          · exact .inr (.inr (.inr ⟨address, address', rfl, rfl, hpairs⟩))
          · nomatch hpairs
      | _ => nomatch hpairs
  | _ =>
      refine .inl ⟨fun _ => rfl, ?_⟩
      unfold compareHeads at hpairs
      cases right <;> simp_all

/-- Where nothing stands at an index, the matching positions are keys. -/
theorem exists_position_iff_key (hleft : ∀ place, h.inner? left (.index place) = none)
    (left' right' : Value) :
    (∃ position, h.inner? left position = some left' ∧ h.inner? right position = some right') ↔
      ∃ text, h.inner? left (.key text) = some left' ∧
        h.inner? right (.key text) = some right' := by
  constructor
  · rintro ⟨position, hvalue, hvalue'⟩
    cases position with
    | index place => nomatch (hleft place).symm.trans hvalue
    | key text => exact ⟨text, hvalue, hvalue'⟩
  · rintro ⟨text, hvalues⟩
    exact ⟨.key text, hvalues⟩

/-- The pairs to be compared below two heads are those at matching positions. -/
theorem TablesHold.mem_of_compareHeads (hh : h.TablesHold hashOf)
    (hpairs : h.compareHeads left right = some pairs) (left' right' : Value) :
    (left', right') ∈ pairs ↔
      ∃ position, h.inner? left position = some left' ∧ h.inner? right position = some right' := by
  obtain ⟨hinner, rfl⟩ | ⟨address, address', rfl, rfl, rfl⟩ |
    ⟨address, address', rfl, rfl, hvalues⟩ | ⟨address, address', rfl, rfl, hvalues⟩ :=
      compareHeads_cases hpairs
  · simp [hinner]
  · -- Lists pair up what stands at one index.
    rw [List.mem_iff_getElem?]
    constructor
    · rintro ⟨place, hplace⟩
      exact ⟨.index place, List.getElem?_zip_eq_some.1 hplace⟩
    · rintro ⟨position, hleft, hright⟩
      cases position with
      | index place => exact ⟨place, List.getElem?_zip_eq_some.2 ⟨hleft, hright⟩⟩
      | key text => nomatch hleft
  · obtain ⟨rows, ht⟩ := hh.dict address
    obtain ⟨rows', ht'⟩ := hh.dict address'
    rw [ht.mem_of_matchingValues ht' hvalues, exists_position_iff_key fun _ => rfl]
    rfl
  · obtain ⟨rows, ht⟩ := hh.struct address
    obtain ⟨rows', ht'⟩ := hh.struct address'
    rw [ht.mem_of_matchingValues ht' hvalues, exists_position_iff_key fun _ => rfl]
    rfl

theorem differsAtHead_of_dicts (hh : h.TablesHold hashOf) {address address' : Address}
    (hmismatch : (h.dict address).count = (h.dict address').count →
      matchingValues (h.dict address) (h.dict address') = none) :
    h.DiffersAtHead (.dict address) (.dict address') := by
  obtain ⟨rows, ht⟩ := hh.dict address
  obtain ⟨rows', ht'⟩ := hh.dict address'
  obtain ⟨text, hkey⟩ := ht.exists_key_of_mismatch ht' hmismatch
  exact .key text hkey

theorem differsAtHead_of_structs (hh : h.TablesHold hashOf) {address address' : Address}
    (hmismatch : (h.struct address).fields.count = (h.struct address').fields.count →
      matchingValues (h.struct address).fields.table (h.struct address').fields.table = none) :
    h.DiffersAtHead (.struct address) (.struct address') := by
  obtain ⟨rows, ht⟩ := hh.struct address
  obtain ⟨rows', ht'⟩ := hh.struct address'
  obtain ⟨text, hfield⟩ := ht.exists_key_of_mismatch ht' hmismatch
  exact .field text hfield

private theorem differsAtHead_of_compareHeads (hh : h.TablesHold hashOf)
    (hnone : h.compareHeads left right = none) (hkind : left.kind = right.kind) :
    h.DiffersAtHead left right := by
  unfold compareHeads at hnone
  cases left with
  | null => cases right <;> simp_all [Value.kind]
  | boolean truth =>
      cases right with
      | boolean truth' => exact .leaf (.booleans (by simpa using hnone))
      | _ => nomatch hkind
  | integer number =>
      cases right with
      | integer number' => exact .leaf (.integers (by simpa using hnone))
      | float number' =>
          have hne : sameNumber number number' = false := by simpa using hnone
          exact .leaf (.mixed hne)
      | _ => nomatch hkind
  | float number =>
      cases right with
      | integer number' =>
          have hne : sameNumber number' number = false := by simpa using hnone
          exact .leaf (.mixed' hne)
      | float number' => exact .leaf (.floats (by simpa using hnone))
      | _ => nomatch hkind
  | string text =>
      cases right with
      | string text' => exact .leaf (.strings (by simpa using hnone))
      | _ => nomatch hkind
  | datetime instant =>
      cases right with
      | datetime instant' => exact .leaf (.datetimes (by simpa using hnone))
      | _ => nomatch hkind
  | error label message =>
      cases right with
      | error label' message' => exact .leaf (.errors (by simpa using hnone))
      | _ => nomatch hkind
  | list address =>
      cases right with
      | list address' => exact .length (by simpa using hnone)
      | _ => nomatch hkind
  | dict address =>
      cases right with
      | dict address' =>
          exact differsAtHead_of_dicts hh (by simpa using hnone)
      | _ => nomatch hkind
  | struct address =>
      cases right with
      | struct address' =>
          by_cases hfactory : (h.struct address).kind = (h.struct address').kind
          · exact differsAtHead_of_structs hh (by simpa [hfactory] using hnone)
          · exact .factory hfactory
      | _ => nomatch hkind
  | module address =>
      cases right with
      | module address' => exact .leaf (.modules (by simpa using hnone))
      | _ => nomatch hkind
  | function address =>
      cases right with
      | function address' => exact .leaf (.functions (by simpa using hnone))
      | _ => nomatch hkind

/-- Two heads disagree if the values differ there. -/
theorem TablesHold.compareHeads_eq_none_iff (hh : h.TablesHold hashOf) :
    h.compareHeads left right = none ↔ h.DiffersAtHead left right := by
  constructor
  · intro hnone
    by_cases hkind : left.kind = right.kind
    · exact differsAtHead_of_compareHeads hh hnone hkind
    · exact .kind hkind
  · intro hhead
    unfold compareHeads
    cases hhead with
    | kind hkind => cases left <;> cases right <;> simp_all [Value.kind]
    | leaf hleaf => cases hleaf <;> simp_all [sameNumber]
    | length hlength => simp [hlength]
    | size hsize => simp [hsize]
    | key text hkey =>
        obtain ⟨rows, ht⟩ := hh.dict _
        obtain ⟨rows', ht'⟩ := hh.dict _
        simpa using fun hsize =>
          (ht.matchingValues_eq_none_iff ht' hsize).2 ⟨text, hkey⟩
    | factory hkind => simp [hkind]
    | field text hfield =>
        obtain ⟨rows, ht⟩ := hh.struct _
        obtain ⟨rows', ht'⟩ := hh.struct _
        simpa [NameTable.count] using fun _ hsize =>
          (ht.matchingValues_eq_none_iff ht' hsize).2 ⟨text, hfield⟩

/-! ## The comparison ends -/

/-- A value with something inside is a container that was made. -/
theorem made_of_inner? {value inside : Value} {position : Position}
    (hinner : h.inner? value position = some inside) : h.Made value := by
  by_contra hnot
  -- Where nothing was made stands an empty container, and in that nothing is found.
  cases value with
  | list address =>
      cases position with
      | index place =>
          rw [inner?, h.list_of_not_made hnot, ResizableArray.holds_empty.toList_eq] at hinner
          nomatch hinner
      | key text => nomatch hinner
  | dict address =>
      cases position with
      | index place => nomatch hinner
      | key text =>
          rw [inner?, h.dict_of_not_made hnot, HashTable.valueOf?_empty] at hinner
          nomatch hinner
  | struct address =>
      cases position with
      | index place => nomatch hinner
      | key text =>
          rw [inner?, h.struct_of_not_made hnot] at hinner
          exact nomatch hinner.symm.trans (HashTable.valueOf?_empty text)
  | _ => cases position <;> nomatch hinner

/-- The pairs of containers of a kind. -/
def containerPairs (h : Heap) : List (Value × Value) :=
  let lists := (List.range h.lists.size).map Value.list
  let dicts := (List.range h.dicts.size).map Value.dict
  let structs := (List.range h.structs.size).map Value.struct
  lists ×ˢ lists ++ dicts ×ˢ dicts ++ structs ×ˢ structs

theorem comparisonLevels_eq (h : Heap) :
    h.comparisonLevels = h.containerPairs.length + 2 := by
  simp [comparisonLevels, containerPairs, List.length_product, Nat.add_assoc]

/-- Only containers of a kind that were made have contents to be compared. -/
theorem TablesHold.mem_containerPairs (hh : h.TablesHold hashOf) {pair : Value × Value}
    (hpairs : h.compareHeads left right = some pairs) (hpair : pair ∈ pairs) :
    (left, right) ∈ h.containerPairs := by
  obtain ⟨position, hleft, hright⟩ := (hh.mem_of_compareHeads hpairs pair.1 pair.2).1 hpair
  have hmade := made_of_inner? hleft
  have hmade' := made_of_inner? hright
  obtain ⟨hinner, rfl⟩ | ⟨address, address', rfl, rfl, -⟩ | ⟨address, address', rfl, rfl, -⟩ |
    ⟨address, address', rfl, rfl, -⟩ := compareHeads_cases hpairs
  · nomatch hpair
  · simp_all [containerPairs, Made, List.mem_product]
  · simp_all [containerPairs, Made, List.mem_product]
  · simp_all [containerPairs, Made, List.mem_product]

private theorem exists_first_false {α : Type} {p : α → Bool} {l : List α} (hall : l.all p = false) :
    ∃ before x after, l = before ++ x :: after ∧ (∀ y ∈ before, p y = true) ∧ p x = false := by
  cases hfirst : l.find? (!p ·) with
  | none =>
      have htrue : l.all p = true := by simpa using hfirst
      rw [hall] at htrue
      nomatch htrue
  | some x =>
      obtain ⟨hx, before, after, rfl, hbefore⟩ := List.find?_eq_some_iff_append.1 hfirst
      exact ⟨before, x, after, rfl, by simpa using hbefore, by simpa using hx⟩

/-- The comparison within a number of levels is the one without a bound if no more pairs of
containers are left than levels. -/
theorem TablesHold.compares_equalsWithin (hh : h.TablesHold hashOf) {levels : Nat}
    (hnodup : comparing.Nodup) (hcomparing : comparing ⊆ h.containerPairs)
    (hlevels : h.containerPairs.length < levels + comparing.length) :
    h.Compares comparing left right (h.equalsWithin levels comparing left right) := by
  induction levels generalizing comparing left right with
  | zero =>
      -- No level is left: there would be more different pairs within each other than there are
      -- pairs.
      have := (List.subperm_of_subset hnodup hcomparing).length_le
      omega
  | succ levels ih =>
      rw [equalsWithin]
      by_cases hsame : sameContainer left right = true
      · rw [if_pos hsame]
        exact .same hsame
      rw [if_neg hsame]
      have hapart := Bool.eq_false_iff.2 hsame
      by_cases hagain : (left, right) ∈ comparing
      · rw [if_pos hagain]
        exact .again hapart hagain
      rw [if_neg hagain]
      cases hheads : h.compareHeads left right with
      | none => exact .heads hapart hagain hheads
      | some pairs =>
          have hinside : ∀ pair ∈ pairs, h.Compares ((left, right) :: comparing) pair.1 pair.2
              (h.equalsWithin levels ((left, right) :: comparing) pair.1 pair.2) := by
            intro pair hpair
            refine ih (List.nodup_cons.2 ⟨hagain, hnodup⟩)
              (List.cons_subset.2 ⟨hh.mem_containerPairs hheads hpair, hcomparing⟩) ?_
            rw [List.length_cons]
            omega
          simp only
          cases hall : pairs.all fun pair =>
              h.equalsWithin levels ((left, right) :: comparing) pair.1 pair.2 with
          | true =>
              refine .equal hapart hagain hheads fun pair hpair => ?_
              exact List.all_eq_true.1 hall pair hpair ▸ hinside pair hpair
          | false =>
              obtain ⟨before, pair, after, rfl, hbefore, hpair⟩ := exists_first_false hall
              refine .unequal hapart hagain hheads (fun pair' hpair' => ?_) ?_
              · exact hbefore pair' hpair' ▸ hinside pair' (List.mem_append_left _ hpair')
              · exact hpair ▸ hinside pair (List.mem_append_right _ List.mem_cons_self)

/-- The unbounded comparison comes to one answer only. -/
theorem Compares.unique {answer answer' : Bool} (hcompares : h.Compares comparing left right answer)
    (hcompares' : h.Compares comparing left right answer') : answer = answer' := by
  induction hcompares generalizing answer' with
  | same hsame =>
      cases hcompares' with
      | same | again | equal => rfl
      | heads hapart | unequal hapart => rw [hsame] at hapart; nomatch hapart
  | again hapart hagain =>
      cases hcompares' with
      | same | again | equal => rfl
      | heads _ hnew | unequal _ hnew => exact absurd hagain hnew
  | heads hapart hnew hheads =>
      cases hcompares' with
      | same hsame => rw [hsame] at hapart; nomatch hapart
      | again _ hagain => exact absurd hagain hnew
      | equal _ _ hheads' => rw [hheads] at hheads'; nomatch hheads'
      | heads | unequal => rfl
  | equal hapart hnew hheads _ ih =>
      cases hcompares' with
      | same | again | equal => rfl
      | heads _ _ hheads' => rw [hheads] at hheads'; nomatch hheads'
      | unequal _ _ hheads' _ hpair =>
          obtain rfl := Option.some.inj (hheads.symm.trans hheads')
          exact ih _ (List.mem_append_right _ List.mem_cons_self) hpair
  | unequal hapart hnew hheads _ _ _ ih =>
      cases hcompares' with
      | same hsame => rw [hsame] at hapart; nomatch hapart
      | again _ hagain => exact absurd hagain hnew
      | equal _ _ hheads' hall =>
          obtain rfl := Option.some.inj (hheads.symm.trans hheads')
          exact ih (hall _ (List.mem_append_right _ List.mem_cons_self))
      | heads | unequal => rfl

/-! ## A difference is at the end of a path -/

/-- Two identical containers do not differ. -/
theorem Differs.not_sameContainer {path : List Position} (hdiffers : h.Differs path left right) :
    sameContainer left right = false := by
  cases hdiffers with
  | here hhead =>
      cases hhead with
      | kind hkind => cases left <;> cases right <;> simp_all [Value.kind, sameContainer]
      | leaf hleaf => cases hleaf <;> rfl
      | length hlength => exact beq_eq_false_iff_ne.2 fun heq => hlength (heq ▸ rfl)
      | size hsize => exact beq_eq_false_iff_ne.2 fun heq => hsize (heq ▸ rfl)
      | key text hkey => exact beq_eq_false_iff_ne.2 fun heq => hkey (heq ▸ rfl)
      | factory hkind => exact beq_eq_false_iff_ne.2 fun heq => hkind (heq ▸ rfl)
      | field text hfield => exact beq_eq_false_iff_ne.2 fun heq => hfield (heq ▸ rfl)
  | deeper hapart hleft hright hrest =>
      cases left <;> cases right <;> simp_all [sameContainer]

/-- Values with something inside that are not the same container are different. -/
theorem ne_of_inner? {inside : Value} {position : Position}
    (hapart : sameContainer left right = false) (hinner : h.inner? left position = some inside) :
    left ≠ right := by
  rintro rfl
  cases left <;> cases position <;> simp_all [sameContainer, inner?]

/-- If the comparison finds a difference, there is a path to it. -/
theorem Compares.exists_differs (hh : h.TablesHold hashOf)
    (hcompares : h.Compares comparing left right false) : ∃ path, h.Differs path left right := by
  generalize hanswer : false = answer at hcompares
  induction hcompares with
  | same | again | equal => nomatch hanswer
  | heads _ _ hheads => exact ⟨[], .here (hh.compareHeads_eq_none_iff.1 hheads)⟩
  | unequal hapart _ hheads _ _ _ ih =>
      obtain ⟨path, hrest⟩ := ih hanswer
      obtain ⟨position, hleft, hright⟩ := (hh.mem_of_compareHeads hheads _ _).1
        (List.mem_append_right _ List.mem_cons_self)
      exact ⟨position :: path, .deeper (ne_of_inner? hapart hleft) hleft hright hrest⟩

/-- A path to a difference is not longer than any other from the same values. -/
def Shortest (h : Heap) (path : List Position) (left right : Value) : Prop :=
  h.Differs path left right ∧ ∀ path', h.Differs path' left right → path.length ≤ path'.length

theorem Differs.exists_shortest {path : List Position} (hdiffers : h.Differs path left right) :
    ∃ path, h.Shortest path left right := by
  obtain ⟨shortest, hshortest, hmin⟩ := (measure List.length).wf.has_min
    {path | h.Differs path left right} ⟨path, hdiffers⟩
  exact ⟨shortest, hshortest, fun path' hpath' => Nat.le_of_not_lt (hmin path' hpath')⟩

/-- The comparison does not miss a difference at the end of a shortest path, provided that all paths
from the pairs it is within are longer. -/
theorem Compares.not_of_shortest (hh : h.TablesHold hashOf) {path : List Position}
    (hpath : h.Shortest path left right)
    (hcomparing : ∀ pair ∈ comparing, ∀ path', h.Differs path' pair.1 pair.2 →
      path.length < path'.length) : ¬ h.Compares comparing left right true := by
  intro hcompares
  generalize hanswer : true = answer at hcompares
  induction hcompares generalizing path with
  | same hsame => rw [hpath.1.not_sameContainer] at hsame; nomatch hsame
  | again _ hagain => exact Nat.lt_irrefl _ (hcomparing _ hagain path hpath.1)
  | heads | unequal => nomatch hanswer
  | equal _ _ hheads _ ih =>
      obtain ⟨hdiffers, hmin⟩ := hpath
      cases hdiffers with
      | here hhead => rw [hh.compareHeads_eq_none_iff.2 hhead] at hheads; nomatch hheads
      | deeper hapart hleft hright hrest =>
          rename_i left' right' position path
          -- The rest of a shortest path is a shortest path from the pair it leads to.
          have hlonger : ∀ path', h.Differs path' left' right' → path.length ≤ path'.length :=
            fun path' hpath' =>
              Nat.le_of_succ_le_succ (hmin _ (.deeper hapart hleft hright hpath'))
          refine ih (left', right') ((hh.mem_of_compareHeads hheads _ _).2 ⟨_, hleft, hright⟩)
            ⟨hrest, hlonger⟩ (fun pair hpair path' hpath' => ?_) hanswer
          -- The rest is shorter than every path from the pair just left, and than those from the
          -- pairs that it is within.
          rcases List.mem_cons.1 hpair with rfl | hpair
          · exact hmin path' hpath'
          · exact Nat.lt_of_succ_lt (hcomparing pair hpair path' hpath')

/-! ## Either way round -/

theorem DiffersAtHead.symm (hhead : h.DiffersAtHead left right) : h.DiffersAtHead right left := by
  cases hhead with
  | kind hkind => exact .kind hkind.symm
  | leaf hleaf => exact .leaf hleaf.symm
  | length hlength => exact .length hlength.symm
  | size hsize => exact .size hsize.symm
  | key text hkey => exact .key text hkey.symm
  | factory hkind => exact .factory hkind.symm
  | field text hfield => exact .field text hfield.symm

theorem Differs.symm {path : List Position} (hdiffers : h.Differs path left right) :
    h.Differs path right left := by
  induction hdiffers with
  | here hhead => exact .here hhead.symm
  | deeper hapart hleft hright _ ih => exact .deeper hapart.symm hright hleft ih

/-! ## Equality -/

/-- The comparison without a bound comes to an end, with the answer of `equals`. -/
theorem TablesHold.compares_iff (hh : h.TablesHold hashOf) (answer : Bool) :
    h.Compares [] left right answer ↔ answer = h.equals left right := by
  have hcompares : h.Compares [] left right (h.equals left right) :=
    hh.compares_equalsWithin .nil (List.nil_subset _) (by simp [comparisonLevels_eq])
  constructor
  · intro hanswer
    exact hanswer.unique hcompares
  · rintro rfl
    exact hcompares

theorem TablesHold.equals_eq_false_iff (hh : h.TablesHold hashOf) :
    h.equals left right = false ↔ ∃ path, h.Differs path left right := by
  constructor
  · intro hfalse
    exact ((hh.compares_iff false).2 hfalse.symm).exists_differs hh
  · rintro ⟨path, hdiffers⟩
    obtain ⟨shortest, hshortest⟩ := hdiffers.exists_shortest
    refine Bool.eq_false_iff.2 fun htrue => ?_
    exact Compares.not_of_shortest hh hshortest (fun _ hpair => absurd hpair List.not_mem_nil)
      ((hh.compares_iff true).2 htrue.symm)

/-- On every heap whose tables hold rows, comparing two values comes to an end, and it finds them
unequal just if some path of matching positions leads to values that differ at the head.  So it does
not matter which of the two is the left one. -/
theorem equals_decides_differs (hh : h.TablesHold hashOf) :
    (∀ answer, h.Compares [] left right answer ↔ answer = h.equals left right) ∧
    (h.equals left right = false ↔ ∃ path, h.Differs path left right) ∧
    h.equals left right = h.equals right left := by
  refine ⟨hh.compares_iff, hh.equals_eq_false_iff, ?_⟩
  have hsymm : h.equals left right = false ↔ h.equals right left = false := by
    rw [hh.equals_eq_false_iff, hh.equals_eq_false_iff]
    exact ⟨fun ⟨path, hdiffers⟩ => ⟨path, hdiffers.symm⟩,
      fun ⟨path, hdiffers⟩ => ⟨path, hdiffers.symm⟩⟩
  cases hleft : h.equals left right <;> cases hright : h.equals right left <;> simp_all

/-- The first two lists hold themselves, the third one holds the fourth, which is empty; each of the
first three stands in a dict. -/
def knots : Heap :=
  { empty with
    lists := #[.ofList [.list 0], .ofList [.list 1], .ofList [.list 3], .ofList []]
    dicts := #[entry (.list 0), entry (.list 1), entry (.list 2)] }
where
  entry (value : Value) : DictTable := HashTable.empty.append (.string "a") 0 "a" value

theorem equals_knots :
    knots.TablesHold (fun _ => 0) ∧ knots.Compares [] (.dict 0) (.dict 1) true ∧
    knots.Compares [] (.dict 0) (.dict 2) false ∧
    ∃ path, knots.Differs path (.dict 2) (.dict 0) := by
  have hentry : ∀ value, ∃ rows, (knots.entry value).Holds (fun _ => 0) rows := by
    intro value
    obtain ⟨_, hrows⟩ := HashTable.holds_empty.append (Value.string "a") "a" value
    exact ⟨_, hrows⟩
  have hknots : knots.TablesHold fun _ => 0 := by
    refine ⟨fun address => ?_, fun _ => ⟨[], HashTable.holds_empty⟩⟩
    match address with
    | 0 | 1 | 2 => exact hentry _
    | _ + 3 => exact ⟨[], HashTable.holds_empty⟩
  refine ⟨hknots, ((equals_decides_differs hknots).1 true).2 (by decide),
    ((equals_decides_differs hknots).1 false).2 (by decide),
    (equals_decides_differs hknots).2.1.1 (by decide)⟩

end Heap

end ScriptCore
