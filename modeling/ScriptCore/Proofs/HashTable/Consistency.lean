import Mathlib.Algebra.GroupWithZero.Nat
import ScriptCore.Proofs.HashTable.Listing
import ScriptCore.Proofs.Transcript

/-!
# Hash tables under any hashes

Callers are trusted to give one key text one hash.  Here they are not: a text may come with another
hash each time, so a table can hold it several times, once in each of several buckets.  A removal
then takes the first node with the key out of the chain that the hash names, but the first position
with the key out of the arrays, and the two need not have been written together; only when the table
grows are the arrays made anew from the chains.

What remains is `Consistent`: chains and arrays have as many entries as the table counts and the
same keys equally often, and every node is in the bucket of its hash.  That is enough for removing
never to stop halfway, since a key that was found in a chain is in the array of keys too.

* `Stores t rows` says which rows the chains hold, and that the arrays agree with them so far.  Each
  operation keeps it, for the rows that it leaves (`Stores.grow`, `Stores.removed`,
  `Stores.append`).
* `consistent_transcript` says it of every table that operations and look-ups lead to, together
  with what removing does there (`Removed`).
-/

namespace ScriptCore.HashTable

variable {κ ν α : Type}

/-! ## Requests -/

/-- What can be asked of a table: an operation that changes it, or the value of a key. -/
inductive Request (κ ν : Type)
  | operation (change : Operation κ ν)
  | search (key : String) (hash : UInt64)

/-- Carries out a request.  Looking up changes nothing. -/
def Request.perform : Request κ ν → HashTable κ ν → Except RuntimeError (Option ν) × HashTable κ ν
  | .operation change, t => change.perform t
  | .search key hash, t => ((t.search key hash).map some, t)

/-! ## Arrays of a length -/

/-- The array holds that many elements. -/
def HoldsMany (a : ResizableArray α) (number : Nat) : Prop :=
  ∃ items, a.Holds items ∧ items.length = number

theorem HoldsMany.length_eq {a : ResizableArray α} {number : Nat} (ha : HoldsMany a number) :
    a.toList.length = number := by
  obtain ⟨items, hitems, hlength⟩ := ha
  rw [hitems.toList_eq, hlength]

theorem holdsMany_ofList (items : List α) : HoldsMany (.ofList items) items.length :=
  ⟨items, ResizableArray.holds_ofList items, rfl⟩

theorem HoldsMany.append {a : ResizableArray α} {number : Nat} (ha : HoldsMany a number)
    (value : α) : HoldsMany (a.append value) (number + 1) := by
  obtain ⟨items, hitems, rfl⟩ := ha
  exact ⟨_, hitems.append value, List.length_append⟩

theorem HoldsMany.removeAt {a : ResizableArray α} {number : Nat} (ha : HoldsMany a (number + 1))
    {place : Nat} (hplace : place < number + 1) :
    ∃ value after, a.removeAt place = (.ok value, after) ∧ HoldsMany after number ∧
      after.toList = a.toList.eraseIdx place := by
  obtain ⟨items, hitems, hlength⟩ := ha
  obtain ⟨after, hremoved, hafter⟩ := hitems.removeAt_natCast (hlength ▸ hplace)
  refine ⟨_, after, hremoved, ⟨_, hafter, ?_⟩, by rw [hafter.toList_eq, hitems.toList_eq]⟩
  rw [List.length_eraseIdx_of_lt (hlength ▸ hplace), hlength, Nat.add_sub_cancel]

/-! ## Consistency -/

/-- What chains and arrays have in common, whatever hashes the keys came with. -/
structure Consistent (t : HashTable κ ν) : Prop where
  rawKeys : HoldsMany t.rawKeys t.count
  hashes : HoldsMany t.hashes t.count
  keys : HoldsMany t.keys t.count
  values : HoldsMany t.values t.count
  chainLengths_sum : t.chainLengths.sum = t.count
  /-- Each key is in the chains as often as in the array of keys. -/
  keys_perm : (t.buckets.toList.flatten.map (·.key)).Perm t.keys.toList
  bucketOf_eq : ∀ bucket < t.capacity, ∀ entry ∈ t.chain bucket, t.bucketOf entry.hash = bucket
  buckets_size : t.buckets.size = t.capacity

/-- One table is another without one node and without one position of each array, which have the
same key. -/
structure Takes (t after : HashTable κ ν) (entry : ChainEntry κ ν) : Prop where
  capacity_eq : after.capacity = t.capacity
  count_eq : after.count + 1 = t.count
  chain_eq : ∃ front back, t.chain (t.bucketOf entry.hash) = front ++ entry :: back ∧
    after.chain (t.bucketOf entry.hash) = front ++ back
  other_chain_eq : ∀ bucket ≠ t.bucketOf entry.hash, after.chain bucket = t.chain bucket
  arrays_eq : ∃ position, t.keys.toList[position]? = some entry.key ∧
    after.rawKeys.toList = t.rawKeys.toList.eraseIdx position ∧
    after.hashes.toList = t.hashes.toList.eraseIdx position ∧
    after.keys.toList = t.keys.toList.eraseIdx position ∧
    after.values.toList = t.values.toList.eraseIdx position

/-- The two ways in which removing a key can end. -/
inductive Removed (t : HashTable κ ν) (key : String) (hash : UInt64) :
    Except RuntimeError ν × HashTable κ ν → Prop
  /-- The bucket of the hash does not hold the key, and the table is as it was. -/
  | absent (habsent : t.contains key hash = false) :
      Removed t key hash (.error (.keyNotFound key), t)
  /-- An entry with the key, from the bucket of the hash, is taken out. -/
  | taken (entry : ChainEntry κ ν) (after : HashTable κ ν) (hkey : entry.key = key)
      (hbucket : t.bucketOf entry.hash = t.bucketOf hash) (htakes : t.Takes after entry) :
      Removed t key hash (.ok entry.value, after)

/-! ## The rows of a table -/

/-- The chains hold the given rows, and the arrays hold as many elements, with the same keys. -/
structure Stores (t : HashTable κ ν) (rows : List (ChainEntry κ ν)) : Prop where
  capacity_pos : 0 < t.capacity
  chained : Chained t.capacity t.buckets rows
  count_eq : t.count = rows.length
  rawKeys : HoldsMany t.rawKeys rows.length
  hashes : HoldsMany t.hashes rows.length
  keys : ∃ keys, t.keys.Holds keys ∧ (rows.map (·.key)).Perm keys
  values : HoldsMany t.values rows.length

theorem stores_withCapacity (capacity : Nat) :
    Stores (withCapacity capacity : HashTable κ ν) [] where
  capacity_pos := Nat.le_max_right _ _
  chained := chained_emptyBuckets _
  count_eq := rfl
  rawKeys := ⟨[], ResizableArray.holds_empty, rfl⟩
  hashes := ⟨[], ResizableArray.holds_empty, rfl⟩
  keys := ⟨[], ResizableArray.holds_empty, .nil⟩
  values := ⟨[], ResizableArray.holds_empty, rfl⟩

variable {t : HashTable κ ν} {rows : List (ChainEntry κ ν)}

theorem Stores.keys_holdsMany (ht : t.Stores rows) : HoldsMany t.keys rows.length := by
  obtain ⟨keys, hkeys, hperm⟩ := ht.keys
  exact ⟨keys, hkeys, by rw [← hperm.length_eq, List.length_map]⟩

theorem Stores.consistent (ht : t.Stores rows) : t.Consistent where
  rawKeys := ht.count_eq ▸ ht.rawKeys
  hashes := ht.count_eq ▸ ht.hashes
  keys := ht.count_eq ▸ ht.keys_holdsMany
  values := ht.count_eq ▸ ht.values
  chainLengths_sum := by
    rw [chainLengths, ← List.length_flatten, ht.count_eq]
    exact (ht.chained.flatten_perm ht.capacity_pos).length_eq
  keys_perm := by
    obtain ⟨keys, hkeys, hperm⟩ := ht.keys
    rw [hkeys.toList_eq]
    exact ((ht.chained.flatten_perm ht.capacity_pos).map _).trans hperm
  bucketOf_eq bucket hbucket entry hentry := by
    rw [chain, ht.chained.2 bucket hbucket] at hentry
    exact eq_of_beq (List.mem_filter.1 hentry).2
  buckets_size := ht.chained.1

/-! ## Growth -/

/-- Growing puts the rows of the chains into new chains and into all arrays, in one order. -/
theorem Stores.grow (ht : t.Stores rows) : ∃ sorted, t.grow.Stores sorted := by
  obtain ⟨buckets, hchained, hgrow⟩ := t.exists_grow
  have hperm : t.chainedInOrder.Perm rows :=
    (List.mergeSort_perm _ _).trans (ht.chained.flatten_perm ht.capacity_pos)
  refine ⟨t.chainedInOrder, ?_⟩
  rw [hgrow]
  exact {
    capacity_pos := Nat.mul_pos ht.capacity_pos Nat.two_pos
    chained := hchained
    count_eq := ht.count_eq.trans hperm.length_eq.symm
    rawKeys := by simpa using holdsMany_ofList (t.chainedInOrder.map (·.rawKey))
    hashes := by simpa using holdsMany_ofList (t.chainedInOrder.map (·.hash))
    keys := ⟨_, ResizableArray.holds_ofList _, .refl _⟩
    values := by simpa using holdsMany_ofList (t.chainedInOrder.map (·.value)) }

theorem Stores.withRoom (ht : t.Stores rows) : ∃ sorted, t.withRoom.Stores sorted := by
  unfold HashTable.withRoom
  split
  · exact ht.grow
  · exact ⟨rows, ht⟩

/-! ## Removing -/

/-- A key of an array is found at a position, and taking that position out erases the key. -/
theorem exists_position {keys : ResizableArray String} {key : String} (hmem : key ∈ keys.toList) :
    ∃ position < keys.toList.length, keys.findIndex? (· == key) = some position ∧
      keys.toList[position]? = some key ∧
      keys.toList.eraseIdx position = keys.toList.erase key := by
  rw [List.erase_eq_eraseP', List.eraseP_eq_eraseIdx, ResizableArray.findIndex?]
  cases hposition : keys.toList.findIdx? (· == key) with
  | none => simpa using List.findIdx?_eq_none_iff.1 hposition key hmem
  | some position =>
      obtain ⟨hlt, hkey, -⟩ := List.findIdx?_eq_some_iff_getElem.1 hposition
      exact ⟨position, hlt, rfl, by rw [List.getElem?_eq_getElem hlt, eq_of_beq hkey], rfl⟩

theorem remove_of_find?_eq_none {key : String} {hash : UInt64}
    (hnone : t.find? key hash = none) : t.remove key hash = (.error (.keyNotFound key), t) := by
  simp only [HashTable.remove, Attempt.on, removal, Attempt.bind_on, unlink, hnone]

/-- A node that is found is one of the rows, in the bucket of its own hash, and is the one that
leaves the chain when the key is taken out of it. -/
theorem Stores.find?_eq_some (ht : t.Stores rows) {key : String} {hash : UInt64}
    {row : ChainEntry κ ν} (hfound : t.find? key hash = some row) :
    row.key = key ∧ row ∈ rows ∧ t.bucketOf row.hash = t.bucketOf hash ∧
      ∃ front back, t.chain (t.bucketOf hash) = front ++ row :: back ∧
        (t.chain (t.bucketOf hash)).eraseP (fun entry => entry.key == key) = front ++ back := by
  have hplace : t.bucketOf hash < t.capacity := Nat.mod_lt _ ht.capacity_pos
  obtain ⟨hkey, front, back, hchain, hfront⟩ := List.find?_eq_some_iff_append.1 hfound
  have hmem : row ∈ t.chain (t.bucketOf hash) := hchain ▸ List.mem_append_right _ List.mem_cons_self
  rw [chain, ht.chained.2 _ hplace, List.mem_filter] at hmem
  refine ⟨eq_of_beq hkey, hmem.1, eq_of_beq hmem.2, front, back, hchain, ?_⟩
  rw [hchain, List.eraseP_append_right _ (by simpa using hfront), List.eraseP_cons]
  simp [hkey]

/-- Changing a chain changes no other. -/
theorem getD_modify {buckets : Array (List α)} {place : Nat} (hplace : place < buckets.size)
    (change : List α → List α) (bucket : Nat) :
    (buckets.modify place change).getD bucket [] =
      if bucket = place then change (buckets.getD place []) else buckets.getD bucket [] := by
  rw [Array.getD_eq_getD_getElem?, Array.getElem?_modify]
  by_cases hsame : bucket = place
  · simp [hsame, hplace]
  · simp [hsame, Ne.symm hsame]

/-- Taking one row out leaves one row less, and the others keep their keys. -/
theorem map_key_eraseP_perm {test : ChainEntry κ ν → Bool} {row : ChainEntry κ ν} {key : String}
    (hmem : row ∈ rows) (htest : test row = true) (hkey : ∀ row, test row = true → row.key = key) :
    (key :: (rows.eraseP test).map (·.key)).Perm (rows.map (·.key)) := by
  obtain ⟨other, before, behind, -, hother, hrows, hrest⟩ := List.exists_of_eraseP hmem htest
  rw [hrest, hrows, ← hkey other hother, List.map_append, List.map_append, List.map_cons]
  exact List.perm_middle.symm

/-- Once a node is found, nothing that comes after it can fail: its key is in the array of keys,
and the position there is one of every array. -/
theorem Stores.remove_of_find? (ht : t.Stores rows) {key : String} {hash : UInt64}
    {row : ChainEntry κ ν} (hfound : t.find? key hash = some row) :
    ∃ after rest, t.remove key hash = (.ok row.value, after) ∧ after.Stores rest ∧
      t.Takes after row ∧ row.key = key ∧ t.bucketOf row.hash = t.bucketOf hash := by
  obtain ⟨hkey, hmem, hbucket, front, back, hchain, herased⟩ := ht.find?_eq_some hfound
  have hchained := ht.chained.unlink key (t.bucketOf hash)
  have hrest : (key :: (rows.eraseP fun row =>
      row.key == key && row.hash.toNat % t.capacity == t.bucketOf hash).map (·.key)).Perm
        (rows.map (·.key)) :=
    map_key_eraseP_perm hmem (by simpa [hkey, bucketOf] using hbucket) (by simp +contextual)
  generalize rows.eraseP _ = rest at hchained hrest
  have hnumber : rows.length = rest.length + 1 := by
    simpa using hrest.length_eq.symm
  have hcount : t.count = rest.length + 1 := ht.count_eq.trans hnumber
  -- The key is in the array of keys, where it is erased.
  obtain ⟨keys, hkeys, hperm⟩ := ht.keys
  obtain ⟨hkeyMem, hrestKeys⟩ := List.cons_perm_iff_perm_erase.1 (hrest.trans hperm)
  obtain ⟨position, hlt, hposition, hat, herase⟩ := exists_position (hkeys.toList_eq ▸ hkeyMem)
  rw [hkeys.toList_eq] at hlt herase
  have hlt' : position < rest.length + 1 := by
    rwa [← hnumber, ← List.length_map (·.key), hperm.length_eq]
  obtain ⟨_, rawKeys, hrawKey, hrawKeys, hrawList⟩ := (hnumber ▸ ht.rawKeys).removeAt hlt'
  obtain ⟨_, hashes, hhash, hhashes, hhashList⟩ := (hnumber ▸ ht.hashes).removeAt hlt'
  obtain ⟨keysAfter, hdropped, hkeysAfter⟩ := hkeys.removeAt_natCast hlt
  obtain ⟨_, values, hvalue, hvalues, hvalueList⟩ := (hnumber ▸ ht.values).removeAt hlt'
  have hplace : t.bucketOf hash < t.buckets.size :=
    ht.chained.1.symm ▸ Nat.mod_lt _ ht.capacity_pos
  refine ⟨{ t with
    rawKeys, hashes, values
    keys := keysAfter
    count := t.count - 1
    buckets := t.buckets.modify (t.bucketOf hash) fun chain =>
      chain.eraseP fun row => row.key == key }, rest, ?_, ?_, ?_, hkey, hbucket⟩
  · simp only [HashTable.remove, Attempt.on, removal, Attempt.bind_on, unlink, hfound,
      positionOf, hposition, Attempt.discard_on, dropRawKey, dropHash, dropKey, dropValue, hrawKey,
      hhash, hdropped, hvalue, Attempt.modify_on, Attempt.pure_on]
  · exact {
      capacity_pos := ht.capacity_pos
      chained := hchained
      count_eq := by rw [hcount, Nat.add_sub_cancel]
      rawKeys := hrawKeys
      hashes := hhashes
      keys := ⟨_, hkeysAfter, herase ▸ hrestKeys⟩
      values := hvalues }
  · exact {
      capacity_eq := rfl
      count_eq := by rw [hcount, Nat.add_sub_cancel]
      chain_eq := by
        refine ⟨front, back, hbucket ▸ hchain, ?_⟩
        rw [chain, hbucket, getD_modify hplace, if_pos rfl]
        exact herased
      other_chain_eq := fun bucket hother => by
        rw [chain, getD_modify hplace, if_neg (hbucket ▸ hother)]
        rfl
      arrays_eq := ⟨position, hkey ▸ hat, hrawList, hhashList, by
        rw [hkeysAfter.toList_eq, hkeys.toList_eq], hvalueList⟩ }

theorem Stores.removed (ht : t.Stores rows) (key : String) (hash : UInt64) :
    Removed t key hash (t.remove key hash) ∧ ∃ rest, (t.remove key hash).2.Stores rest := by
  cases hfound : t.find? key hash with
  | none =>
      rw [remove_of_find?_eq_none hfound]
      exact ⟨.absent (by rw [contains, hfound, Option.isSome_none]), rows, ht⟩
  | some row =>
      obtain ⟨after, rest, hremoved, hafter, htakes, hkey, hbucket⟩ := ht.remove_of_find? hfound
      rw [hremoved]
      exact ⟨.taken row after hkey hbucket htakes, rest, hafter⟩

/-! ## Writing -/

theorem Stores.withoutKey (ht : t.Stores rows) (key : String) (hash : UInt64) :
    ∃ rest, (t.withoutKey key hash).Stores rest := by
  unfold HashTable.withoutKey
  split
  · exact (ht.removed key hash).2
  · exact ⟨rows, ht⟩

theorem Stores.addLast (ht : t.Stores rows) (rawKey : κ) (hash : UInt64) (key : String)
    (value : ν) : ∃ rest, (t.addLast rawKey hash key value).Stores rest := by
  have hchained := ht.chained.link { order := t.nextOrder, hash, rawKey, key, value }
  -- The arrays hold the keys of the chains in some order; the new key is last in both.
  obtain ⟨keys, hkeys, hperm⟩ := ht.keys
  refine ⟨rows ++ [{ order := t.nextOrder, hash, rawKey, key, value }], ?_⟩
  exact {
    capacity_pos := ht.capacity_pos
    chained := hchained
    count_eq := by simp [HashTable.addLast, HashTable.link, ht.count_eq]
    rawKeys := by
      rw [List.length_append]
      exact ht.rawKeys.append rawKey
    hashes := by
      rw [List.length_append]
      exact ht.hashes.append hash
    keys := by
      refine ⟨_, hkeys.append key, ?_⟩
      rw [List.map_append]
      exact hperm.append_right [key]
    values := by
      rw [List.length_append]
      exact ht.values.append value }

theorem Stores.append (ht : t.Stores rows) (rawKey : κ) (hash : UInt64) (key : String)
    (value : ν) : ∃ rest, (t.append rawKey hash key value).Stores rest := by
  obtain ⟨_, hwithout⟩ := ht.withoutKey key hash
  obtain ⟨_, hroom⟩ := hwithout.withRoom
  exact hroom.addLast rawKey hash key value

/-! ## What a run does -/

theorem Stores.perform (ht : t.Stores rows) (request : Request κ ν) :
    ∃ rest, (request.perform t).2.Stores rest := by
  cases request with
  | operation change =>
      cases change with
      | append entry => exact ht.append entry.rawKey entry.hash entry.key entry.value
      | remove key hash => exact (ht.removed key hash).2
      | clear => exact ⟨[], stores_withCapacity _⟩
  | search key hash => exact ⟨rows, ht⟩

theorem Stores.transcript (ht : t.Stores rows) (requests : List (Request κ ν)) :
    ∃ rest, (ScriptCore.transcript Request.perform requests t).2.Stores rest :=
  transcript_keeps (fun t => ∃ rows, Stores t rows)
    (fun request _ ⟨_, ht⟩ => ht.perform request) requests ⟨rows, ht⟩

/-- **A table is consistent whatever hashes its keys came with.**  Whatever is asked of a table that
was empty at first, at any capacity, and whichever hashes the keys come with: the chains and the
arrays agree, and a removal either finds no node, fails for that reason and changes nothing, or
takes out one node and one position of each array.  So a removal that has unlinked a node succeeds,
and so does the one that makes room for a key that is written again. -/
theorem consistent_transcript (capacity : Nat) (requests : List (Request κ ν)) :
    ∃ outcomes t, ScriptCore.transcript Request.perform requests (withCapacity capacity) =
        (outcomes, t) ∧
      t.Consistent ∧
      (∀ key hash, Removed t key hash (t.remove key hash)) ∧
      (∀ key hash entry unlinked, unlink key hash t = (.ok entry, unlinked) →
        (t.remove key hash).1 = .ok entry.value) ∧
      (∀ key hash, t.contains key hash = true →
        ∃ value, t.remove key hash = (.ok value, t.withoutKey key hash)) := by
  have hempty : Stores (withCapacity capacity : HashTable κ ν) [] := stores_withCapacity capacity
  obtain ⟨rows, ht⟩ := hempty.transcript requests
  refine ⟨_, _, rfl, ht.consistent, fun key hash => (ht.removed key hash).1, ?_, ?_⟩
  · intro key hash entry unlinked hunlink
    unfold unlink at hunlink
    split at hunlink
    · nomatch hunlink
    · rename_i row hfound
      obtain ⟨after, -, hremoved, -⟩ := ht.remove_of_find? hfound
      obtain ⟨hrow, -⟩ := Prod.mk.inj hunlink
      rw [hremoved, Except.ok.inj hrow]
  · intro key hash hcontains
    -- What a chain holds is in the arrays too, so the removal goes through.
    obtain ⟨row, hfound⟩ := Option.isSome_iff_exists.1 hcontains
    obtain ⟨after, -, hremoved, -⟩ := ht.remove_of_find? hfound
    exact ⟨row.value, by rw [HashTable.withoutKey, if_pos hcontains, hremoved]⟩

/-- A text that comes with two hashes is in the table twice.  Taking it out of the bucket of the
second hash takes the first position out of the arrays. -/
example :
    let t : HashTable Nat Nat := ((empty : HashTable Nat Nat).append 1 3 "a" 10).append 2 4 "a" 20
    t.keys.toList = ["a", "a"] ∧ (t.remove "a" 4).1.toOption = some 20 ∧
      (t.remove "a" 4).2.values.toList = [20] ∧
      ((t.remove "a" 4).2.search "a" 3).toOption = some 10 := by
  decide +kernel

end ScriptCore.HashTable
