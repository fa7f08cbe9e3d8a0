import Mathlib.Data.List.Find
import Mathlib.Data.List.Pairwise
import ScriptCore.HashTable
import ScriptCore.Proofs.Attempt
import ScriptCore.Proofs.ResizableArray

/-!
# What hash tables hold

`HashTable.Holds hashOf t rows` says that the arrays and the chains of `t` hold the same entries,
the rows, in order of last writing.  It is stated for callers that give every key text its own hash
`hashOf`; then no key stands in two buckets, and each operation is one on the row of entries:

* looking up finds the row with the key (`Holds.find?_eq`),
* growing changes nothing (`Holds.grow`),
* removing takes the row of the key out (`Holds.remove`),
* writing takes it out and puts a new row at the end (`Holds.append`).

Growing rebuilds the table from its chains.  The chains together are a rearrangement of the rows,
and sorting by the number of the write undoes it, because those numbers go up along the rows.
-/

namespace ScriptCore.HashTable

variable {κ ν : Type} {hashOf : String → UInt64}

/-- The arrays and the chains hold the given rows. -/
structure Holds (hashOf : String → UInt64) (t : HashTable κ ν) (rows : List (ChainEntry κ ν)) :
    Prop where
  capacity_pos : 0 < t.capacity
  count_eq : t.count = rows.length
  rawKeys : t.rawKeys.Holds (rows.map (·.rawKey))
  hashes : t.hashes.Holds (rows.map (·.hash))
  keys : t.keys.Holds (rows.map (·.key))
  values : t.values.Holds (rows.map (·.value))
  size_eq : t.buckets.size = t.capacity
  chain_eq : ∀ bucket < t.capacity,
    t.chain bucket = rows.filter fun row => row.hash.toNat % t.capacity == bucket
  hash_eq : ∀ row ∈ rows, row.hash = hashOf row.key
  keys_nodup : (rows.map (·.key)).Nodup
  ordered : rows.Pairwise fun first second => first.order < second.order
  order_lt : ∀ row ∈ rows, row.order < t.nextOrder

theorem chain_emptyBuckets (capacity bucket : Nat) :
    (emptyBuckets capacity : Array (List (ChainEntry κ ν))).getD bucket [] = [] := by
  rw [Array.getD_eq_getD_getElem?, emptyBuckets, Array.getElem?_replicate]
  split <;> rfl

theorem holds_withCapacity (capacity : Nat) :
    Holds hashOf (withCapacity capacity : HashTable κ ν) [] where
  capacity_pos := Nat.le_max_right _ _
  count_eq := rfl
  rawKeys := ResizableArray.holds_empty
  hashes := ResizableArray.holds_empty
  keys := ResizableArray.holds_empty
  values := ResizableArray.holds_empty
  size_eq := Array.size_replicate
  chain_eq _ _ := chain_emptyBuckets _ _
  hash_eq _ hrow := absurd hrow List.not_mem_nil
  keys_nodup := .nil
  ordered := .nil
  order_lt _ hrow := absurd hrow List.not_mem_nil

theorem holds_empty : Holds hashOf (empty : HashTable κ ν) [] :=
  holds_withCapacity _

variable {t : HashTable κ ν} {rows : List (ChainEntry κ ν)}

/-! ## Looking at a table -/

theorem bucketOf_lt (ht : Holds hashOf t rows) (hash : UInt64) : t.bucketOf hash < t.capacity :=
  Nat.mod_lt _ ht.capacity_pos

theorem Holds.find?_eq (ht : Holds hashOf t rows) (key : String) :
    t.find? key (hashOf key) = rows.find? fun row => row.key == key := by
  rw [find?, ht.chain_eq _ (bucketOf_lt ht _), List.find?_filter]
  refine List.find?_congr fun row hrow => ?_
  by_cases hkey : row.key = key
  · simp [bucketOf, ht.hash_eq row hrow, hkey]
  · simp [hkey]

theorem Holds.contains_iff (ht : Holds hashOf t rows) (key : String) :
    t.contains key (hashOf key) = true ↔ ∃ row ∈ rows, row.key = key := by
  rw [contains, ht.find?_eq, List.find?_isSome]
  simp

theorem Holds.entries_eq (ht : Holds hashOf t rows) :
    t.entries = rows.map fun row => (row.rawKey, row.value) := by
  rw [entries, ht.rawKeys.toList_eq, ht.values.toList_eq, List.zip_map']

theorem Holds.rawKeys_eq (ht : Holds hashOf t rows) :
    t.rawKeys.toList = rows.map (·.rawKey) :=
  ht.rawKeys.toList_eq

theorem Holds.values_eq (ht : Holds hashOf t rows) : t.values.toList = rows.map (·.value) :=
  ht.values.toList_eq

/-! ## Growth -/

/-- A row of chains, each of which holds the rows that belong in its bucket. -/
def Chained (capacity : Nat) (buckets : Array (List (ChainEntry κ ν)))
    (rows : List (ChainEntry κ ν)) : Prop :=
  buckets.size = capacity ∧ ∀ bucket < capacity,
    buckets.getD bucket [] = rows.filter fun row => row.hash.toNat % capacity == bucket

private theorem flatMap_filter_perm (place : ChainEntry κ ν → Nat) (rows : List (ChainEntry κ ν))
    (count : Nat) :
    ((List.range count).flatMap fun bucket => rows.filter fun row => place row == bucket).Perm
      (rows.filter fun row => decide (place row < count)) := by
  induction count with
  | zero => simp
  | succ count ih =>
      rw [List.range_succ, List.flatMap_append, List.flatMap_singleton]
      refine (ih.append_right _).trans ?_
      -- Of the rows below the new bound, those below the old one come first.
      have hsplit := List.filter_append_perm (fun row => decide (place row < count))
        (rows.filter fun row => decide (place row < count + 1))
      simp only [List.filter_filter] at hsplit
      convert hsplit using 2
      · refine List.filter_congr fun row _ => ?_
        grind
      · refine List.filter_congr fun row _ => ?_
        grind

theorem Chained.flatten_perm {capacity : Nat} {buckets : Array (List (ChainEntry κ ν))}
    (hpos : 0 < capacity) (hchained : Chained capacity buckets rows) :
    buckets.toList.flatten.Perm rows := by
  have hlist : buckets.toList = (List.range capacity).map fun bucket =>
      rows.filter fun row => row.hash.toNat % capacity == bucket := by
    apply List.ext_getElem
    · simp [hchained.1]
    · intro bucket hbucket hrange
      have hlt : bucket < capacity := by simpa using hrange
      have hbound : bucket < buckets.size := by simpa using hbucket
      rw [List.getElem_map, List.getElem_range, ← hchained.2 bucket hlt]
      simp [hbound]
  rw [hlist, ← List.flatMap_def]
  refine (flatMap_filter_perm (fun row => row.hash.toNat % capacity) rows capacity).trans ?_
  rw [List.filter_eq_self.2 fun row _ => by simpa using Nat.mod_lt _ hpos]

theorem Holds.chained (ht : Holds hashOf t rows) : Chained t.capacity t.buckets rows :=
  ⟨ht.size_eq, ht.chain_eq⟩

theorem Holds.chainedInOrder_eq (ht : Holds hashOf t rows) : t.chainedInOrder = rows := by
  have hperm : t.chainedInOrder.Perm rows :=
    (List.mergeSort_perm _ _).trans (ht.chained.flatten_perm ht.capacity_pos)
  have hsorted : t.chainedInOrder.Pairwise fun first second => first.order ≤ second.order := by
    refine (List.pairwise_mergeSort (fun first second third hab hbc => ?_)
      (fun first second => ?_) _).imp (by simp)
    · simp only [decide_eq_true_eq] at hab hbc ⊢
      omega
    · simp only [Bool.or_eq_true, decide_eq_true_eq]
      omega
  refine hperm.eq_of_pairwise (fun first second hfirst hsecond hle hge => ?_) hsorted
    (ht.ordered.imp Nat.le_of_lt)
  -- Two rows with the same number of the write are the same row.
  have horder : first.order = second.order := Nat.le_antisymm hle hge
  by_contra hne
  have hordered : rows.Pairwise fun first second => first.order ≠ second.order :=
    ht.ordered.imp Nat.ne_of_lt
  have hsymm : Std.Symm fun first second : ChainEntry κ ν => first.order ≠ second.order :=
    ⟨fun _ _ hne => hne.symm⟩
  exact hordered.forall (hperm.mem_iff.1 hfirst) hsecond hne horder

theorem Chained.link {capacity : Nat} {buckets : Array (List (ChainEntry κ ν))}
    (hchained : Chained capacity buckets rows) (entry : ChainEntry κ ν) :
    Chained capacity
      (buckets.modify (entry.hash.toNat % capacity) fun chain => chain ++ [entry])
      (rows ++ [entry]) := by
  refine ⟨by simp [hchained.1], fun bucket hbucket => ?_⟩
  have hbound : bucket < buckets.size := hchained.1 ▸ hbucket
  have hbefore := hchained.2 bucket hbucket
  rw [Array.getD_eq_getD_getElem?, Array.getElem?_eq_getElem hbound, Option.getD_some] at hbefore
  rw [Array.getD_eq_getD_getElem?, Array.getElem?_modify, Array.getElem?_eq_getElem hbound,
    List.filter_append]
  by_cases hplace : entry.hash.toNat % capacity = bucket
  · simp [hplace, hbefore]
  · simp [hplace, hbefore]

/-- Rows that are put into the chains one after the other stand there behind those before. -/
theorem foldl_link (entries : List (ChainEntry κ ν)) (t : HashTable κ ν) :
    ∃ buckets, entries.foldl HashTable.link t = { t with buckets } ∧
      ∀ rows, Chained t.capacity t.buckets rows → Chained t.capacity buckets (rows ++ entries) := by
  induction entries generalizing t with
  | nil => exact ⟨t.buckets, rfl, fun rows hrows => by simpa using hrows⟩
  | cons entry rest ih =>
      obtain ⟨buckets, hfold, hchained⟩ := ih (t.link entry)
      refine ⟨buckets, hfold, fun rows hrows => ?_⟩
      have hlinked := hchained (rows ++ [entry]) (hrows.link entry)
      rwa [List.append_assoc] at hlinked

theorem chained_emptyBuckets (capacity : Nat) :
    Chained capacity (emptyBuckets capacity) ([] : List (ChainEntry κ ν)) :=
  ⟨Array.size_replicate, fun bucket _ => chain_emptyBuckets capacity bucket⟩

/-- Growing puts the entries of the chains into twice as many chains and into all arrays, in the
order in which they were written. -/
theorem exists_grow (t : HashTable κ ν) :
    ∃ buckets, Chained (t.capacity * 2) buckets t.chainedInOrder ∧ t.grow = { t with
      capacity := t.capacity * 2
      buckets
      rawKeys := .ofList (t.chainedInOrder.map (·.rawKey))
      hashes := .ofList (t.chainedInOrder.map (·.hash))
      keys := .ofList (t.chainedInOrder.map (·.key))
      values := .ofList (t.chainedInOrder.map (·.value)) } := by
  obtain ⟨buckets, hfold, hchained⟩ := foldl_link t.chainedInOrder
    { t with
      capacity := t.capacity * 2
      buckets := emptyBuckets (t.capacity * 2)
      rawKeys := .ofList (t.chainedInOrder.map (·.rawKey))
      hashes := .ofList (t.chainedInOrder.map (·.hash))
      keys := .ofList (t.chainedInOrder.map (·.key))
      values := .ofList (t.chainedInOrder.map (·.value)) }
  exact ⟨buckets, hchained [] (chained_emptyBuckets _), hfold⟩

theorem Holds.grow (ht : Holds hashOf t rows) : Holds hashOf t.grow rows := by
  obtain ⟨buckets, hchained, hgrow⟩ := t.exists_grow
  rw [ht.chainedInOrder_eq] at hchained hgrow
  rw [hgrow]
  exact {
    capacity_pos := Nat.mul_pos ht.capacity_pos Nat.two_pos
    count_eq := ht.count_eq
    rawKeys := ResizableArray.holds_ofList _
    hashes := ResizableArray.holds_ofList _
    keys := ResizableArray.holds_ofList _
    values := ResizableArray.holds_ofList _
    size_eq := hchained.1
    chain_eq := hchained.2
    hash_eq := ht.hash_eq
    keys_nodup := ht.keys_nodup
    ordered := ht.ordered
    order_lt := ht.order_lt }

theorem Holds.withRoom (ht : Holds hashOf t rows) : Holds hashOf t.withRoom rows := by
  unfold HashTable.withRoom
  split
  · exact ht.grow
  · exact ht

/-! ## Removing -/

/-- The keys are different, so there is one row at most to take out. -/
theorem eraseP_eq_filter {rows : List (ChainEntry κ ν)} (hnodup : (rows.map (·.key)).Nodup)
    (key : String) :
    rows.eraseP (fun row => row.key == key) = rows.filter fun row => row.key != key := by
  induction rows with
  | nil => rfl
  | cons row rest ih =>
      obtain ⟨hrow, hrest⟩ := List.nodup_cons.1 hnodup
      by_cases hkey : row.key = key
      · have hnone : ∀ other ∈ rest, (other.key != key) = true := by
          intro other hother
          rw [bne_iff_ne, ← hkey]
          rintro heq
          exact hrow (List.mem_map.2 ⟨other, hother, heq⟩)
        simp [hkey, List.filter_eq_self.2 hnone]
      · simp [hkey, ih hrest]

/-- The row of a key, with its place. -/
theorem exists_place {key : String} {row : ChainEntry κ ν}
    (hfound : rows.find? (fun row => row.key == key) = some row) :
    ∃ place, ∃ hlt : place < rows.length, rows[place] = row ∧
      rows.findIdx? (fun row => row.key == key) = some place ∧
      rows.eraseP (fun row => row.key == key) = rows.eraseIdx place := by
  cases hplace : rows.findIdx? fun row => row.key == key with
  | none =>
      rw [List.findIdx?_eq_none_iff] at hplace
      simpa [hplace row (List.mem_of_find?_eq_some hfound)] using List.find?_some hfound
  | some place =>
      obtain ⟨hlt, hkey, hbefore⟩ := List.findIdx?_eq_some_iff_getElem.1 hplace
      refine ⟨place, hlt, ?_, rfl, by simp [List.eraseP_eq_eraseIdx, hplace]⟩
      rw [List.find?_eq_some_iff_getElem] at hfound
      obtain ⟨_, other, hother, rfl, hfirst⟩ := hfound
      grind

private theorem eraseP_congr {α : Type} {test test' : α → Bool} {l : List α}
    (hsame : ∀ x ∈ l, test x = test' x) : l.eraseP test = l.eraseP test' := by
  induction l with
  | nil => rfl
  | cons x rest ih =>
      rw [List.eraseP_cons, List.eraseP_cons, hsame x List.mem_cons_self,
        ih fun y hy => hsame y (List.mem_cons_of_mem _ hy)]

private theorem filter_eraseP_of_not {α : Type} {here test : α → Bool} {l : List α}
    (hnot : ∀ x ∈ l, test x = true → here x = false) :
    (l.eraseP test).filter here = l.filter here := by
  induction l with
  | nil => rfl
  | cons x rest ih =>
      have hrest := ih fun y hy => hnot y (List.mem_cons_of_mem _ hy)
      have hx := hnot x List.mem_cons_self
      by_cases htest : test x = true
      · simp [htest, hx htest]
      · by_cases hhere : here x = true <;> simp [htest, hhere, hrest]

/-- Taking the first entry with a key out of a chain takes it out of the whole row: there it is the
first that belongs in the bucket and has the key. -/
theorem Chained.unlink {capacity : Nat} {buckets : Array (List (ChainEntry κ ν))}
    (hchained : Chained capacity buckets rows) (key : String) (place : Nat) :
    Chained capacity
      (buckets.modify place fun chain => chain.eraseP fun row => row.key == key)
      (rows.eraseP fun row => row.key == key && row.hash.toNat % capacity == place) := by
  refine ⟨by simp [hchained.1], fun bucket hbucket => ?_⟩
  have hbound : bucket < buckets.size := hchained.1 ▸ hbucket
  have hbefore := hchained.2 bucket hbucket
  rw [Array.getD_eq_getD_getElem?, Array.getElem?_eq_getElem hbound, Option.getD_some] at hbefore
  rw [Array.getD_eq_getD_getElem?, Array.getElem?_modify, Array.getElem?_eq_getElem hbound]
  by_cases hhere : place = bucket
  · rw [hhere, ← List.eraseP_filter]
    simp [hbefore]
  · rw [filter_eraseP_of_not fun row _ htest => by grind]
    simp [hhere, hbefore]

theorem Holds.remove_of_find? (ht : Holds hashOf t rows) {key : String} {row : ChainEntry κ ν}
    (hfound : rows.find? (fun row => row.key == key) = some row) :
    ∃ after, t.remove key (hashOf key) = (.ok row.value, after) ∧
      Holds hashOf after (rows.filter fun row => row.key != key) := by
  rw [← eraseP_eq_filter ht.keys_nodup]
  obtain ⟨place, hlt, rfl, hplace, herase⟩ := exists_place hfound
  obtain ⟨rawKeys, hrawKey, hrawKeys⟩ := ht.rawKeys.removeAt_natCast (by simpa using hlt)
  obtain ⟨hashes, hhash, hhashes⟩ := ht.hashes.removeAt_natCast (by simpa using hlt)
  obtain ⟨keys, hkey, hkeys⟩ := ht.keys.removeAt_natCast (by simpa using hlt)
  obtain ⟨values, hvalue, hvalues⟩ := ht.values.removeAt_natCast (by simpa using hlt)
  -- The key stands at the same place in every array.
  have hposition : t.keys.findIndex? (· == key) = some place := by
    rw [ResizableArray.findIndex?, ht.keys.toList_eq, List.findIdx?_map]
    exact hplace
  refine ⟨{ t with
    rawKeys, hashes, keys, values
    count := t.count - 1
    buckets := t.buckets.modify (t.bucketOf (hashOf key)) fun chain =>
      chain.eraseP fun row => row.key == key }, ?_, ?_⟩
  · simp only [HashTable.remove, Attempt.on, removal, Attempt.bind_on, unlink, ht.find?_eq, hfound,
      positionOf, hposition, Attempt.discard_on, dropRawKey, dropHash, dropKey, dropValue, hrawKey,
      hhash, hkey, hvalue, Attempt.modify_on, Attempt.pure_on]
  · have hsub : (rows.eraseP fun row => row.key == key).Sublist rows := List.eraseP_sublist
    have hlength : (rows.eraseIdx place).length = rows.length - 1 := List.length_eraseIdx_of_lt hlt
    -- No row with the key belongs in another bucket.
    have hsame : (rows.eraseP fun row =>
          row.key == key && row.hash.toNat % t.capacity == t.bucketOf (hashOf key)) =
        rows.eraseP fun row => row.key == key := by
      refine eraseP_congr fun row hrow => ?_
      by_cases hkey : row.key = key
      · simp [hkey, ht.hash_eq row hrow, bucketOf]
      · simp [hkey]
    have hchained := ht.chained.unlink key (t.bucketOf (hashOf key))
    rw [hsame] at hchained
    exact {
      capacity_pos := ht.capacity_pos
      count_eq := by rw [herase, hlength, ← ht.count_eq]
      rawKeys := by rwa [herase, ← List.eraseIdx_map]
      hashes := by rwa [herase, ← List.eraseIdx_map]
      keys := by rwa [herase, ← List.eraseIdx_map]
      values := by rwa [herase, ← List.eraseIdx_map]
      size_eq := hchained.1
      chain_eq := hchained.2
      hash_eq := fun row hrow => ht.hash_eq row (hsub.subset hrow)
      keys_nodup := (hsub.map _).nodup ht.keys_nodup
      ordered := ht.ordered.sublist hsub
      order_lt := fun row hrow => ht.order_lt row (hsub.subset hrow) }

theorem Holds.remove_of_find?_eq_none (ht : Holds hashOf t rows) {key : String}
    (hnone : rows.find? (fun row => row.key == key) = none) :
    t.remove key (hashOf key) = (.error (.keyNotFound key), t) := by
  simp only [HashTable.remove, Attempt.on, removal, Attempt.bind_on, unlink, ht.find?_eq, hnone]

/-- What removing leaves, whether or not the key was there. -/
theorem Holds.remove (ht : Holds hashOf t rows) (key : String) :
    Holds hashOf (t.remove key (hashOf key)).2 (rows.filter fun row => row.key != key) := by
  cases hfound : rows.find? fun row => row.key == key with
  | none =>
      have hall : ∀ row ∈ rows, (row.key != key) = true := by simpa using hfound
      rw [ht.remove_of_find?_eq_none hfound, List.filter_eq_self.2 hall]
      exact ht
  | some row =>
      obtain ⟨after, hremoved, hafter⟩ := ht.remove_of_find? hfound
      rw [hremoved]
      exact hafter

theorem Holds.withoutKey (ht : Holds hashOf t rows) (key : String) :
    Holds hashOf (t.withoutKey key (hashOf key)) (rows.filter fun row => row.key != key) := by
  unfold HashTable.withoutKey
  split
  · exact ht.remove key
  · rename_i habsent
    have hall : ∀ row ∈ rows, (row.key != key) = true := by
      simpa [ht.contains_iff] using habsent
    rwa [List.filter_eq_self.2 hall]

/-! ## Writing -/

theorem Holds.addLast (ht : Holds hashOf t rows) (rawKey : κ) {key : String} (value : ν)
    (hnew : ∀ row ∈ rows, row.key ≠ key) :
    Holds hashOf (t.addLast rawKey (hashOf key) key value)
      (rows ++ [{ order := t.nextOrder, hash := hashOf key, rawKey, key, value }]) := by
  have hchained := ht.chained.link { order := t.nextOrder, hash := hashOf key, rawKey, key, value }
  exact {
    capacity_pos := ht.capacity_pos
    count_eq := by simp [HashTable.addLast, HashTable.link, ht.count_eq]
    rawKeys := by
      rw [List.map_append]
      exact ht.rawKeys.append rawKey
    hashes := by
      rw [List.map_append]
      exact ht.hashes.append (hashOf key)
    keys := by
      rw [List.map_append]
      exact ht.keys.append key
    values := by
      rw [List.map_append]
      exact ht.values.append value
    size_eq := hchained.1
    chain_eq := hchained.2
    hash_eq := by
      intro row hrow
      rcases List.mem_append.1 hrow with hbefore | hlast
      · exact ht.hash_eq row hbefore
      · obtain rfl := List.mem_singleton.1 hlast
        rfl
    -- The new row is the only one with its key.
    keys_nodup := by
      rw [List.map_append, List.nodup_append]
      refine ⟨ht.keys_nodup, by simp, fun first hfirst second hsecond => ?_⟩
      obtain ⟨row, hrow, rfl⟩ := List.mem_map.1 hfirst
      obtain rfl := by simpa using hsecond
      exact hnew row hrow
    -- Its number is the next one, which is above all that were given out.
    ordered := by
      rw [List.pairwise_append]
      refine ⟨ht.ordered, by simp, fun row hrow last hlast => ?_⟩
      obtain rfl := List.mem_singleton.1 hlast
      exact ht.order_lt row hrow
    order_lt := by
      intro row hrow
      rcases List.mem_append.1 hrow with hbefore | hlast
      · exact Nat.lt_succ_of_lt (ht.order_lt row hbefore)
      · obtain rfl := List.mem_singleton.1 hlast
        exact Nat.lt_succ_self _ }

/-- Writing takes the row of the key out and puts a new one at the end. -/
theorem Holds.append (ht : Holds hashOf t rows) (rawKey : κ) (key : String) (value : ν) :
    ∃ order, Holds hashOf (t.append rawKey (hashOf key) key value)
      (rows.filter (fun row => row.key != key) ++
        [{ order, hash := hashOf key, rawKey, key, value }]) :=
  ⟨_, (ht.withoutKey key).withRoom.addLast rawKey value fun row hrow => by
    simpa using (List.mem_filter.1 hrow).2⟩

end ScriptCore.HashTable
