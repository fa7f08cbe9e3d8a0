import ScriptCore.Proofs.HashTable
import ScriptCore.Proofs.Transcript

/-!
# Hash tables as listings

A listing is the plain form of a table: a list of entries with different keys in order of last
writing.  Writing drops the old entry of the key and puts the new one at the end, removing takes
the entry of the key out of its place.

`Shows hashOf t entries` says that everything that can be seen of a table is what the listing
says: the four arrays, the answers for every key, and the chains.  A table and a listing on which
the same operations are carried out give the same outcomes, and the table shows the listing
(`shows_transcript`), wherever and however often the table grew on the way.

The numbers of the writes never exceed the number of operations, so they can be counted in 64 bits
for as long as the operations can.
-/

namespace ScriptCore.HashTable

variable {κ ν : Type} {hashOf : String → UInt64}

/-! ## Listings -/

/-- An entry of a table: its chain entry without the number of the write. -/
structure Entry (κ ν : Type) where
  hash : UInt64
  rawKey : κ
  key : String
  value : ν
  deriving DecidableEq

/-- The entry that a chain entry stands for. -/
def Entry.ofRow (row : ChainEntry κ ν) : Entry κ ν :=
  { hash := row.hash, rawKey := row.rawKey, key := row.key, value := row.value }

/-- The entries of a table in order of last writing. -/
abbrev Listing (κ ν : Type) : Type := List (Entry κ ν)

namespace Listing

/-- The entry of a key. -/
def find? (entries : Listing κ ν) (key : String) : Option (Entry κ ν) :=
  List.find? (fun entry => entry.key == key) entries

/-- The listing without the entry of a key; all others stay where they are. -/
def without (entries : Listing κ ν) (key : String) : Listing κ ν :=
  entries.filter fun entry => entry.key != key

/-- Writes an entry at the end, in the place of the old one of its key. -/
def write (entries : Listing κ ν) (entry : Entry κ ν) : Listing κ ν :=
  entries.without entry.key ++ [entry]

/-- Something about the entry of a key, or the error that the key has none. -/
def search {α : Type} (entries : Listing κ ν) (key : String) (field : Entry κ ν → α) :
    Except RuntimeError α :=
  match entries.find? key with
  | some entry => .ok (field entry)
  | none => .error (.keyNotFound key)

/-- Removes the entry of a key and gives back its value. -/
def remove (entries : Listing κ ν) (key : String) : Except RuntimeError ν × Listing κ ν :=
  (entries.search key (·.value), entries.without key)

end Listing

/-! ## Operations -/

/-- What changes a table. -/
inductive Operation (κ ν : Type)
  | append (entry : Entry κ ν)
  | remove (key : String) (hash : UInt64)
  | clear

namespace Operation

/-- Keys come with the hashes that a function of their texts gives. -/
def HashedBy (hashOf : String → UInt64) : Operation κ ν → Prop
  | append entry => entry.hash = hashOf entry.key
  | remove key hash => hash = hashOf key
  | clear => True

/-- Carries out an operation on a table.  Only removing has a result. -/
def perform : Operation κ ν → HashTable κ ν → Except RuntimeError (Option ν) × HashTable κ ν
  | append entry, t => (.ok none, t.append entry.rawKey entry.hash entry.key entry.value)
  | remove key hash, t => ((t.remove key hash).1.map some, (t.remove key hash).2)
  | clear, t => (.ok none, t.clear)

/-- Carries out an operation on a listing. -/
def performListed : Operation κ ν → Listing κ ν → Except RuntimeError (Option ν) × Listing κ ν
  | append entry, entries => (.ok none, entries.write entry)
  | remove key _, entries => ((entries.remove key).1.map some, (entries.remove key).2)
  | clear, _ => (.ok none, [])

end Operation

/-! ## What a table shows -/

/-- All that can be seen of a table is what the listing says. -/
structure Shows (hashOf : String → UInt64) (t : HashTable κ ν) (entries : Listing κ ν) : Prop where
  nodup : (entries.map (·.key)).Nodup
  count : t.count = entries.length
  rawKeys : t.rawKeys.toList = entries.map (·.rawKey)
  hashes : t.hashes.toList = entries.map (·.hash)
  keys : t.keys.toList = entries.map (·.key)
  values : t.values.toList = entries.map (·.value)
  search : ∀ key, t.search key (hashOf key) = entries.search key (·.value)
  searchRawKey : ∀ key, t.searchRawKey key (hashOf key) = entries.search key (·.rawKey)
  contains : ∀ key, t.contains key (hashOf key) = decide (key ∈ entries.map (·.key))
  /-- A key without an entry cannot be removed, and trying to changes nothing. -/
  missing : ∀ key, key ∉ entries.map (·.key) →
    t.remove key (hashOf key) = (.error (.keyNotFound key), t)
  buckets : t.buckets.size = t.capacity
  /-- A chain holds the entries that belong in its bucket, in the order of the listing. -/
  chains : ∀ bucket < t.capacity, (t.chain bucket).map Entry.ofRow =
    entries.filter fun entry => entry.hash.toNat % t.capacity == bucket

variable {t : HashTable κ ν} {rows : List (ChainEntry κ ν)}

theorem find?_map_ofRow (rows : List (ChainEntry κ ν)) (key : String) :
    Listing.find? (rows.map Entry.ofRow) key =
      (rows.find? fun row => row.key == key).map Entry.ofRow :=
  List.find?_map

theorem without_map_ofRow (rows : List (ChainEntry κ ν)) (key : String) :
    Listing.without (rows.map Entry.ofRow) key =
      (rows.filter fun row => row.key != key).map Entry.ofRow :=
  List.filter_map

/-- A table shows the rows it holds. -/
theorem Holds.shows (ht : Holds hashOf t rows) : t.Shows hashOf (rows.map Entry.ofRow) where
  nodup := by simpa [Function.comp_def, Entry.ofRow] using ht.keys_nodup
  count := by rw [ht.count_eq, List.length_map]
  rawKeys := by simp [ht.rawKeys_eq, Entry.ofRow]
  hashes := by simp [ht.hashes.toList_eq, Entry.ofRow]
  keys := by simp [ht.keys.toList_eq, Entry.ofRow]
  values := by simp [ht.values_eq, Entry.ofRow]
  search key := by
    rw [HashTable.search, ht.find?_eq, Listing.search, find?_map_ofRow]
    cases rows.find? fun row => row.key == key <;> rfl
  searchRawKey key := by
    rw [HashTable.searchRawKey, ht.find?_eq, Listing.search, find?_map_ofRow]
    cases rows.find? fun row => row.key == key <;> rfl
  contains key := by
    rw [Bool.eq_iff_iff, ht.contains_iff, decide_eq_true_iff, List.map_map, List.mem_map]
    rfl
  missing key hmissing := by
    refine ht.remove_of_find?_eq_none (List.find?_eq_none.2 fun row hrow hkey => hmissing ?_)
    rw [List.map_map]
    exact List.mem_map.2 ⟨row, hrow, eq_of_beq hkey⟩
  buckets := ht.size_eq
  chains bucket hbucket := by
    rw [ht.chain_eq bucket hbucket, List.filter_map]
    rfl

/-! ## What one operation does -/

/-- An operation does to a table what it does to the rows that the table holds. -/
theorem Holds.perform (ht : Holds hashOf t rows) {operation : Operation κ ν}
    (hhashed : operation.HashedBy hashOf) :
    ∃ after, Holds hashOf (operation.perform t).2 after ∧
      operation.performListed (rows.map Entry.ofRow) =
        ((operation.perform t).1, after.map Entry.ofRow) := by
  cases operation with
  | append entry =>
      obtain ⟨hash, rawKey, key, value⟩ := entry
      obtain rfl : hash = hashOf key := hhashed
      obtain ⟨order, hafter⟩ := ht.append rawKey key value
      refine ⟨_, hafter, ?_⟩
      simp [Operation.performListed, Operation.perform, Listing.write, without_map_ofRow,
        Entry.ofRow]
  | remove key hash =>
      obtain rfl : hash = hashOf key := hhashed
      simp only [Operation.performListed, Operation.perform, Listing.remove, Listing.search,
        find?_map_ofRow, without_map_ofRow]
      cases hfound : rows.find? fun row => row.key == key with
      | some row =>
          obtain ⟨after, hremoved, hafter⟩ := ht.remove_of_find? hfound
          exact ⟨_, by rwa [hremoved], by rw [hremoved]; rfl⟩
      | none =>
          -- Without an entry of the key there is nothing to take out.
          have hall : ∀ row ∈ rows, (row.key != key) = true := by simpa using hfound
          refine ⟨rows, by rwa [ht.remove_of_find?_eq_none hfound], ?_⟩
          rw [ht.remove_of_find?_eq_none hfound, List.filter_eq_self.2 hall]
          rfl
  | clear => exact ⟨[], holds_empty, rfl⟩

/-! ## The number of writes -/

theorem nextOrder_grow (t : HashTable κ ν) : t.grow.nextOrder = t.nextOrder := by
  obtain ⟨buckets, -, hgrow⟩ := t.exists_grow
  rw [hgrow]

theorem nextOrder_remove (t : HashTable κ ν) (key : String) (hash : UInt64) :
    (t.remove key hash).2.nextOrder = t.nextOrder := by
  have hremoval : (removal (κ := κ) (ν := ν) key hash).Maintains
      fun after => after.nextOrder = t.nextOrder := by
    refine .bind (fun after hafter => ?_) fun entry => ?_
    · unfold unlink
      split <;> exact hafter
    refine .bind (fun after hafter => ?_) fun position => ?_
    · unfold positionOf
      split <;> exact hafter
    -- Taking a position out of an array leaves the number alone.
    refine .bind (.discard fun _ hafter => hafter) fun _ => ?_
    refine .bind (.discard fun _ hafter => hafter) fun _ => ?_
    refine .bind (.discard fun _ hafter => hafter) fun _ => ?_
    refine .bind (.discard fun _ hafter => hafter) fun _ => ?_
    exact .bind (fun _ hafter => hafter) fun _ => .pure _
  exact hremoval t rfl

theorem nextOrder_append_le (t : HashTable κ ν) (rawKey : κ) (hash : UInt64) (key : String)
    (value : ν) : (t.append rawKey hash key value).nextOrder ≤ t.nextOrder + 1 := by
  have hwithout : (t.withoutKey key hash).nextOrder = t.nextOrder := by
    unfold withoutKey
    split
    · exact nextOrder_remove t key hash
    · rfl
  have hroom : ∀ t : HashTable κ ν, t.withRoom.nextOrder = t.nextOrder := by
    intro t
    unfold withRoom
    split
    · exact t.nextOrder_grow
    · rfl
  simp [append, addLast, link, hroom, hwithout]

theorem nextOrder_perform_le (operation : Operation κ ν) (t : HashTable κ ν) :
    (operation.perform t).2.nextOrder ≤ t.nextOrder + 1 := by
  cases operation with
  | append entry => exact nextOrder_append_le t _ _ _ _
  | remove key hash => exact Nat.le_succ_of_le (nextOrder_remove t key hash).le
  | clear => exact Nat.zero_le _

theorem nextOrder_transcript_le (operations : List (Operation κ ν)) (t : HashTable κ ν) :
    (transcript Operation.perform operations t).2.nextOrder ≤ t.nextOrder + operations.length := by
  induction operations generalizing t with
  | nil => exact Nat.le_refl _
  | cons operation rest ih =>
      have hfirst := nextOrder_perform_le operation t
      have hrest := ih (operation.perform t).2
      rw [transcript_cons, List.length_cons]
      dsimp only
      omega

/-! ## What a whole run does -/

/-- A row of operations does to a table what it does to the rows that the table holds. -/
theorem Holds.transcript (ht : Holds hashOf t rows) (operations : List (Operation κ ν))
    (hhashed : ∀ operation ∈ operations, operation.HashedBy hashOf) :
    ∃ after, Holds hashOf (ScriptCore.transcript Operation.perform operations t).2 after ∧
      ScriptCore.transcript Operation.performListed operations (rows.map Entry.ofRow) =
        ((ScriptCore.transcript Operation.perform operations t).1, after.map Entry.ofRow) := by
  induction operations generalizing t rows with
  | nil => exact ⟨rows, ht, rfl⟩
  | cons operation rest ih =>
      obtain ⟨hfirst, hrest⟩ := List.forall_mem_cons.1 hhashed
      obtain ⟨middle, hmiddle, hlisted⟩ := ht.perform hfirst
      obtain ⟨after, hafter, houtcomes⟩ := ih hmiddle hrest
      refine ⟨after, hafter, ?_⟩
      rw [transcript_cons, transcript_cons, hlisted, houtcomes]

theorem count_transcript_withCapacity (capacity : Nat) (operations : List (Operation κ ν))
    (hhashed : ∀ operation ∈ operations, operation.HashedBy hashOf) :
    (transcript Operation.perform operations (withCapacity capacity)).2.count =
      (transcript Operation.performListed operations []).2.length := by
  obtain ⟨rows, hrows, hlisted⟩ := (holds_withCapacity capacity).transcript operations hhashed
  rw [hrows.count_eq, ← List.map_nil, hlisted, List.length_map]

/-- Operations that are carried out on a table of any capacity, in which there is nothing at first,
have the same outcomes as on a listing; the table then shows the listing, and would show the same
one if it grew.  The writes were numbered without going beyond the number of operations. -/
theorem shows_transcript (hashOf : String → UInt64) (capacity : Nat)
    (operations : List (Operation κ ν))
    (hhashed : ∀ operation ∈ operations, operation.HashedBy hashOf) :
    ∃ outcomes t entries,
      transcript Operation.perform operations (withCapacity capacity) = (outcomes, t) ∧
      transcript Operation.performListed operations [] = (outcomes, entries) ∧
      t.Shows hashOf entries ∧ t.grow.Shows hashOf entries ∧
      t.nextOrder ≤ operations.length := by
  have hempty : Holds hashOf (withCapacity capacity : HashTable κ ν) [] :=
    holds_withCapacity capacity
  obtain ⟨rows, hrows, hlisted⟩ := hempty.transcript operations hhashed
  have hcount := nextOrder_transcript_le operations (withCapacity capacity)
  exact ⟨_, _, _, rfl, hlisted, hrows.shows, hrows.grow.shows,
    by simpa [withCapacity] using hcount⟩

/-- Operations on keys that all have the same hash. -/
def colliding : List (Operation Nat Nat) :=
  [.append ⟨3, 1, "a", 10⟩, .append ⟨3, 2, "b", 20⟩, .append ⟨3, 3, "a", 30⟩, .remove "c" 3,
    .append ⟨3, 4, "c", 40⟩, .remove "b" 3]

/-- In a table that grows from one bucket with all entries in it, the key written again stands
behind the key that was not, until that one is removed. -/
theorem shows_colliding :
    (∀ operation ∈ colliding, operation.HashedBy fun _ => 3) ∧
    ∃ t, transcript Operation.perform colliding (withCapacity 1) =
        ([.ok none, .ok none, .ok none, .error (.keyNotFound "c"), .ok none, .ok (some 20)], t) ∧
      t.Shows (fun _ => 3) [⟨3, 3, "a", 30⟩, ⟨3, 4, "c", 40⟩] := by
  have hhashed : ∀ operation ∈ colliding, operation.HashedBy fun _ => 3 := by
    simp [colliding, Operation.HashedBy]
  obtain ⟨outcomes, t, entries, hrun, hlisted, hshows, -⟩ :=
    shows_transcript (fun _ => 3) 1 colliding hhashed
  obtain ⟨rfl, rfl⟩ := Prod.mk.inj hlisted
  exact ⟨hhashed, t, hrun, hshows⟩

end ScriptCore.HashTable
