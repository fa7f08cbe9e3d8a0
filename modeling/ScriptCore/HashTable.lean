import ScriptCore.ResizableArray

/-!
# Chained hash tables in order of last writing

A table keeps its entries twice.  Four parallel arrays hold the raw keys, the hashes, the key
texts and the values, one position an entry, in the order in which the entries were last
written.  Beside them a row of buckets holds the same entries as chains: the bucket with number
`hash % capacity` holds the entries with that hash, again in order of writing.

Two keys are the same when their texts are; the hash only says in which bucket to look, and it
is given by the caller.  So a caller that gives one text different hashes at different times can
make the table hold that text several times, once in each bucket.

Looking up goes through the buckets, listing goes through the arrays.  A write of a key that is
present removes the old entry first, so the entry moves to the end.  The table doubles its
capacity when an entry more would exceed it; removing never shrinks it.
-/

namespace ScriptCore

/-- An entry of a chain; `order` numbers the writes of a table. -/
structure ChainEntry (κ ν : Type) where
  order : Nat
  hash : UInt64
  rawKey : κ
  key : String
  value : ν

/-- A table with keys of type `κ`, told apart by their texts, and values of type `ν`. -/
structure HashTable (κ ν : Type) where
  capacity : Nat
  count : Nat
  nextOrder : Nat
  rawKeys : ResizableArray κ
  hashes : ResizableArray UInt64
  keys : ResizableArray String
  values : ResizableArray ν
  buckets : Array (List (ChainEntry κ ν))

namespace HashTable

variable {κ ν : Type}

/-- The capacity of a table made without one in mind, and of a table that was cleared. -/
def defaultCapacity : Nat := 8

/-- A row of empty chains. -/
def emptyBuckets (capacity : Nat) : Array (List (ChainEntry κ ν)) :=
  Array.replicate capacity []

/-- An empty table of the given capacity, which is never less than one. -/
def withCapacity (capacity : Nat) : HashTable κ ν :=
  { capacity := max capacity 1
    count := 0
    nextOrder := 0
    rawKeys := .empty
    hashes := .empty
    keys := .empty
    values := .empty
    buckets := emptyBuckets (max capacity 1) }

/-- The empty table of the default capacity. -/
def empty : HashTable κ ν :=
  withCapacity defaultCapacity

instance : Inhabited (HashTable κ ν) := ⟨empty⟩

/-! ## Looking at a table -/

/-- Whether there are no entries. -/
def isEmpty (t : HashTable κ ν) : Bool :=
  t.count == 0

/-- The number of the bucket in which a hash belongs. -/
def bucketOf (t : HashTable κ ν) (hash : UInt64) : Nat :=
  hash.toNat % t.capacity

/-- The chain of a bucket. -/
def chain (t : HashTable κ ν) (bucket : Nat) : List (ChainEntry κ ν) :=
  t.buckets.getD bucket []

/-- The first entry with the given key in the bucket of the given hash. -/
def find? (t : HashTable κ ν) (key : String) (hash : UInt64) : Option (ChainEntry κ ν) :=
  (t.chain (t.bucketOf hash)).find? fun entry => entry.key == key

/-- Whether the bucket of the hash holds the key. -/
def contains (t : HashTable κ ν) (key : String) (hash : UInt64) : Bool :=
  (t.find? key hash).isSome

/-- The value stored under a key. -/
def search (t : HashTable κ ν) (key : String) (hash : UInt64) : Except RuntimeError ν :=
  match t.find? key hash with
  | some entry => .ok entry.value
  | none => .error (.keyNotFound key)

/-- The key itself, as it was given when the entry was written. -/
def searchRawKey (t : HashTable κ ν) (key : String) (hash : UInt64) : Except RuntimeError κ :=
  match t.find? key hash with
  | some entry => .ok entry.rawKey
  | none => .error (.keyNotFound key)

/-- The raw keys and values, in order of last writing. -/
def entries (t : HashTable κ ν) : List (κ × ν) :=
  t.rawKeys.toList.zip t.values.toList

/-- The key texts with their hashes and values, in order of last writing. -/
def indexed (t : HashTable κ ν) : List (String × UInt64 × ν) :=
  t.keys.toList.zip (t.hashes.toList.zip t.values.toList)

/-- How many entries each bucket holds. -/
def chainLengths (t : HashTable κ ν) : List Nat :=
  t.buckets.toList.map List.length

/-! ## Growth -/

/-- Puts an entry at the end of its chain. -/
def link (t : HashTable κ ν) (entry : ChainEntry κ ν) : HashTable κ ν :=
  let bucket := t.bucketOf entry.hash
  { t with buckets := t.buckets.modify bucket fun chain => chain ++ [entry] }

/-- The entries of all chains, in order of writing. -/
def chainedInOrder (t : HashTable κ ν) : List (ChainEntry κ ν) :=
  t.buckets.toList.flatten.mergeSort fun first second => decide (first.order ≤ second.order)

/-- Doubles the capacity and builds arrays and chains again from the entries in the chains. -/
def grow (t : HashTable κ ν) : HashTable κ ν :=
  let entries := t.chainedInOrder
  let wider := { t with
    capacity := t.capacity * 2
    buckets := emptyBuckets (t.capacity * 2)
    rawKeys := .ofList (entries.map (·.rawKey))
    hashes := .ofList (entries.map (·.hash))
    keys := .ofList (entries.map (·.key))
    values := .ofList (entries.map (·.value)) }
  entries.foldl link wider

/-! ## Removing -/

/-- Takes the first entry with the given key out of the chain in which the hash belongs. -/
def unlink (key : String) (hash : UInt64) : Attempt (HashTable κ ν) (ChainEntry κ ν) := fun t =>
  match t.find? key hash with
  | none => (.error (.keyNotFound key), t)
  | some entry =>
    (.ok entry, { t with
      buckets := t.buckets.modify (t.bucketOf hash) fun chain =>
        chain.eraseP fun entry => entry.key == key })

/-- The position of a key in the arrays. -/
def positionOf (key : String) : Attempt (HashTable κ ν) Nat := fun t =>
  match t.keys.findIndex? (· == key) with
  | none => (.error (.keyNotFound key), t)
  | some position => (.ok position, t)

/-- Takes a position out of the array of raw keys. -/
def dropRawKey (position : Nat) : Attempt (HashTable κ ν) κ := fun t =>
  let (outcome, rest) := t.rawKeys.removeAt position
  (outcome, { t with rawKeys := rest })

/-- Takes a position out of the array of hashes. -/
def dropHash (position : Nat) : Attempt (HashTable κ ν) UInt64 := fun t =>
  let (outcome, rest) := t.hashes.removeAt position
  (outcome, { t with hashes := rest })

/-- Takes a position out of the array of key texts. -/
def dropKey (position : Nat) : Attempt (HashTable κ ν) String := fun t =>
  let (outcome, rest) := t.keys.removeAt position
  (outcome, { t with keys := rest })

/-- Takes a position out of the array of values. -/
def dropValue (position : Nat) : Attempt (HashTable κ ν) ν := fun t =>
  let (outcome, rest) := t.values.removeAt position
  (outcome, { t with values := rest })

/-- Takes the entry of a key out of its chain and then, position by position, out of the arrays. -/
def removal (key : String) (hash : UInt64) : Attempt (HashTable κ ν) ν := do
  let entry ← unlink key hash
  let position ← positionOf key
  discard <| dropRawKey position
  discard <| dropHash position
  discard <| dropKey position
  discard <| dropValue position
  modify fun t => { t with count := t.count - 1 }
  return entry.value

/-- Removes the entry of a key and gives back its value. -/
def remove (t : HashTable κ ν) (key : String) (hash : UInt64) :
    Except RuntimeError ν × HashTable κ ν :=
  (removal key hash).on t

/-! ## Writing -/

/-- The table without the entry of a key, if it has one in the bucket of the hash. -/
def withoutKey (t : HashTable κ ν) (key : String) (hash : UInt64) : HashTable κ ν :=
  if t.contains key hash then (t.remove key hash).2 else t

/-- The table with room for one more entry. -/
def withRoom (t : HashTable κ ν) : HashTable κ ν :=
  if t.capacity < t.count + 1 then t.grow else t

/-- Adds an entry behind all others. -/
def addLast (t : HashTable κ ν) (rawKey : κ) (hash : UInt64) (key : String) (value : ν) :
    HashTable κ ν :=
  let entry := { order := t.nextOrder, hash, rawKey, key, value }
  { t with
    nextOrder := t.nextOrder + 1
    rawKeys := t.rawKeys.append rawKey
    hashes := t.hashes.append hash
    keys := t.keys.append key
    values := t.values.append value
    count := t.count + 1 }.link entry

/-- Writes the entry of a key; an entry that was there before is removed first. -/
def append (t : HashTable κ ν) (rawKey : κ) (hash : UInt64) (key : String) (value : ν) :
    HashTable κ ν :=
  (t.withoutKey key hash).withRoom.addLast rawKey hash key value

/-- Drops all entries and goes back to the default capacity. -/
def clear (_ : HashTable κ ν) : HashTable κ ν :=
  empty

end HashTable

end ScriptCore
