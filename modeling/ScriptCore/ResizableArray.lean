import ScriptCore.Error

/-!
# Resizable arrays

A growable array that manages its capacity openly: the capacity starts at one, doubles when an
element is added to a full array, and halves whenever a removal leaves the array less than half
full.  Unused slots hold nothing, so a stored element is never mistaken for a vacancy.

Indices may be negative and then count from the end, `-1` being the last element.

The view of an array is `ResizableArray.toList`.  An operation that can fail gives back its
outcome together with the array it leaves, so that "a failure changes nothing" is a statement
about the operation.
-/

namespace ScriptCore

/-- An array of `capacity` slots, of which the first `count` hold the elements. -/
structure ResizableArray (α : Type) where
  capacity : Nat
  count : Nat
  slots : Array (Option α)

namespace ResizableArray

variable {α : Type}

/-- The array without elements. -/
def empty : ResizableArray α :=
  { capacity := 1, count := 0, slots := #[none] }

instance : Inhabited (ResizableArray α) := ⟨empty⟩

/-- The elements, in order. -/
def toList (a : ResizableArray α) : List α :=
  (a.slots.toList.take a.count).filterMap id

/-- Whether there are no elements. -/
def isEmpty (a : ResizableArray α) : Bool :=
  a.count == 0

/-! ## Capacity -/

/-- Moves the elements to a store of `newCapacity` slots, which is never smaller than one. -/
def resize (a : ResizableArray α) (newCapacity : Nat) : ResizableArray α :=
  let newCapacity := max newCapacity 1
  { capacity := newCapacity
    count := a.count
    slots := a.slots.extract 0 a.count ++ Array.replicate (newCapacity - a.count) none }

/-- Makes room for one more element. -/
def growIfFull (a : ResizableArray α) : ResizableArray α :=
  if a.count = a.capacity then a.resize (a.capacity * 2) else a

/-- Gives up half of the slots when less than half of them are in use. -/
def shrinkIfSparse (a : ResizableArray α) : ResizableArray α :=
  if 1 < a.capacity ∧ a.count < a.capacity / 2 then a.resize (a.capacity / 2) else a

/-! ## Positions -/

/-- The position that an index names, or the error that it names none. -/
def position (a : ResizableArray α) (operation : String) (index : Int) : Except RuntimeError Nat :=
  let resolved := if index < 0 then index + a.count else index
  if resolved < 0 ∨ a.count ≤ resolved then .error (.outOfBounds operation index a.count)
  else .ok resolved.toNat

/-- The content of a slot; a vacant slot is reported as an index out of bounds. -/
def contentOf (slot : Option α) (operation : String) (index : Int) (length : Nat) :
    Except RuntimeError α :=
  match slot with
  | some value => .ok value
  | none => .error (.outOfBounds operation index length)

/-- The slot at a position; there is nothing beyond the store. -/
def slotAt (a : ResizableArray α) (place : Nat) : Option α :=
  a.slots.getD place none

/-! ## Operations -/

/-- Adds an element at the end. -/
def append (a : ResizableArray α) (value : α) : ResizableArray α :=
  let a := a.growIfFull
  { a with slots := a.slots.setIfInBounds a.count (some value), count := a.count + 1 }

/-- The array that repeated appends build. -/
def ofList (values : List α) : ResizableArray α :=
  values.foldl append empty

/-- The element at an index. -/
def get (a : ResizableArray α) (index : Int) : Except RuntimeError α := do
  let place ← a.position "get_item" index
  contentOf (a.slotAt place) "get_item" index a.count

/-- Exchanges the element at an index for another and gives back the old one. -/
def replace (a : ResizableArray α) (index : Int) (value : α) :
    Except RuntimeError α × ResizableArray α :=
  match a.position "get_item" index with
  | .error err => (.error err, a)
  | .ok place =>
    match contentOf (a.slotAt place) "get_item" index a.count with
    | .error err => (.error err, a)
    | .ok old => (.ok old, { a with slots := a.slots.setIfInBounds place (some value) })

/-- Overwrites the element at an index. -/
def overwrite (a : ResizableArray α) (index : Int) (value : α) :
    Except RuntimeError Unit × ResizableArray α :=
  match a.position "insert_at" index with
  | .error err => (.error err, a)
  | .ok place => (.ok (), { a with slots := a.slots.setIfInBounds place (some value) })

/-- Where an inserted element goes: before the element at the index, or at the end when the
index is the length. -/
def insertPosition (a : ResizableArray α) (index : Int) : Except RuntimeError Nat :=
  if index = a.count then .ok a.count else a.position "insert_at" index

/-- Moves the slot at the second position down to the first one, past each slot in between. -/
def sinkTo (place : Nat) : Nat → Array (Option α) → Array (Option α)
  | 0, slots => slots
  | i + 1, slots => if place ≤ i then sinkTo place i (slots.swapIfInBounds (i + 1) i) else slots

/-- Moves a slot up past the given number of slots. -/
def liftBy : Nat → Nat → Array (Option α) → Array (Option α)
  | 0, _, slots => slots
  | count + 1, i, slots => liftBy count (i + 1) (slots.swapIfInBounds i (i + 1))

/-- Inserts an element before the one at an index.  The first slot without an element is moved down
to the place, so that the elements from there on move up by one, and is filled. -/
def insert (a : ResizableArray α) (index : Int) (value : α) :
    Except RuntimeError Unit × ResizableArray α :=
  match a.insertPosition index with
  | .error err => (.error err, a)
  | .ok place =>
    let a := a.growIfFull
    (.ok (), { a with
      slots := (sinkTo place a.count a.slots).setIfInBounds place (some value)
      count := a.count + 1 })

/-- Takes out the element at an index.  Its slot is emptied and moved up behind the last element, so
that the elements behind it move down by one. -/
def removeAt (a : ResizableArray α) (index : Int) : Except RuntimeError α × ResizableArray α :=
  if a.count = 0 then (.error (.emptyArray "remove_at"), a)
  else
    match a.position "remove_at" index with
    | .error err => (.error err, a)
    | .ok place =>
      let removed := a.slotAt place
      let rest := { a with
        slots := liftBy (a.count - 1 - place) place (a.slots.setIfInBounds place none)
        count := a.count - 1 }
      (contentOf removed "remove_at" index rest.count, rest.shrinkIfSparse)

/-- Takes out the last element. -/
def pop (a : ResizableArray α) : Except RuntimeError α × ResizableArray α :=
  if a.count = 0 then (.error (.emptyArray "pop"), a)
  else
    let last := a.count - 1
    let removed := a.slotAt last
    let rest := { a with slots := a.slots.setIfInBounds last none, count := last }
    (contentOf removed "pop" (-1) rest.count, rest.shrinkIfSparse)

/-- Drops every element and every slot but one. -/
def clear (_ : ResizableArray α) : ResizableArray α :=
  empty

/-- The position of the first element that passes a test. -/
def findIndex? (a : ResizableArray α) (test : α → Bool) : Option Nat :=
  a.toList.findIdx? test

end ResizableArray

end ScriptCore
