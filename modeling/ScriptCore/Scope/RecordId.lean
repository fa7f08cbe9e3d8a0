/-!
# Handles of scope records

A record is named by the slot it stands in and by the generation of that slot.  Freeing a record
moves its slot on to the next generation, so a handle kept beyond the life of its record does not
name the record that stands there later.

Both numbers stand for numbers of 32 bits.  A generation starts again from zero after the last one,
as `UInt32` does.  The number of a slot is a natural number here, where it would be cut down to 32
bits, so the arenas described are those of at most `2 ^ 32` slots.  A slot is made only if none is
vacant: these are the arenas that never hold more than `2 ^ 32` records at a time.
-/

namespace ScriptCore

/-- A handle to a record: the number of its slot and the generation of the slot at the time.  The
number is not cut down to 32 bits, so an arena is taken to have at most `2 ^ 32` slots.  Generations
are counted in 32 bits and start again from zero after the last one. -/
structure RecordId where
  index : Nat
  generation : UInt32
  deriving DecidableEq, Repr

/-- The handle as it is shown. -/
def RecordId.text (id : RecordId) : String :=
  s!"#{id.index}.{id.generation}"

end ScriptCore
