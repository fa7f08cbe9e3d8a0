import ScriptCore.Scope.Arena

/-!
# The call stack

The open scopes, the current one on top.  The stack has a limit: a scope that would go beyond it
is not pushed, which ends runaway recursion with an error.
-/

namespace ScriptCore

/-- The open scopes from the bottom to the top, and how many there may be. -/
structure CallStack where
  records : Array RecordId
  limit : Nat

namespace CallStack

/-- The stack without scopes. -/
def empty (limit : Nat) : CallStack :=
  { records := #[], limit }

/-- The stack that holds one scope, which is not subject to the limit. -/
def withBase (limit : Nat) (base : RecordId) : CallStack :=
  { records := #[base], limit }

/-- The number of open scopes. -/
def depth (s : CallStack) : Nat :=
  s.records.size

/-- Whether no scope is open. -/
def isEmpty (s : CallStack) : Bool :=
  s.records.isEmpty

/-- Whether no further scope can be opened. -/
def isFull (s : CallStack) : Bool :=
  decide (s.limit ≤ s.depth)

/-- The scope on top. -/
def top? (s : CallStack) : Option RecordId :=
  s.records.back?

/-- Opens a scope.  Its level is the number of scopes below it. -/
def push (s : CallStack) (arena : ScopeArena) (id : RecordId) :
    Except RuntimeError Unit × CallStack × ScopeArena :=
  match arena.get id with
  | .error err => (.error err, s, arena)
  | .ok record =>
    let depth := s.depth
    if s.isFull then (.error (.depthExceeded s.limit record.name), s, arena)
    else
      (.ok (), { s with records := s.records.push id },
        arena.put id.index { record with level := depth })

/-- Closes the scope on top. -/
def pop (s : CallStack) : Except RuntimeError RecordId × CallStack :=
  match s.top? with
  | some id => (.ok id, { s with records := s.records.pop })
  | none => (.error (.emptyArray "pop"), s)

/-- The position of a scope among the lowest ones; of several the topmost. -/
def positionBelow (s : CallStack) (id : RecordId) : Nat → Option Nat
  | 0 => none
  | height + 1 =>
    if s.records[height]? = some id then some height else s.positionBelow id height

/-- The position of a scope, counted from the bottom; of several the topmost. -/
def positionOf? (s : CallStack) (id : RecordId) : Option Nat :=
  s.positionBelow id s.depth

end CallStack

end ScriptCore
