import ScriptCore.Machine

/-!
# Allocation counts

How many things a machine has made so far.  Containers and functions are never taken out of the
heap, so the sizes of its stores count them.
-/

namespace ScriptCore

/-- How many things were made, and how many scopes were freed. -/
structure Tally where
  scopesAllocated : Nat
  scopesFreed : Nat
  functions : Nat
  lists : Nat
  dicts : Nat
  modules : Nat
  deriving DecidableEq, Repr

namespace Tally

/-- The counts before anything was made. -/
def zero : Tally :=
  { scopesAllocated := 0, scopesFreed := 0, functions := 0, lists := 0, dicts := 0, modules := 0 }

/-- The counts of a machine. -/
def ofMachine (m : Machine) : Tally :=
  { scopesAllocated := m.arena.allocated
    scopesFreed := m.arena.reclaimed
    functions := m.heap.functions.size
    lists := m.heap.lists.size
    dicts := m.heap.dicts.size
    modules := m.heap.modules.size }

/-- The scopes that were not freed. -/
def scopesOutstanding (t : Tally) : Nat :=
  t.scopesAllocated - t.scopesFreed

/-- The counts as lines of a report. -/
def report (t : Tally) : String :=
  s!"scopes outstanding:  {t.scopesOutstanding}\n" ++
    s!"functions created:   {t.functions}\n" ++
    s!"lists created:       {t.lists}\n" ++
    s!"dicts created:       {t.dicts}\n" ++
    s!"modules created:     {t.modules}\n"

end Tally

end ScriptCore
