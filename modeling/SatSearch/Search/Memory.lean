import SatSearch.Cnf.Assignment
/-!
# Search memory

What an observer of a search may note down after each step: values in order, and a set of
variables. A hook is a function of the memory, the assignment after the step and the value before
it; the search never reads the memory.

Models `SearchMemory`, `MemoryHook` and `NoopMemory`.
-/

namespace SatSearch

structure Memory where
  plateaus : Array Float := #[]
  /-- Variables in ascending order. -/
  blacklist : List Nat := []
  deriving Inhabited

namespace Memory

def note (m : Memory) (value : Float) : Memory := { m with plateaus := m.plateaus.push value }

/-- The ascending list with `v` in it. -/
def insertAscending (v : Nat) : List Nat → List Nat
  | [] => [v]
  | w :: ws => if v < w then v :: w :: ws else if v = w then w :: ws else w :: insertAscending v ws

def block (m : Memory) (v : Nat) : Memory := { m with blacklist := insertAscending v m.blacklist }

end Memory

/-- What is done to the memory after a step. -/
def MemoryHook := Memory → Assignment → Float → Memory

/-- Notes nothing. -/
def MemoryHook.silent : MemoryHook := fun m _ _ => m

end SatSearch
