import SatSearch.Cnf.Formula
import SatSearch.Random.Draw
/-!
# The set of unsatisfied clauses

A finite set of clause indices kept as a list of members and, for every clause, the place at which
it stands in that list. Insertion appends, and removal moves the last member into the gap, so each
takes constant time and the order of the members depends on nothing but the operations. The order
matters: a random member is drawn by its place.

Models `UnsatisfiedSet` with `from_assignment`, `insert`, `remove`, `refresh` and `choose`.
-/

namespace SatSearch

structure UnsatSet where
  members : Array Nat
  positions : Array (Option Nat)
  deriving DecidableEq, Repr, Inhabited

namespace UnsatSet

/-- The empty set of clauses with indices below `capacity`. -/
def withCapacity (capacity : Nat) : UnsatSet := ⟨#[], Array.replicate capacity none⟩

def size (s : UnsatSet) : Nat := s.members.size

def isEmpty (s : UnsatSet) : Bool := s.size == 0

def toList (s : UnsatSet) : List Nat := s.members.toList

def toSortedList (s : UnsatSet) : List Nat := s.toList.mergeSort (· ≤ ·)

def contains (s : UnsatSet) (i : Nat) : Except Fault Bool :=
  match entryAt s.positions i with
  | .ok place => .ok place.isSome
  | .error f => .error f

/-- Appends `i` unless it is a member, and says whether it was new. -/
def insert (s : UnsatSet) (i : Nat) : Except Fault (UnsatSet × Bool) :=
  let ⟨members, positions⟩ := s
  match entryAt positions i with
  | .ok none => .ok (⟨members.push i, positions.setIfInBounds i (some members.size)⟩, true)
  | .ok (some _) => .ok (⟨members, positions⟩, false)
  | .error f => .error f

/-- Drops the entry at `place`, which the last entry takes over. -/
def dropAt (members : Array Nat) (place : Nat) : Array Nat :=
  (members.setIfInBounds place (members.getD (members.size - 1) 0)).pop

/-- Removes `i` if it is a member, and says whether it was. -/
def remove (s : UnsatSet) (i : Nat) : Except Fault (UnsatSet × Bool) :=
  match entryAt s.positions i with
  | .error f => .error f
  | .ok none => .ok (s, false)
  | .ok (some place) =>
    let ⟨members, positions⟩ := s
    if place < members.size then
      let members := dropAt members place
      match members[place]? with
      | some moved =>
        if moved < positions.size then
          .ok (⟨members, (positions.setIfInBounds moved (some place)).setIfInBounds i none⟩, true)
        else .error (.outOfRange positions.size moved)
      | none => .ok (⟨members, positions.setIfInBounds i none⟩, true)
    else .error (.outOfRange members.size place)

/-- Makes `i` a member exactly if the assignment does not satisfy clause `i`. -/
def refresh (s : UnsatSet) (f : Formula) (a : Assignment) (i : Nat) : Except Fault UnsatSet :=
  match f.clause i with
  | .error e => .error e
  | .ok c => match c.isSatisfiedBy a with
    | .error e => .error e
    | .ok true => (·.1) <$> s.remove i
    | .ok false => (·.1) <$> s.insert i

/-- Refreshes the listed clauses one after another. -/
def refreshAll (f : Formula) (a : Assignment) : UnsatSet → List Nat → Except Fault UnsatSet
  | s, [] => .ok s
  | s, i :: is => match s.refresh f a i with
    | .ok s => refreshAll f a s is
    | .error e => .error e

def insertAll : UnsatSet → List Nat → Except Fault UnsatSet
  | s, [] => .ok s
  | s, i :: is => match s.insert i with
    | .ok (s, _) => insertAll s is
    | .error e => .error e

/-- The clauses that the assignment does not satisfy, in ascending order. -/
def ofAssignment (f : Formula) (a : Assignment) : Except Fault UnsatSet :=
  match f.unsatisfiedClauses a with
  | .ok indices => insertAll (withCapacity f.numClauses) indices.toList
  | .error e => .error e

/-- A member, or nothing, without drawing, when there is none. -/
def choose (s : UnsatSet) : Draw (Option Nat) :=
  if s.isEmpty then pure none
  else do
    let place ← Draw.below .wide s.size
    let member ← entryAt s.members place
    pure (some member)

end UnsatSet

end SatSearch
