import SatSearch.Search.Drift
import SatSearch.Search.Memory
import SatSearch.Search.Occurrences
/-!
# Search states and results

A state holds the assignment with its unsatisfied clauses, the best assignment recorded so far with
its value, and what is kept for the caller: the number of steps, the trace and the memory.

Models `SearchState` with `record_valence`, `apply_flips`, `into_satisfied` and `into_exhausted`.
-/

namespace SatSearch

inductive Termination where
  | satisfied
  | budgetExhausted
  deriving DecidableEq, Repr

structure SolveResult where
  termination : Termination
  valence : Float
  assignment : Assignment
  steps : Nat
  trace : Option (Array Float)
  memory : Memory

def SolveResult.isSolved (r : SolveResult) : Bool := r.termination == .satisfied

structure SearchState where
  assignment : Assignment
  unsatisfied : UnsatSet
  bestAssignment : Assignment
  bestValence : Float
  iteration : Nat
  trace : Option (Array Float)
  memory : Memory

namespace SearchState

/-- The state before the first step, with the value of the assignment as the best one. -/
def init (f : Formula) (a : Assignment) (valence : Float) (recordTrace : Bool) :
    Except Fault SearchState :=
  match UnsatSet.ofAssignment f a with
  | .ok unsatisfied =>
    .ok
      { assignment := a
        unsatisfied
        bestAssignment := a
        bestValence := valence
        iteration := 0
        trace := if recordTrace then some #[valence] else none
        memory := {} }
  | .error e => .error e

/-- Takes the assignment as the best one if its value is greater than the best so far, and adds the
best value to the trace. -/
def recordValence (s : SearchState) (valence : Float) : SearchState :=
  let improved := s.bestValence < valence
  let bestValence := if improved then valence else s.bestValence
  { s with
    bestValence
    bestAssignment := if improved then s.assignment else s.bestAssignment
    trace := s.trace.map (·.push bestValence) }

/-- Refreshes the clauses of each listed variable. -/
def refreshVars (f : Formula) (o : Occurrences) (a : Assignment) :
    UnsatSet → List Nat → Except Fault UnsatSet
  | s, [] => .ok s
  | s, v :: vs => match o.clausesOf v with
    | .error e => .error e
    | .ok indices => match s.refreshAll f a indices.toList with
      | .error e => .error e
      | .ok s => refreshVars f o a s vs

/-- Brings the unsatisfied clauses up to date after the listed variables were flipped. -/
def applyFlips (s : SearchState) (f : Formula) (o : Occurrences) (vars : List Nat) :
    Except Fault SearchState :=
  match refreshVars f o s.assignment s.unsatisfied vars with
  | .ok unsatisfied => .ok { s with unsatisfied }
  | .error e => .error e

/-- The result when the assignment satisfies every clause. -/
def satisfiedResult (s : SearchState) (steps : Nat) : SolveResult :=
  { termination := .satisfied
    valence := 1.0
    assignment := s.assignment
    steps
    trace := s.trace.map (·.push 1.0)
    memory := s.memory }

/-- The result when the budget is used up: the best that was recorded. -/
def exhaustedResult (s : SearchState) (steps : Nat) : SolveResult :=
  { termination := .budgetExhausted
    valence := s.bestValence
    assignment := s.bestAssignment
    steps
    trace := s.trace.map (·.push s.bestValence)
    memory := s.memory }

end SearchState

end SatSearch
