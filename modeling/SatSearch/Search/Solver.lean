import SatSearch.Search.Progress
import SatSearch.Search.State
/-!
# The search

A solver holds a formula that was accepted, with its occurrences, and everything the caller may
choose: settings, objective, global drift and memory hook. `step` scores the assignment, moves it by
a local or a global drift, brings the unsatisfied clauses up to date and shows the outcome to the
hook. `solve` starts from a random assignment and steps until no clause is unsatisfied or the
budget is used up.

Models `Solver` with `initialize`, `step` and `solve`.
-/

namespace SatSearch

inductive Move where
  | toward
  | anywhere
  deriving DecidableEq, Repr

inductive StepOutcome where
  | satisfied
  | mutated (kind : Move) (flipped : List Nat)
  deriving DecidableEq, Repr

structure Solver where
  formula : Formula
  occurrences : Occurrences
  config : SearchConfig
  objective : Objective := .valence
  drift : Drift := .semantic
  hook : MemoryHook := .silent

namespace Solver

/-- A solver with the default objective, drift and hook; the formula is judged before the
settings. -/
def new (f : Formula) (config : SearchConfig) : Except SearchError Solver :=
  match Occurrences.build f with
  | .error e => .error e
  | .ok occurrences => match config.validate with
    | .error e => .error (.invalidConfig e)
    | .ok _ => .ok { formula := f, occurrences, config }

/-- The state of a random assignment. -/
def start (S : Solver) : Draw SearchState := do
  let a ← Assignment.random S.occurrences.numVars
  let valence ← S.objective S.formula a
  SearchState.init S.formula a valence S.config.recordTrace

/-- Draws which kind of move comes next. -/
def drawMove (S : Solver) : Draw Move := do
  let u ← Draw.unit
  pure (if u < S.config.localRate then .toward else .anywhere)

/-- The drift of a kind of move. -/
def driftOf (S : Solver) : Move → Drift
  | .toward => .toUnsatisfied
  | .anywhere => S.drift

/-- A step from a state in which some clause is unsatisfied. -/
def mutate (S : Solver) (s : SearchState) : Draw (StepOutcome × SearchState) := do
  let valence ← S.objective S.formula s.assignment
  let s := s.recordValence valence
  let kind ← S.drawMove
  let (a, flipped) ← S.driftOf kind s.assignment S.formula valence s.unsatisfied
  let s ← SearchState.applyFlips { s with assignment := a } S.formula S.occurrences flipped
  pure (.mutated kind flipped,
    { s with memory := S.hook s.memory s.assignment valence, iteration := s.iteration + 1 })

/-- One step; in a state without unsatisfied clauses it does nothing and draws nothing. -/
def step (S : Solver) (s : SearchState) : Draw (StepOutcome × SearchState) :=
  if s.unsatisfied.isEmpty then pure (.satisfied, s) else S.mutate s

/-- The number of steps between two advances of the progress. -/
def progressStride : Nat := 1024

/-- Tells a listener when another stride is full. -/
def reportStride (r : Reporter) (done : Nat) : Reporter :=
  if done % progressStride = 0 then r.report (.taskAdvance progressStride) else r

/-- Runs at most `remaining` further steps after `done` ones. -/
def run (S : Solver) :
    (remaining done : Nat) → SearchState → Reporter → Draw (SolveResult × Reporter)
  | 0, done, s, r => pure (s.exhaustedResult done, r.report .taskFinish)
  | remaining + 1, done, s, r => do
    match ← S.step s with
    | (.satisfied, s) => pure (s.satisfiedResult done, r.report .taskFinish)
    | (.mutated _ _, s) => S.run remaining (done + 1) s (reportStride r (done + 1))

/-- A whole search. -/
def solve (S : Solver) (r : Reporter) : Draw (SolveResult × Reporter) := do
  let s ← S.start
  S.run S.config.maxIterations 0 s (r.report (.taskStart S.config.maxIterations))

end Solver

end SatSearch
