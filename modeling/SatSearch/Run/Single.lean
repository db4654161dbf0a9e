import SatSearch.Search.Solver
/-!
# Solving one formula

A run in two phases: preparing the solver, in which a formula or settings may be refused, and
searching.

Models `SolveReport` and the `run` of one formula.
-/

namespace SatSearch

structure SolveReport where
  result : SolveResult
  numVars : Nat
  numClauses : Nat

/-- Solves a formula; `fresh` is the generator of a run without a seed. -/
def solveFormula (f : Formula) (config : SearchConfig) (fresh : Generator) (r : Reporter) :
    Except Fault (Except SearchError SolveReport × Reporter) :=
  let r := r.report (.phaseStart "Preparation")
  match Solver.new f config with
  | .error e => .ok (.error e, r)
  | .ok S =>
    let r := (r.report .phaseFinish).report (.phaseStart "Searching")
    match S.solve r (config.generator fresh) with
    | .error fault => .error fault
    | .ok ((result, r), _) =>
      .ok (.ok ⟨result, f.numVars, f.numClauses⟩, r.report .phaseFinish)

end SatSearch
