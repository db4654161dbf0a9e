import SatSearch.Run.Rows
/-!
# Planning a sweep

A sweep runs through the numbers of variables from a start up to a stop in equal steps, several
times each. Every run has a seed of its own, drawn in the order of the runs, so that the seeds do
not depend on the numbers of variables.

Models `plan` and the jobs that a sweep makes of its points.
-/

namespace SatSearch

namespace SweepPlan

inductive Error where
  | malformedRange
  | zeroStep
  | zeroRuns
  deriving DecidableEq, Repr

def Error.message : Error → String
  | .malformedRange => "--n-range expects exactly START STOP STEP"
  | .zeroStep => "--n-range STEP must be positive"
  | .zeroRuns => "--runs must be positive"

/-- How often each number of variables is run unless told otherwise. -/
def defaultRuns : Nat := 3

/-- Seeds are drawn from 1 up to this one. -/
def maxSeed : Nat := 1000000000

/-- The number of values from `start` below `stop` in steps of `step`. -/
def stepCount (start stop step : Nat) : Nat := (stop - start + step - 1) / step

/-- The numbers of variables of all runs in order. -/
def sizes (start stop step runs : Nat) : List Nat :=
  (List.range (stepCount start stop step)).flatMap fun i => List.replicate runs (start + i * step)

def drawSeed : Draw UInt64 := do
  let k ← Draw.below .wide maxSeed
  pure (UInt64.ofNat (k + 1))

/-- Draws a seed for each run. -/
def drawPoints : List Nat → Draw (List SweepPoint)
  | [] => pure []
  | n :: ns => do
    let seed ← drawSeed
    let points ← drawPoints ns
    pure (⟨n, seed⟩ :: points)

/-- The numbers of variables that a range given as START STOP STEP asks for. -/
def sizesOf (range : List Nat) (runs : Nat) : Except Error (List Nat) :=
  match range with
  | [start, stop, step] =>
    if step = 0 then .error .zeroStep
    else if runs = 0 then .error .zeroRuns
    else .ok (sizes start stop step runs)
  | _ => .error .malformedRange

/-- The runs of a sweep. -/
def plan (range : List Nat) (runs : Nat) : Draw (Except Error (List SweepPoint)) :=
  match sizesOf range runs with
  | .error e => pure (.error e)
  | .ok ns => .ok <$> drawPoints ns

end SweepPlan

/-- The name of a run. -/
def SweepPoint.name (p : SweepPoint) : String :=
  "n" ++ toString p.n ++ "-seed" ++ toString p.seed.toNat

/-- The instance that a run is about, with `ratio` clauses per variable, as a job with the run's
seed. -/
def SweepPoint.job (p : SweepPoint) (ratio : Float) :
    Except Fault (Except Planted.Error BatchJob) :=
  match Planted.generate p.n (some (Planted.clauseCountFor p.n ratio)) (.ofSeed p.seed) with
  | .error fault => .error fault
  | .ok (.error e, _) => .ok (.error e)
  | .ok (.ok planted, _) => .ok (.ok ⟨p.name, planted.formula, some p.seed⟩)

end SatSearch
