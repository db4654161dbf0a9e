import SatSearch.Run.Single
/-!
# Solving many formulas

Jobs are solved one by one, each as if it were alone. A job without a seed of its own takes the
configured seed plus its position, so that all runs differ and each can be repeated alone.

Models `BatchJob`, `BatchRecord`, the `run` of a batch and `solve_job`.
-/

namespace SatSearch

structure BatchJob where
  name : String
  formula : Formula
  seed : Option UInt64

/-- What is kept of a job: its sizes and seed, and the outcome or the reason why it was skipped. -/
structure BatchRecord where
  name : String
  n : Nat
  m : Nat
  seed : Option UInt64
  solved : Bool
  bestValence : Float
  steps : Nat
  runtime : Float
  error : Option String

/-- The record with the time that its search took. Where there is an error nothing was searched. -/
def BatchRecord.withRuntime (r : BatchRecord) (seconds : Float) : BatchRecord :=
  if r.error.isNone then { r with runtime := seconds } else r

namespace Batch

/-- The seed of the job at a position. -/
def seedFor (config : SearchConfig) (position : Nat) (job : BatchJob) : Option UInt64 :=
  match job.seed with
  | some seed => some seed
  | none => config.seed.map (· + UInt64.ofNat position)

/-- The record of a job that was refused. -/
def refused (job : BatchJob) (seed : Option UInt64) (e : SearchError) : BatchRecord :=
  { name := job.name, n := job.formula.numVars, m := job.formula.numClauses, seed
    solved := false, bestValence := 0.0, steps := 0, runtime := 0.0, error := some e.message }

/-- The record of a job that was searched; the time it took is filled in by whoever measures it. -/
def searched (job : BatchJob) (seed : Option UInt64) (result : SolveResult) : BatchRecord :=
  { name := job.name, n := job.formula.numVars, m := job.formula.numClauses, seed
    solved := result.isSolved, bestValence := result.valence, steps := result.steps
    runtime := 0.0, error := none }

/-- Solves the job at a position; `fresh` is its generator when there is no seed. -/
def solveJob (config : SearchConfig) (fresh : Generator) (position : Nat) (job : BatchJob) :
    Except Fault BatchRecord :=
  let seed := seedFor config position job
  match solveFormula job.formula (config.withSeed seed) fresh .silent with
  | .error fault => .error fault
  | .ok (.error e, _) => .ok (refused job seed e)
  | .ok (.ok report, _) => .ok (searched job seed report.result)

/-- Solves the jobs of the list, the first of which stands at `position`. -/
def solveFrom (config : SearchConfig) (fresh : Nat → Generator) :
    (position : Nat) → List BatchJob → Reporter → Except Fault (List BatchRecord × Reporter)
  | _, [], r => .ok ([], r)
  | position, job :: jobs, r =>
    match solveJob config (fresh position) position job with
    | .error fault => .error fault
    | .ok record =>
      match solveFrom config fresh (position + 1) jobs (r.report (.taskAdvance 1)) with
      | .error fault => .error fault
      | .ok (records, r) => .ok (record :: records, r)

/-- Solves all jobs in order. -/
def run (jobs : List BatchJob) (config : SearchConfig) (fresh : Nat → Generator) (r : Reporter) :
    Except Fault (List BatchRecord × Reporter) :=
  let r := (r.report (.phaseStart "Batch")).report (.taskStart jobs.length)
  match solveFrom config fresh 0 jobs r with
  | .error fault => .error fault
  | .ok (records, r) => .ok (records, (r.report .taskFinish).report .phaseFinish)

end Batch

end SatSearch
