import SatSearch.Command.Solve
import SatSearch.Run.Report
/-!
# Commands on tables of results

Batch and sweep solve many formulas, then make the file for a table of what was found, print a line
for each run and write the table; analyse reads such a table. The files of a batch are taken in the
order of their names, so that the order in which a directory lists them does not matter.

Models the three `run`s on tables, `collect_cnf_files`, `load_job` and `read_rows`.
-/

namespace SatSearch

namespace Work

variable {m : Type → Type} [Monad m] [Host m]

/-- Solves jobs one after another, the first of which stands at `position`, and takes their times.
-/
def solveJobs (config : SearchConfig) (fresh : Nat → Generator) :
    (position : Nat) → List BatchJob → Work m (List BatchRecord)
  | _, [] => pure []
  | position, job :: jobs => do
    let (record, seconds) ← timed fun _ => Batch.solveJob config (fresh position) position job
    let records ← solveJobs config fresh (position + 1) jobs
    pure (record.withRuntime seconds :: records)

/-- What is told of a run: a line that is printed and, if it was searched, a row of the table. -/
structure Told where
  line : String
  row : Option Fields

/-- Prints the lines of runs one after another. The rows are kept back, behind those that were kept
before, and written when there are no more runs. -/
def tellRuns [Outlet m] (path : String) (columns : List String) :
    (rows : List Fields) → List Told → Work m Unit
  | rows, [] => append .table path (tableText columns rows)
  | rows, run :: runs => do
    printLine run.line
    tellRuns path columns (rows ++ run.row.toList) runs

/-- Makes the file for a table and tells of the runs. -/
def tellTable [Outlet m] (path : String) (columns : List String) (runs : List Told) : Work m Unit := do
  create .table path
  tellRuns path columns [] runs

end Work

/-- The part of a printed line that tells how a search ended. -/
def outcomeText (r : BatchRecord) : String :=
  "solved=" ++ boolText r.solved ++ " valence=" ++ Decimal.fixed 3 r.bestValence ++
    " steps=" ++ toString r.steps ++ " time=" ++ Decimal.fixed 2 r.runtime ++ "s"

def skippedText (reason : String) : String := "skipped (" ++ reason ++ ")"

/-! ## Batch -/

namespace BatchArgs

/-- The ending of the names of DIMACS files. -/
def extension : List Char := ".cnf".toList

/-- Whether a file is taken into a batch: its name has something before the ending. -/
def isTaken (name : String) : Bool :=
  extension.isSuffixOf name.toList && extension.length < name.toList.length

/-- The names of the files in a batch, in order. -/
def chosen (names : List String) : List String :=
  (names.filter isTaken).mergeSort fun a b => a ≤ b

/-- The path of a file in a directory. -/
def pathIn (directory name : String) : String :=
  if directory.endsWith "/" then directory ++ name else directory ++ "/" ++ name

/-- The printed line of a record. -/
def line (r : BatchRecord) : String :=
  r.name ++ ": " ++ match r.error with
    | some reason => skippedText reason
    | none => outcomeText r

/-- Records in the order of their names. -/
def byName (records : List BatchRecord) : List BatchRecord :=
  records.mergeSort fun r s => r.name ≤ s.name

/-- What is told of a record. -/
def told (r : BatchRecord) : Work.Told where
  line := line r
  row := if r.error.isNone then some (BatchTable.fields r) else none

variable {m : Type → Type} [Monad m] [Host m]

/-- The names of a batch's files. -/
def fileNames (indir : String) : Work m (List String) := do
  let isDirectory ← Work.ofHost (Host.isDirectory indir)
  Work.refuseIf (!isDirectory) (.noSuchDirectory indir)
  let answer ← Work.ofHost (Host.listFiles indir)
  let names ← Work.orFail .file answer
  pure (chosen names)

/-- The jobs of files. -/
def jobsOf (indir : String) : (names : List String) → Work m (List BatchJob)
  | [] => pure []
  | name :: names => do
    let formula ← Work.formulaFile (pathIn indir name)
    let jobs ← jobsOf indir names
    pure (⟨name, formula, none⟩ :: jobs)

/-- Solves the files of a directory. -/
def work [Outlet m] (args : BatchArgs) : Work m Unit := do
  let config ← Work.configure args.search none
  let names ← fileNames args.indir
  let jobs ← jobsOf args.indir names
  let fresh ← Work.ofHost Host.fresh
  let records ← Work.solveJobs config.search fresh 0 jobs
  Work.tellTable args.outfile BatchTable.columns ((byName records).map told)

end BatchArgs

/-! ## Sweep -/

namespace SweepArgs

/-- The printed line of a run. -/
def line (p : SweepPoint) (r : BatchRecord) : String :=
  match r.error with
  | some reason =>
    "n=" ++ toString p.n ++ " seed=" ++ toString p.seed.toNat ++ ": " ++ skippedText reason
  | none =>
    "n=" ++ toString p.n ++ " m=" ++ toString r.m ++ " seed=" ++ toString p.seed.toNat ++ " " ++
      outcomeText r

/-- What is told of a run. -/
def told (run : SweepPoint × BatchRecord) : Work.Told where
  line := line run.1 run.2
  row := if run.2.error.isNone then some (SweepTable.fields run.1 run.2) else none

variable {m : Type → Type} [Monad m] [Host m]

/-- The jobs of runs. -/
def jobsOf (ratio : Float) : List SweepPoint → Work m (List BatchJob)
  | [] => pure []
  | p :: ps => do
    let answer ← Work.orFault (p.job ratio)
    let job ← Work.orFail .generator answer
    let jobs ← jobsOf ratio ps
    pure (job :: jobs)

/-- Solves planted instances of many sizes. -/
def work [Outlet m] (args : SweepArgs) : Work m Unit := do
  let config ← Work.configure args.search args.clausesPerVar
  let fresh ← Work.ofHost Host.fresh
  let answer ← Work.draw (SweepPlan.plan args.range (args.runs.getD SweepPlan.defaultRuns))
    (config.search.generator (fresh 0))
  let points ← Work.orFail (fun e => .argument (.badSweep e)) answer
  let jobs ← jobsOf config.clausesPerVar points
  let records ← Work.solveJobs config.search fresh 0 jobs
  Work.tellTable args.outfile SweepTable.columns ((points.zip records).map told)

end SweepArgs

/-! ## Analyse -/

namespace AnalyseArgs

variable {m : Type → Type} [Monad m] [Host m]

/-- The bytes of a table. A directory counts as a table without rows. -/
def tableBytes (path : String) : Work m (List UInt8) := do
  let answer ← Work.ofHost (Host.contents path)
  match answer with
  | .ok bytes => pure bytes.toList
  | .error .isDirectory => pure []
  | .error e => Work.fail (.table e)

/-- Prints the report on a table. -/
def work [Outlet m] (args : AnalyseArgs) : Work m Unit := do
  let bytes ← tableBytes args.csv
  match ResultRow.readAll? bytes with
  | none => Work.fail (.unreadable args.csv .table)
  | some rows => match Report.render? rows with
    | none => Work.fail (.argument .noRows)
    | some text => Work.print text

end AnalyseArgs

end SatSearch
