import SatSearch.Command.Inputs
import SatSearch.Run.Json
/-!
# Solving one instance

The formula comes from a file or is a planted one. What the search found goes to a file or is
printed, and the trace goes to a file of its own when one is asked for.

Models `InstanceInfo`, `SolveOutput`, `load_instance` and the `run` of one instance.
-/

namespace SatSearch

/-- Where a formula came from, and its size. -/
inductive InstanceOrigin where
  | random (numVars numClauses : Nat)
  | file (path : String) (numClauses : Nat)

/-- What is told about a search. -/
structure SolveOutput where
  origin : InstanceOrigin
  bestValence : Float
  steps : Nat
  runtime : Float
  solved : Bool

open Json (Value)

def InstanceOrigin.toJson : InstanceOrigin → Value
  | .random numVars numClauses =>
    .ofMembers [("type", .ofText "random"), ("n", .ofNat numVars), ("m", .ofNat numClauses)]
  | .file path numClauses =>
    .ofMembers [("type", .ofText "dimacs"), ("path", .ofText path), ("m", .ofNat numClauses)]

namespace SolveOutput

def ofReport (origin : InstanceOrigin) (report : SolveReport) (seconds : Float) : SolveOutput :=
  { origin, bestValence := report.result.valence, steps := report.result.steps
    runtime := seconds, solved := report.result.isSolved }

def toJson (o : SolveOutput) : Value :=
  .ofMembers [("instance", o.origin.toJson), ("best_valence", .ofFloat o.bestValence),
    ("steps", .ofNat o.steps), ("runtime_sec", .ofFloat o.runtime), ("solved", .bool o.solved)]

end SolveOutput

/-- The text of a trace. -/
def traceText (trace : Array Float) : String := (Value.array (trace.toList.map .ofFloat)).text

namespace Work

variable {m : Type → Type} [Monad m] [Host m]

/-- Ends the work when a condition on the arguments holds. -/
def refuseIf (condition : Bool) (e : ArgumentError) : Work m Unit :=
  if condition then fail (.argument e) else pure ()

/-- A planted formula of the given size, or of the size that the settings' ratio gives. -/
def plantedFormula (config : AppConfig) (numVars : Nat) (numClauses : Option Nat)
    (fresh : Generator) : Work m Formula := do
  let numClauses := numClauses.getD (Planted.clauseCountFor numVars config.clausesPerVar)
  let answer ← draw (Planted.generate numVars (some numClauses)) (config.search.generator fresh)
  let planted ← orFail .generator answer
  pure planted.formula

/-- The formula to solve, and where it is from. -/
def formulaOf (args : SolveArgs) (config : AppConfig) (fresh : Generator) :
    Work m (Formula × InstanceOrigin) :=
  match args.random, args.file with
  | some numVars, _ => do
    let formula ← plantedFormula config numVars args.clauses fresh
    pure (formula, .random numVars formula.numClauses)
  | none, some path => do
    let formula ← formulaFile path
    pure (formula, .file path formula.numClauses)
  | none, none => fail (.argument .noInstance)

end Work

namespace SolveArgs

variable {m : Type → Type} [Monad m]

/-- Writes what was found, or prints it if no file is named for it. -/
def tellResult [Outlet m] (args : SolveArgs) (text : String) : Work m Unit :=
  match args.jsonOut with
  | some path => Work.write .document path text
  | none => Work.printLine text

/-- Writes the trace, if a file is named for it. -/
def tellTrace [Outlet m] (args : SolveArgs) (text : String) : Work m Unit :=
  match args.traceOut with
  | some path => Work.write .document path text
  | none => pure ()

/-- Tells about a search where the arguments want it. -/
def tell [Outlet m] (args : SolveArgs) (output : SolveOutput) (trace : Option (Array Float)) :
    Work m Unit := do
  args.tellResult output.toJson.indentedText
  args.tellTrace (traceText (trace.getD #[]))

/-- Solves one instance. -/
def work [Host m] [Outlet m] (args : SolveArgs) : Work m Unit := do
  Work.refuseIf (args.clauses.isSome && args.random.isNone) .clausesWithoutRandom
  let config ← Work.configure args.search none
  Work.refuseIf (args.traceOut.isSome && !config.search.recordTrace) .traceNotRecorded
  let fresh ← Work.ofHost Host.fresh
  let (formula, origin) ← Work.formulaOf args config (fresh 0)
  let ((outcome, _), seconds) ←
    Work.timed fun _ => solveFormula formula config.search (fresh 1) .silent
  let report ← Work.orFail .search outcome
  args.tell (.ofReport origin report seconds) report.result.trace

end SolveArgs

end SatSearch
