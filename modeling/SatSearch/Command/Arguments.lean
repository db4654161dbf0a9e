import SatSearch.Settings.Resolve
/-!
# Arguments of the commands

What a command line says once it has been read: options that hold for every command, and one of the
four commands with its own.

Models `Cli`, `Commands` and `level_filter`.
-/

namespace SatSearch

/-- The search settings that every solving command takes. -/
structure SearchArgs where
  config : Option String := none
  maxIterations : Option Nat := none
  localRate : Option Float := none
  seed : Option UInt64 := none
  noTrace : Bool := false
  overrides : List String := []

structure SolveArgs where
  file : Option String := none
  random : Option Nat := none
  clauses : Option Nat := none
  search : SearchArgs := {}
  jsonOut : Option String := none
  traceOut : Option String := none
  progress : Bool := false

structure BatchArgs where
  indir : String
  outfile : String
  search : SearchArgs := {}
  progress : Bool := false

structure SweepArgs where
  range : List Nat
  runs : Option Nat := none
  clausesPerVar : Option Float := none
  outfile : String
  search : SearchArgs := {}
  progress : Bool := false

structure AnalyseArgs where
  csv : String

inductive Command where
  | solve (args : SolveArgs)
  | batch (args : BatchArgs)
  | sweep (args : SweepArgs)
  | analyse (args : AnalyseArgs)

structure Invocation where
  verbosity : Nat
  quiet : Bool
  logFile : Option String
  threads : Option Nat
  command : Command

/-- The layer of the flags, with the ratio that only some commands have a flag for. -/
def SearchArgs.layer (args : SearchArgs) (clausesPerVar : Option Float) : Layer :=
  { maxIterations := args.maxIterations
    localRate := args.localRate
    seed := args.seed
    recordTrace := if args.noTrace then some false else none
    clausesPerVar }

/-- How much is logged. -/
inductive LogLevel where
  | off
  | warn
  | info
  | debug
  | trace
  deriving DecidableEq, Repr

def LogLevel.select (verbosity : Nat) (quiet : Bool) : LogLevel :=
  if quiet then .off
  else match verbosity with
    | 0 => .warn
    | 1 => .info
    | 2 => .debug
    | _ => .trace

end SatSearch
