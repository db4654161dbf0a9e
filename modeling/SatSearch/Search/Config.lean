import SatSearch.Random.Stream
import SatSearch.Decimal.Printed
/-!
# Search settings

The budget of a search, the probability of a local move, the seed and whether a trace is kept.
`validate` is the only judge of them: the probability must lie in `[0, 1]`, and only then is the
budget looked at, which must be positive.

Models `SearchConfig` with `validate` and its builder, `ConfigError` and `EngineError`.
-/

namespace SatSearch

inductive ConfigError where
  | invalidLocalRate (rate : Float)
  | zeroIterations
  deriving Repr

def ConfigError.message : ConfigError → String
  | .invalidLocalRate rate => "p_local must lie in [0, 1], got " ++ Decimal.plain rate
  | .zeroIterations => "max_iterations must be positive"

structure SearchConfig where
  maxIterations : Nat := 100000
  localRate : Float := 0.5
  seed : Option UInt64 := none
  recordTrace : Bool := true
  deriving Repr, Inhabited

namespace SearchConfig

/-- Whether the rate is a probability; no comparison with a missing number holds. -/
def rateIsValid (rate : Float) : Bool := 0.0 ≤ rate && rate ≤ 1.0

def validate (c : SearchConfig) : Except ConfigError Unit :=
  if rateIsValid c.localRate then
    if c.maxIterations = 0 then .error .zeroIterations else .ok ()
  else .error (.invalidLocalRate c.localRate)

def withSeed (c : SearchConfig) (seed : Option UInt64) : SearchConfig := { c with seed }

/-- The seeded generator, or the given fresh one when there is no seed. -/
def generator (c : SearchConfig) (fresh : Generator) : Generator :=
  match c.seed with
  | some seed => .ofSeed seed
  | none => fresh

/-- The settings where given and the defaults elsewhere, validated. -/
def build (maxIterations : Option Nat) (localRate : Option Float) (seed : Option UInt64)
    (recordTrace : Option Bool) : Except ConfigError SearchConfig :=
  let defaults : SearchConfig := {}
  let config : SearchConfig :=
    { maxIterations := maxIterations.getD defaults.maxIterations
      localRate := localRate.getD defaults.localRate
      seed
      recordTrace := recordTrace.getD defaults.recordTrace }
  match config.validate with
  | .ok _ => .ok config
  | .error e => .error e

end SearchConfig

/-- Why a search does not start. -/
inductive SearchError where
  | emptyFormula
  | tooManyVariables (numVars limit : Nat)
  | invalidConfig (source : ConfigError)
  deriving Repr

def SearchError.message : SearchError → String
  | .emptyFormula => "Empty formula: at least one clause with at least one literal is required"
  | .tooManyVariables numVars limit =>
    s!"Formula declares {numVars} variables, more than the supported {limit}"
  | .invalidConfig source => "Invalid search configuration: " ++ source.message

end SatSearch
