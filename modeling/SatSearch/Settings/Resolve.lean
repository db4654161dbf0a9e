import SatSearch.Cnf.Planted
import SatSearch.Settings.Override
/-!
# Resolving settings

Overrides win over flags, flags over the file, and the file over the defaults, each setting by
itself. Only the values that win are checked: first the ratio of clauses to variables, which must
be finite and positive, then those of the search.

Models `AppConfig` and `build_config`.
-/

namespace SatSearch

/-- The settings of one run. -/
structure AppConfig where
  search : SearchConfig
  clausesPerVar : Float

inductive SettingsError where
  | badOverride (e : OverrideError)
  | badRatio (ratio : Float)
  | badSearch (e : ConfigError)

def SettingsError.message : SettingsError → String
  | .badOverride e => e.message
  | .badRatio ratio => "clauses-per-var must be a positive number, got " ++ Decimal.plain ratio
  | .badSearch e => e.message

namespace AppConfig

def ratioIsValid (ratio : Float) : Bool := ratio.isFinite && 0.0 < ratio

/-- The settings of layers laid over one another. -/
def ofLayer (layer : Layer) : Except SettingsError AppConfig :=
  let ratio := layer.clausesPerVar.getD Planted.defaultRatio
  if ratioIsValid ratio then
    match SearchConfig.build layer.maxIterations layer.localRate layer.seed layer.recordTrace with
    | .ok search => .ok ⟨search, ratio⟩
    | .error e => .error (.badSearch e)
  else .error (.badRatio ratio)

/-- The settings of a run, from the overrides, the flags and the file. -/
def resolve (overrides : List String) (flags : Layer) (file : SettingsFile) :
    Except SettingsError AppConfig :=
  match Setting.parseAll overrides with
  | .error e => .error (.badOverride e)
  | .ok settings => ofLayer ((Layer.ofSettings settings).above (flags.above (.ofFile file)))

end AppConfig

end SatSearch
