import SatSearch.Decimal.Reader
import SatSearch.Settings.Layer
/-!
# Overrides

An override is a text of the form `KEY=VALUE`. The key is all before the first equals sign and
must be one of five; the value must be one of the key's kind. Overrides are read in order, so the
first malformed one is reported, and of several with one key the last one counts.

Models `apply_set_values` and `parse_value`.
-/

namespace SatSearch

/-- The kinds of values that overrides take. -/
inductive ValueKind where
  | integer
  | float
  | boolean
  deriving DecidableEq, Repr

def ValueKind.name : ValueKind → String
  | .integer => "integer"
  | .float => "float"
  | .boolean => "boolean"

inductive OverrideError where
  | noValue (text : String)
  | unknownKey (key : String)
  | badValue (kind : ValueKind) (key value : String)
  deriving DecidableEq, Repr

def OverrideError.message : OverrideError → String
  | .noValue text => "Invalid --set format: '" ++ text ++ "'. Expected KEY=VALUE."
  | .unknownKey key => "Unsupported configuration key for --set: '" ++ key ++ "'"
  | .badValue kind key value => s!"Invalid {kind.name} value for {key}: {value}"

/-- A setting with its value. -/
inductive Setting where
  | maxIterations (n : Nat)
  | localRate (x : Float)
  | seed (s : UInt64)
  | recordTrace (b : Bool)
  | clausesPerVar (x : Float)

namespace Setting

/-- The texts before and after the first equals sign. -/
def splitPair? (text : String) : Option (String × String) :=
  let (key, rest) := text.toList.span (· != '=')
  match rest with
  | _ :: value => some (String.ofList key, String.ofList value)
  | [] => none

/-- The setting that a key and a value make. -/
def ofPair (key value : String) : Except OverrideError Setting :=
  let take {α : Type} (kind : ValueKind) (make : α → Setting) :
      Option α → Except OverrideError Setting
    | some a => .ok (make a)
    | none => .error (.badValue kind key value)
  if key = "search.max-iterations" then
    take .integer maxIterations (Numeral.count? value.toList)
  else if key = "search.p-local" then
    take .float localRate (Decimal.float? value.toList)
  else if key = "search.seed" then
    take .integer seed ((Numeral.count? value.toList).map UInt64.ofNat)
  else if key = "search.record-trace" then
    take .boolean recordTrace (Numeral.bool? value)
  else if key = "generator.clauses-per-var" then
    take .float clausesPerVar (Decimal.float? value.toList)
  else .error (.unknownKey key)

def parse (text : String) : Except OverrideError Setting :=
  match splitPair? text with
  | some (key, value) => ofPair key value
  | none => .error (.noValue text)

/-- The settings of all overrides, or the first that is malformed. -/
def parseAll : List String → Except OverrideError (List Setting)
  | [] => .ok []
  | text :: texts => match parse text with
    | .error e => .error e
    | .ok s => match parseAll texts with
      | .error e => .error e
      | .ok ss => .ok (s :: ss)

end Setting

/-- A layer of all settings. -/
structure Layer extends SearchLayer, GeneratorLayer

namespace Layer

/-- The layer with one more setting. -/
def put (layer : Layer) : Setting → Layer
  | .maxIterations n => { layer with maxIterations := some n }
  | .localRate x => { layer with localRate := some x }
  | .seed s => { layer with seed := some s }
  | .recordTrace b => { layer with recordTrace := some b }
  | .clausesPerVar x => { layer with clausesPerVar := some x }

/-- The layer of settings given one after another. -/
def ofSettings (settings : List Setting) : Layer := settings.foldl put {}

/-- The layer of a file. -/
def ofFile (file : SettingsFile) : Layer :=
  { toSearchLayer := file.search.getD {}, toGeneratorLayer := file.generator.getD {} }

/-- Each setting from the first of two layers that gives it. -/
def above (upper lower : Layer) : Layer :=
  { maxIterations := upper.maxIterations.or lower.maxIterations
    localRate := upper.localRate.or lower.localRate
    seed := upper.seed.or lower.seed
    recordTrace := upper.recordTrace.or lower.recordTrace
    clausesPerVar := upper.clausesPerVar.or lower.clausesPerVar }

end Layer

end SatSearch
