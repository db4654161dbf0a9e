import SatSearch.Search.Config
import SatSearch.Toml.Reader
/-!
# Layers of settings

A layer gives values to some of the settings and leaves the others open. A settings file is one
layer, in two sections that may each be missing. Its keys are fixed: a file that sets anything
else is refused, and so is one that gives a value of another kind.

Models `FileConfig` with `from_toml`, `FileSearchConfig` and `FileGeneratorConfig`.
-/

namespace SatSearch

structure SearchLayer where
  maxIterations : Option Nat := none
  localRate : Option Float := none
  seed : Option UInt64 := none
  recordTrace : Option Bool := none

structure GeneratorLayer where
  clausesPerVar : Option Float := none

/-- A settings file. -/
structure SettingsFile where
  search : Option SearchLayer := none
  generator : Option GeneratorLayer := none

namespace SettingsFile

open Toml (Value)

/-! ## Values -/

def count? : Value → Option Nat
  | .integer n => if 0 ≤ n ∧ n < Numeral.countLimit then some n.toNat else none
  | _ => none

def word? (v : Value) : Option UInt64 := (count? v).map UInt64.ofNat

/-- A float, or a whole number that fits a 64-bit word with or without a sign. -/
def float? : Value → Option Float
  | .float x => some x
  | .integer n =>
    if 0 ≤ n ∧ n < Numeral.countLimit then some (Float.ofNat n.toNat)
    else if n < 0 ∧ -(Numeral.signedLimit : Int) ≤ n then some (-Float.ofNat n.natAbs)
    else none
  | _ => none

def bool? : Value → Option Bool
  | .bool b => some b
  | _ => none

/-! ## Sections -/

/-- The values for the given keys in order: from a table that has no other keys, or from an array
that has an item for each of them. -/
def fields? (keys : List String) : Value → Option (List (Option Value))
  | .table entries =>
    if entries.all (keys.contains ·.1) then some (keys.map fun key => entries.lookup key) else none
  | .array items =>
    if keys.length ≤ items.length then some ((items.take keys.length).map some) else none
  | _ => none

/-- Reads a value that may be missing. -/
def optional? {α : Type} (f : Value → Option α) : Option Value → Option (Option α)
  | none => some none
  | some v => (f v).map some

def searchKeys : List String := ["max-iterations", "p-local", "seed", "record-trace"]

def search? (v : Value) : Option SearchLayer := do
  match ← fields? searchKeys v with
  | [maxIterations, localRate, seed, recordTrace] =>
    some
      { maxIterations := ← optional? count? maxIterations
        localRate := ← optional? float? localRate
        seed := ← optional? word? seed
        recordTrace := ← optional? bool? recordTrace }
  | _ => none

def generatorKeys : List String := ["clauses-per-var"]

def generator? (v : Value) : Option GeneratorLayer := do
  match ← fields? generatorKeys v with
  | [clausesPerVar] => some { clausesPerVar := ← optional? float? clausesPerVar }
  | _ => none

def sections : List String := ["search", "generator"]

/-- The settings in a text. -/
def parse? (text : String) : Option SettingsFile := do
  match ← fields? sections (.table (← Toml.parse? text)) with
  | [search, generator] =>
    some { search := ← optional? search? search, generator := ← optional? generator? generator }
  | _ => none

end SettingsFile

end SatSearch
