import SatSearch.Json.Printer
import SatSearch.Json.Reader
import SatSearch.Run.Batch
/-!
# Batch records as JSON

A record is an object with its fields in order. Reading takes the members in any order, or an
array of the fields; in an object a missing seed or error is none.
-/

namespace SatSearch

open Json (Value)

namespace BatchRecord

def fieldNames : List String :=
  ["name", "n", "m", "seed", "solved", "best_valence", "steps", "runtime_sec", "error"]

def toJson (r : BatchRecord) : Value :=
  .ofMembers (fieldNames.zip
    [.ofText r.name, .ofNat r.n, .ofNat r.m, .ofOption (fun s => .ofNat s.toNat) r.seed,
      .bool r.solved, .ofFloat r.bestValence, .ofNat r.steps, .ofFloat r.runtime,
      .ofOption .ofText r.error])

/-- A 64-bit word. -/
def word? (v : Value) : Option UInt64 := v.count?.map UInt64.ofNat

/-- The value of an optional field; a missing one is none. -/
def optional? {α : Type} (f : Value → Option α) : Option Value → Option (Option α)
  | none => some none
  | some v => v.option? f

def ofJson? (v : Value) : Option BatchRecord := do
  match ← v.fields? fieldNames with
  | [some name, some n, some m, seed, some solved, some bestValence, some steps, some runtime,
      error] =>
    some
      { name := ← name.text?
        n := ← n.count?
        m := ← m.count?
        seed := ← optional? word? seed
        solved := ← solved.bool?
        bestValence := ← bestValence.float?
        steps := ← steps.count?
        runtime := ← runtime.float?
        error := ← optional? Value.text? error }
  | _ => none

end BatchRecord

end SatSearch
