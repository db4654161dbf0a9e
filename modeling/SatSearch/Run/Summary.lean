import SatSearch.Run.Batch
/-!
# Summaries

Counts, means and extremes over the records of a batch that have no error. The mean of no records is
not defined, so a batch without such records has no summary.

Models `Spread`, `BatchSummary` with `solved_ratio`, and `summarize`.
-/

namespace SatSearch

structure Spread (α : Type) where
  mean : Float
  min : α
  max : α

structure BatchSummary where
  instances : Nat
  solved : Nat
  valence : Spread Float
  runtime : Spread Float
  steps : Spread Nat

def BatchSummary.solvedRatio (s : BatchSummary) : Float :=
  countAsFloat s.solved / countAsFloat s.instances

namespace Summary

/-- The lesser of two floats, the first of equal ones; one that is no number gives way. -/
def lesser (x y : Float) : Float := if x.isNaN || y < x then y else x

/-- The greater of two floats, the first of equal ones; one that is no number gives way. -/
def greater (x y : Float) : Float := if x.isNaN || x < y then y else x

/-- The sum from left to right. -/
def sum (xs : List Float) : Float := xs.foldl (· + ·) (-0.0)

def mean (xs : List Float) : Float := sum xs / countAsFloat xs.length

def floatSpread (xs : List Float) : Spread Float :=
  ⟨mean xs, xs.foldl lesser (1.0 / 0.0), xs.foldl greater (-1.0 / 0.0)⟩

/-- The extremes of an empty list are 0. -/
def countSpread (xs : List Nat) : Spread Nat :=
  ⟨mean (xs.map countAsFloat), xs.min?.getD 0, xs.max?.getD 0⟩

/-- The records that have no error. -/
def valid (records : List BatchRecord) : List BatchRecord := records.filter (·.error.isNone)

end Summary

open Summary in
/-- The summary of the records that have no error, if there are any. -/
def summarize (records : List BatchRecord) : Option BatchSummary :=
  let records := valid records
  if records.isEmpty then none
  else some
    { instances := records.length
      solved := records.countP (·.solved)
      valence := floatSpread (records.map (·.bestValence))
      runtime := floatSpread (records.map (·.runtime))
      steps := countSpread (records.map (·.steps)) }

end SatSearch
