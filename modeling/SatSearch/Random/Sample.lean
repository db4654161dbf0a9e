import Std.Data.HashSet
import SatSearch.Random.Draw
/-!
# Sampling without repetition

`Draw.sample n k` draws `k` different numbers below `n`, in an order that is random too. Three
methods give them, each the fastest for some sizes: shuffling the start of the full table, growing
the sample by one from ever larger ranges, and drawing until a number is new. Which one is used
is part of what a seed means, so the choice is fixed here, with its thresholds in single precision.
-/

namespace SatSearch

inductive SampleMethod where
  | shuffling
  | growing
  | redrawing
  deriving DecidableEq, Repr

/-- The method for `k` numbers below `n`. -/
def SampleMethod.select (n k : Nat) : SampleMethod :=
  let count := Float32.ofNat k
  let range := Float32.ofNat n
  if k < 163 then
    let slope : Float32 := if n < 500000 then 1.6 else 8.0 / 45.0
    let base : Float32 := if n < 500000 then 10.0 else 70.0 / 9.0
    if 11 < k && range < (base + slope * count) * count then shuffling else growing
  else
    let factor : Float32 := if n < 500000 then 270.0 else 330.0 / 9.0
    if range < factor * count then shuffling else redrawing

namespace Draw

/-- Swaps each of `count` entries, from place `i` on, with a drawn one that is not before it. -/
def shuffleStart : (count i : Nat) → Array Nat → Draw (Array Nat)
  | 0, _, table => pure table
  | count + 1, i, table => do
    let j ← below .narrow (table.size - i)
    shuffleStart count (i + 1) (table.swapIfInBounds i (i + j))

/-- Swaps each entry from place `i` down to place 1 with a drawn one that is not after it. -/
def shuffleDown : (i : Nat) → Array Nat → Draw (Array Nat)
  | 0, table => pure table
  | i + 1, table => do
    let j ← below .narrow (i + 2)
    shuffleDown i (table.swapIfInBounds (i + 1) j)

/-- Puts `new` in front of the first `old`. -/
def insertBefore (old new : Nat) (xs : List Nat) : List Nat :=
  xs.takeWhile (· != old) ++ new :: xs.dropWhile (· != old)

/-- Adds one number for each of the ranges that end at `j`, `j + 1`, …: the drawn one if it is new,
else the end of the range, which is. A short sample takes that end in front of the number that
was drawn again, a long one at its own end. -/
def grow (short : Bool) : (count j : Nat) → List Nat → Draw (List Nat)
  | 0, _, drawn => pure drawn
  | count + 1, j, drawn => do
    let t ← below .narrow (j + 1)
    let drawn :=
      if drawn.contains t then
        if short then insertBefore t j drawn else drawn ++ [j]
      else drawn ++ [t]
    grow short count (j + 1) drawn

/-- Draws numbers below `bound` until `count` more of them are new. -/
def redraw (size : WordSize) (bound : Nat) :
    (count : Nat) → Array Nat → Std.HashSet Nat → Draw (Array Nat)
  | 0, drawn, _ => pure drawn
  | count + 1, drawn, seen => do
    let t ← untilAccepted size fun word =>
      (scaled size bound (fullZone size bound) word).filter fun t => !seen.contains t
    redraw size bound count (drawn.push t) (seen.insert t)

/-- `k` different numbers below `n`. -/
def sample (n k : Nat) : Draw (List Nat) :=
  if maxNarrowRange < n then do
    pure (← redraw .wide n k #[] ∅).toList
  else
    match SampleMethod.select n k with
    | .shuffling => do
      let table ← shuffleStart k 0 (Array.range n)
      pure (table.toList.take k)
    | .growing =>
      if k < 50 then grow true k (n - k) []
      else do
        let drawn ← grow false k (n - k) []
        pure (← shuffleDown (k - 1) drawn.toArray).toList
    | .redrawing => do
      pure (← redraw .narrow n k #[] ∅).toList

end Draw

end SatSearch
