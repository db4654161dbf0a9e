import SatSearch.Cnf.Planted
import SatSearch.Search.UnsatSet
/-!
# Drifts

A drift moves an assignment and reports the variables that it flipped. The search trusts the report:
only clauses of reported variables are looked at again. The local drift flips a variable of a random
unsatisfied clause; the semantic drift flips a random set of variables, the larger the lower the
valence.

Models `LocalDrift`, and `SemanticDrift` with `flip_count`.
-/

namespace SatSearch

/-- From an assignment, a formula, its valence and the unsatisfied clauses, draws the next
assignment and the variables that were flipped. -/
def Drift := Assignment → Formula → Float → UnsatSet → Draw (Assignment × List Nat)

namespace Drift

/-- Flips the variable of a random literal of a random unsatisfied clause. -/
def toUnsatisfied : Drift := fun a f _ unsatisfied => do
  match ← unsatisfied.choose with
  | none => pure (a, [])
  | some i =>
    let clause ← f.clause i
    match ← Draw.choose clause.literals with
    | none => pure (a, [])
    | some l =>
      let flipped ← a.flip l.var
      pure (flipped, [l.var])

/-- The share of the variables that is flipped at valence 0. -/
def semanticRate : Float := 0.1

/-- A tenth of the variables, less the more clauses are satisfied, but at least one. -/
def flipCount (numVars : Nat) (valence : Float) : Nat :=
  let scaled := (countAsFloat numVars * (1.0 - valence) * semanticRate).toUInt64.toNat
  min (max scaled 1) numVars

/-- Flips a random set of variables. -/
def semantic : Drift := fun a _ valence _ =>
  if a.isEmpty then pure (a, [])
  else do
    let vars ← Draw.sample a.size (flipCount a.size valence)
    let flipped ← a.flipAll vars
    pure (flipped, vars)

end Drift

end SatSearch
