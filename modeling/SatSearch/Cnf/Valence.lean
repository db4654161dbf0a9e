import SatSearch.Cnf.Formula
/-!
# Valence

The score that a search climbs: the share of clauses that an assignment satisfies. A formula
without clauses scores 0.

Models `Objective` and `valence`.
-/

namespace SatSearch

/-- A count as a float, rounded to the nearest one. -/
def countAsFloat (n : Nat) : Float := Float.ofNat n

/-- A score for an assignment of a formula's variables. -/
def Objective := Formula → Assignment → Except Fault Float

namespace Objective

/-- The share of satisfied clauses. -/
def valence : Objective := fun f a =>
  if f.isEmpty then .ok 0.0
  else match f.countSatisfied a with
    | .ok n => .ok (countAsFloat n / countAsFloat f.numClauses)
    | .error e => .error e

/-- The objective given by a function that answers for every assignment. -/
def ofScore (score : Formula → Assignment → Float) : Objective := fun f a => .ok (score f a)

end Objective

end SatSearch
