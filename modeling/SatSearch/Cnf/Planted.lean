import SatSearch.Cnf.Valence
import SatSearch.Random.Sample
/-!
# Planted instances

Random formulas with three literals to a clause that are satisfiable for sure: an assignment is
drawn first and hidden, and a drawn clause that it makes false has its first literal negated.

Models `PlantedInstance`, `clause_count_for` and `planted_3sat`.
-/

namespace SatSearch

/-- An assignment whose values are drawn one after another. -/
def Assignment.random (numVars : Nat) : Draw Assignment := do
  let _ ← reserve numVars 1
  Draw.ofGenerator fun g =>
    let (values, g) := g.bools numVars #[]
    (⟨values⟩, g)

namespace Planted

inductive Error where
  | tooFewVariables (numVars : Nat)
  deriving DecidableEq, Repr

def Error.message : Error → String
  | .tooFewVariables numVars => s!"A 3-SAT instance needs at least 3 variables, got {numVars}"

structure Instance where
  formula : Formula
  hidden : Assignment

/-- The number of literals in a clause, which is also the least number of variables. -/
def clauseWidth : Nat := 3

/-- The number of bytes that a clause takes in the table of clauses. -/
def clauseBytes : Nat := 24

/-- The usual number of clauses per variable, near which random instances are hardest. -/
def defaultRatio : Float := 4.3

/-- `ratio * numVars` cut to a whole number between 0 and `2 ^ 64 - 1`. -/
def clauseCountFor (numVars : Nat) (ratio : Float) : Nat :=
  (ratio * countAsFloat numVars).toUInt64.toNat

/-- The literals over the given variables with polarities drawn in order. -/
def drawPolarities : List Nat → Draw (List Literal)
  | [] => pure []
  | v :: vs => do
    let polarity ← Draw.bool
    let rest ← drawPolarities vs
    pure (⟨v, polarity⟩ :: rest)

/-- The clause with its first literal negated. -/
def negateFirst : Clause → Clause
  | ⟨[]⟩ => ⟨[]⟩
  | ⟨l :: ls⟩ => ⟨l.negated :: ls⟩

/-- A drawn clause that the hidden assignment satisfies. -/
def drawClause (hidden : Assignment) : Draw Clause := do
  let vars ← Draw.sample hidden.size clauseWidth
  let clause := Clause.mk (← drawPolarities vars)
  let satisfied ← clause.isSatisfiedBy hidden
  pure (if satisfied then clause else negateFirst clause)

/-- Appends `count` drawn clauses. -/
def drawClauses (hidden : Assignment) : (count : Nat) → Array Clause → Draw (Array Clause)
  | 0, clauses => pure clauses
  | count + 1, clauses => do
    let clause ← drawClause hidden
    drawClauses hidden count (clauses.push clause)

/-- An instance over `numVars` variables with the given number of clauses, or with the default ratio
of clauses to variables. -/
def generate (numVars : Nat) (numClauses : Option Nat) : Draw (Except Error Instance) := do
  if numVars < clauseWidth then
    pure (.error (.tooFewVariables numVars))
  else
    let numClauses := numClauses.getD (clauseCountFor numVars defaultRatio)
    let hidden ← Assignment.random numVars
    let _ ← reserve numClauses clauseBytes
    let clauses ← drawClauses hidden numClauses #[]
    pure (.ok ⟨.ofClauses clauses, hidden⟩)

end Planted

end SatSearch
