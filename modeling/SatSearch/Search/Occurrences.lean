import SatSearch.Cnf.Formula
import SatSearch.Search.Config
/-!
# Occurrences of variables

For each variable the indices of the clauses in which it occurs, in clause order and once for every
literal, so a clause that repeats a variable is listed again.

Models `VariableIndex` with `build` and `clauses_of`.
-/

namespace SatSearch

structure Occurrences where
  lists : Array (Array Nat)
  deriving DecidableEq, Repr

namespace Occurrences

/-- The most variables that are supported, `2 ^ 26`. -/
def maxVariables : Nat := 67108864

/-- Adds clause `i` to the list of each literal's variable. -/
def addClause (lists : Array (Array Nat)) (i : Nat) (c : Clause) : Array (Array Nat) :=
  c.literals.foldl (fun lists l => lists.modify l.var (·.push i)) lists

/-- Adds the clauses of the list, the first of which has index `i`. -/
def addClauses : Array (Array Nat) → Nat → List Clause → Array (Array Nat)
  | lists, _, [] => lists
  | lists, i, c :: cs => addClauses (addClause lists i c) (i + 1) cs

/-- The occurrences in a formula. A formula without a literal is refused first, then one with too
many variables. -/
def build (f : Formula) : Except SearchError Occurrences :=
  if f.numLiterals = 0 then .error .emptyFormula
  else if maxVariables < f.numVars then .error (.tooManyVariables f.numVars maxVariables)
  else .ok ⟨addClauses (Array.replicate f.numVars #[]) 0 f.clauses.toList⟩

def numVars (o : Occurrences) : Nat := o.lists.size

def clausesOf (o : Occurrences) (var : Nat) : Except Fault (Array Nat) := entryAt o.lists var

end Occurrences

end SatSearch
