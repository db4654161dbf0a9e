import SatSearch.Cnf.Literal
/-!
# Clauses and formulas

A clause is a disjunction of literals and a formula a conjunction of clauses; both keep their order
and any repetition. A formula carries the number of its variables, one more than the largest that
occurs, with the proof that it is that number.

Evaluation looks at a clause's literals from left to right and stops at the first true one, so an
assignment that is too short is a fault only when a missing variable is looked at. `holds` says the
same in closed form for an assignment that reaches every variable.

Models `Clause` and `Formula` with `max_var`, `unsatisfied_clauses` and `count_satisfied`.
-/

namespace SatSearch

structure Clause where
  literals : List Literal
  deriving DecidableEq, Repr, Inhabited

namespace Clause

def length (c : Clause) : Nat := c.literals.length

def isEmpty (c : Clause) : Bool := c.literals.isEmpty

def maxVar? (c : Clause) : Option Nat := (c.literals.map Literal.var).max?

/-- The least number above every variable of the clause. -/
def varBound (c : Clause) : Nat := c.literals.foldl (fun n l => max n (l.var + 1)) 0

/-- Whether some literal of the list is true, looking no further than the first true one. -/
def anySatisfied (a : Assignment) : List Literal → Except Fault Bool
  | [] => .ok false
  | l :: ls => match l.isSatisfiedBy a with
    | .ok true => .ok true
    | .ok false => anySatisfied a ls
    | .error f => .error f

def isSatisfiedBy (c : Clause) (a : Assignment) : Except Fault Bool := anySatisfied a c.literals

/-- Whether some literal is true when variables beyond the assignment count as false. -/
def holds (c : Clause) (a : Assignment) : Bool := c.literals.any (·.holds a)

theorem anySatisfied_of_lt {a : Assignment} {ls : List Literal} (h : ∀ l ∈ ls, l.var < a.size) :
    anySatisfied a ls = .ok (ls.any (·.holds a)) := by
  induction ls with
  | nil => rfl
  | cons l ls ih =>
    have hl := h l (by simp)
    have hs := ih fun k hk => h k (by simp [hk])
    cases hb : l.holds a <;> simp [anySatisfied, Literal.isSatisfiedBy_of_lt hl, hb, hs]

theorem isSatisfiedBy_of_lt {c : Clause} {a : Assignment} (h : ∀ l ∈ c.literals, l.var < a.size) :
    c.isSatisfiedBy a = .ok (c.holds a) := anySatisfied_of_lt h

end Clause

/-- The least number above every variable of the clauses. -/
def varBound (clauses : Array Clause) : Nat := clauses.foldl (fun n c => max n c.varBound) 0

structure Formula where
  clauses : Array Clause
  numVars : Nat := varBound clauses
  numVars_eq : numVars = varBound clauses := by rfl
  deriving DecidableEq, Repr

namespace Formula

def ofClauses (clauses : Array Clause) : Formula := { clauses }

def empty : Formula := ofClauses #[]

instance : Inhabited Formula := ⟨empty⟩

def numClauses (f : Formula) : Nat := f.clauses.size

def numLiterals (f : Formula) : Nat := f.clauses.foldl (fun n c => n + c.length) 0

def isEmpty (f : Formula) : Bool := f.numClauses == 0

def clause (f : Formula) (i : Nat) : Except Fault Clause := entryAt f.clauses i

/-- Appends the indices, counted from `i`, of the clauses of the list that are not satisfied. -/
def unsatisfiedFrom (a : Assignment) : Nat → Array Nat → List Clause → Except Fault (Array Nat)
  | _, found, [] => .ok found
  | i, found, c :: cs => match c.isSatisfiedBy a with
    | .ok true => unsatisfiedFrom a (i + 1) found cs
    | .ok false => unsatisfiedFrom a (i + 1) (found.push i) cs
    | .error f => .error f

/-- The ascending indices of the clauses that the assignment does not satisfy. -/
def unsatisfiedClauses (f : Formula) (a : Assignment) : Except Fault (Array Nat) :=
  unsatisfiedFrom a 0 #[] f.clauses.toList

/-- Adds to `n` the number of clauses of the list that are satisfied. -/
def countFrom (a : Assignment) : Nat → List Clause → Except Fault Nat
  | n, [] => .ok n
  | n, c :: cs => match c.isSatisfiedBy a with
    | .ok true => countFrom a (n + 1) cs
    | .ok false => countFrom a n cs
    | .error f => .error f

/-- How many clauses the assignment satisfies. -/
def countSatisfied (f : Formula) (a : Assignment) : Except Fault Nat :=
  countFrom a 0 f.clauses.toList

/-- Whether the assignment makes every clause true. -/
def holds (f : Formula) (a : Assignment) : Bool := f.clauses.all (·.holds a)

end Formula

end SatSearch
