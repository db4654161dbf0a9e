import SatSearch.Cnf.Formula
import SatSearch.Json.Printer
import SatSearch.Json.Reader
/-!
# Formulas and assignments as JSON

A formula is the list of its clauses, a clause the list of its literals, and a literal an object
with its variable and polarity; an assignment is a list of truth values. The number of variables
is never written, and counted again when a formula is read.
-/

namespace SatSearch

open Json (Value)

def Literal.toJson (l : Literal) : Value :=
  .ofMembers [("var", .ofNat l.var), ("polarity", .bool l.polarity)]

/-- A literal from an object, or from an array of its variable and polarity. -/
def Literal.ofJson? (v : Value) : Option Literal := do
  match ← v.fields? ["var", "polarity"] with
  | [some var, some polarity] => some ⟨← var.count?, ← polarity.bool?⟩
  | _ => none

def Clause.toJson (c : Clause) : Value := .array (c.literals.map Literal.toJson)

def Clause.ofJson? (v : Value) : Option Clause := do
  some ⟨← (← v.items?).mapM Literal.ofJson?⟩

def Formula.toJson (f : Formula) : Value := .array (f.clauses.toList.map Clause.toJson)

def Formula.ofJson? (v : Value) : Option Formula := do
  let clauses ← (← v.items?).mapM Clause.ofJson?
  some (.ofClauses clauses.toArray)

def Assignment.toJson (a : Assignment) : Value := .array (a.toList.map .bool)

def Assignment.ofJson? (v : Value) : Option Assignment := do
  let values ← (← v.items?).mapM Value.bool?
  some ⟨values.toArray⟩

end SatSearch
