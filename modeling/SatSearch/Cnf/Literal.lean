import SatSearch.Cnf.Assignment
/-!
# Literals

A literal is a variable, numbered from 0, with a polarity. In text it is a signed number: the
variable counted from 1, negative for the negative literal, with 0 left free as the mark that ends
a clause. Numbers in text are signed 64-bit words, so a variable number is read as one of those.

Models `Literal` with `from_dimacs`, `to_dimacs`, `negated` and `is_satisfied_by`.
-/

namespace SatSearch

structure Literal where
  var : Nat
  polarity : Bool
  deriving DecidableEq, Repr, Inhabited

namespace Literal

/-- The signed 64-bit word with the bits of `n`. -/
def signedWord (n : Nat) : Int := Int.bmod n UInt64.size

/-- The literal that a signed number stands for; 0 stands for none. -/
def ofSigned? (x : Int) : Option Literal :=
  if x = 0 then none else some ⟨x.natAbs - 1, decide (0 < x)⟩

/-- The signed number of a literal, one-based and negative for the negative polarity. -/
def toSigned (l : Literal) : Int :=
  let magnitude := signedWord l.var + 1
  if l.polarity then magnitude else -magnitude

def negated (l : Literal) : Literal := ⟨l.var, !l.polarity⟩

/-- Whether the assignment makes the literal true; asking beyond the assignment is a fault. -/
def isSatisfiedBy (l : Literal) (a : Assignment) : Except Fault Bool :=
  match a.value l.var with
  | .ok b => .ok (b == l.polarity)
  | .error f => .error f

/-- Whether a literal is true when variables beyond the assignment count as false. -/
def holds (l : Literal) (a : Assignment) : Bool := a.valueD l.var == l.polarity

def text (l : Literal) : String := toString l.toSigned

/-- Literals are ordered by variable, the negative one before the positive one. -/
def le (l k : Literal) : Bool :=
  l.var < k.var || (l.var == k.var && (!l.polarity || k.polarity))

theorem isSatisfiedBy_of_lt {l : Literal} {a : Assignment} (h : l.var < a.size) :
    l.isSatisfiedBy a = .ok (l.holds a) := by
  simp [isSatisfiedBy, Assignment.value_of_lt h, holds]

theorem holds_negated (l : Literal) (a : Assignment) : l.negated.holds a = !l.holds a := by
  cases h : a.valueD l.var <;> cases hp : l.polarity <;> simp [holds, negated, h, hp]

end Literal

end SatSearch
