import SatSearch.Fault
/-!
# Truth assignments

One truth value per variable, looked up by the variable's number. Reading or flipping a variable
beyond the last one is a fault. `differing` lists where two assignments disagree.

Models `Assignment` with `flip` and `differing_vars`.
-/

namespace SatSearch

structure Assignment where
  values : Array Bool
  deriving DecidableEq, Repr, Inhabited

namespace Assignment

def allFalse (numVars : Nat) : Assignment := ⟨Array.replicate numVars false⟩

def size (a : Assignment) : Nat := a.values.size

def isEmpty (a : Assignment) : Bool := a.size == 0

def toList (a : Assignment) : List Bool := a.values.toList

def value (a : Assignment) (var : Nat) : Except Fault Bool := entryAt a.values var

/-- The value of a variable when every variable beyond the last one counts as false. -/
def valueD (a : Assignment) (var : Nat) : Bool := a.values.getD var false

/-- The assignment with the value of `var` negated. -/
def flip (a : Assignment) (var : Nat) : Except Fault Assignment :=
  let ⟨values⟩ := a
  if h : var < values.size then
    let old := values[var]
    .ok ⟨values.set var (!old)⟩
  else
    .error (.outOfRange values.size var)

/-- Flips the listed variables one after another. -/
def flipAll : Assignment → List Nat → Except Fault Assignment
  | a, [] => .ok a
  | a, v :: vs => match a.flip v with
    | .ok b => b.flipAll vs
    | .error f => .error f

/-- The variables, in ascending order, on which two assignments disagree, as far as both reach. -/
def differing (a b : Assignment) : List Nat :=
  (List.range (min a.size b.size)).filter fun v => a.valueD v != b.valueD v

theorem value_of_lt {a : Assignment} {var : Nat} (h : var < a.size) :
    a.value var = .ok (a.valueD var) := by
  simp only [size] at h
  simp [value, entryAt, valueD, h]

theorem size_flip {a b : Assignment} {var : Nat} (h : a.flip var = .ok b) : b.size = a.size := by
  unfold flip at h
  dsimp only at h
  split at h
  · cases h; simp [size]
  · cases h

theorem mem_differing {a b : Assignment} {v : Nat} :
    v ∈ a.differing b ↔ v < a.size ∧ v < b.size ∧ a.valueD v ≠ b.valueD v := by
  simp only [differing, List.mem_filter, List.mem_range, Nat.lt_min, bne_iff_ne, ne_eq, and_assoc]

end Assignment

end SatSearch
