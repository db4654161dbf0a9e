import SatSearch.Fault
import SatSearch.Random.Stream
/-!
# Draws

A draw takes a generator and gives a value and the generator that is left. A number below a bound is
drawn by multiplying a word with the bound and keeping the high half, unless the low half falls
outside the zone in which every number is equally likely; then another word is drawn.

The words of a generator repeat after `2 ^ 64` blocks of 16 words. A draw that meets no accepted
word in that many tries would never meet one, and that is the only way in which it fails.
-/

namespace SatSearch

abbrev Draw := StateT Generator (Except Fault)

/-- Whether a draw takes words of 32 or of 64 bits. -/
inductive WordSize where
  | narrow
  | wide
  deriving DecidableEq, Repr

namespace WordSize

def bits : WordSize → Nat
  | narrow => 32
  | wide => 64

/-- One more than the largest word, `2 ^ 32` or `2 ^ 64`. -/
def modulus : WordSize → Nat
  | narrow => 4294967296
  | wide => 18446744073709551616

def next : WordSize → Generator → Nat × Generator
  | narrow, g => let (word, g) := g.next; (word.toNat, g)
  | wide, g => let (word, g) := g.next64; (word.toNat, g)

end WordSize

namespace Draw

/-- The draw that gives `f`'s answer and always succeeds. -/
def ofGenerator {α : Type} (f : Generator → α × Generator) : Draw α := fun g => .ok (f g)

/-- A truth value. -/
def bool : Draw Bool := ofGenerator Generator.nextBool

/-- A float in `[0, 1)`. -/
def unit : Draw Float := ofGenerator Generator.nextUnit

/-- The answer of `accept` to the first word that it accepts, within the given number of words. -/
def firstAccepted {α : Type} (size : WordSize) (accept : Nat → Option α) : Nat → Draw α
  | 0, _ => .error .endlessDraw
  | tries + 1, g =>
    let (word, g) := size.next g
    match accept word with
    | some a => .ok (a, g)
    | none => firstAccepted size accept tries g

/-- The number of words after which a generator starts over, `2 ^ 68`. -/
def period : Nat := 295147905179352825856

/-- The answer of `accept` to the first word that it accepts. -/
def untilAccepted {α : Type} (size : WordSize) (accept : Nat → Option α) : Draw α :=
  firstAccepted size accept period

/-- The high half of `word * bound`, if the low half lies in the zone that ends at `zone`. -/
def scaled (size : WordSize) (bound zone word : Nat) : Option Nat :=
  let product := word * bound
  if product % size.modulus ≤ zone then some (product / size.modulus) else none

/-- The zone of a bound that is drawn from once: the bound shifted up as far as it goes. -/
def shiftedZone (size : WordSize) (bound : Nat) : Nat :=
  (bound <<< (size.bits - (bound.log2 + 1))) - 1

/-- The zone of a bound that is drawn from again and again: as wide as it can be. -/
def fullZone (size : WordSize) (bound : Nat) : Nat :=
  size.modulus - 1 - (size.modulus - bound) % bound

/-- A number below `bound`. -/
def below (size : WordSize) (bound : Nat) : Draw Nat :=
  untilAccepted size (scaled size bound (shiftedZone size bound))

/-- The largest range whose numbers are drawn from single words. -/
def maxNarrowRange : Nat := 4294967295

/-- An index into a list of the given length. -/
def index (length : Nat) : Draw Nat :=
  below (if length ≤ maxNarrowRange then .narrow else .wide) length

/-- An entry of the list, or nothing, without drawing, when it is empty. -/
def choose {α : Type} (xs : List α) : Draw (Option α) :=
  if xs.isEmpty then pure none
  else do
    let i ← index xs.length
    match xs[i]? with
    | some x => pure (some x)
    | none => throw (.outOfRange xs.length i)

theorem scaled_lt {size : WordSize} {bound zone word n : Nat} (hb : 0 < bound)
    (hw : word < size.modulus) (h : scaled size bound zone word = some n) : n < bound := by
  unfold scaled at h
  dsimp only at h
  split at h
  · cases h
    exact Nat.div_lt_of_lt_mul (Nat.mul_lt_mul_of_pos_right hw hb)
  · cases h

theorem firstAccepted_eq_ok {α : Type} {size : WordSize} {accept : Nat → Option α} {tries : Nat}
    {g g' : Generator} {a : α} (h : firstAccepted size accept tries g = .ok (a, g')) :
    ∃ g₀, accept (size.next g₀).1 = some a ∧ (size.next g₀).2 = g' := by
  induction tries generalizing g with
  | zero => cases h
  | succ tries ih =>
    unfold firstAccepted at h
    dsimp only at h
    split at h
    · next a' ha =>
      cases h
      exact ⟨g, ha, rfl⟩
    · exact ih h

end Draw

end SatSearch
