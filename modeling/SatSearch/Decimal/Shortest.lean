/-!
# Shortest decimal digits of a float

A finite float is `significand * 2 ^ exponent`, and it stands for every real number that rounds to
it. `shortest` gives the decimal number with the fewest digits among those, and of several with the
fewest digits the one nearest to the float; a tie between two goes as the caller says.
-/

namespace SatSearch

namespace Decimal

/-- A float taken apart: the finite value is `significand * 2 ^ exponent`. -/
inductive Parts where
  | nan
  | infinite (negative : Bool)
  | finite (negative : Bool) (significand : Nat) (exponent : Int)
  deriving DecidableEq, Repr

/-- The value of the bit for the sign, `2 ^ 63`. -/
def signValue : Nat := 9223372036854775808

/-- The value of the bit above the fraction, `2 ^ 52`: the least significand of a normal float. -/
def leadingValue : Nat := 4503599627370496

/-- The exponent field that infinities and missing numbers have. -/
def specialExponent : Nat := 2047

/-- The parts of a float, read off its bits. -/
def partsOf (x : Float) : Parts :=
  let bits := x.toBits.toNat
  let negative : Bool := signValue ≤ bits
  let biased : Nat := bits / leadingValue % (specialExponent + 1)
  let fraction : Nat := bits % leadingValue
  if biased = specialExponent then
    if fraction = 0 then .infinite negative else .nan
  else if biased = 0 then .finite negative fraction (-1074)
  else .finite negative (leadingValue + fraction) ((biased : Int) - 1075)

/-- Which of two equally near decimal numbers is taken. -/
inductive Tie where
  | toEven
  | up
  deriving DecidableEq, Repr

/-- A decimal number `digits * 10 ^ exponent`. -/
structure Scaled where
  digits : Nat
  exponent : Int
  deriving DecidableEq, Repr

/-- A number as a fraction `num / den`. -/
structure Ratio where
  num : Nat
  den : Nat
  deriving DecidableEq, Repr

/-- `n * base ^ e`. -/
def Ratio.ofPower (n base : Nat) (e : Int) : Ratio :=
  if 0 ≤ e then ⟨n * Nat.pow base e.toNat, 1⟩ else ⟨n, Nat.pow base (-e).toNat⟩

def Ratio.le (a b : Ratio) : Bool := a.num * b.den ≤ b.num * a.den

def Ratio.lt (a b : Ratio) : Bool := a.num * b.den < b.num * a.den

/-- The real numbers that round to a float: all between `low` and `high`, which count themselves
when `closed`. Below a power of two the floats lie twice as close. -/
structure Rounding where
  value : Ratio
  low : Ratio
  high : Ratio
  closed : Bool

def Rounding.ofFloat (significand : Nat) (exponent : Int) : Rounding :=
  let below := if significand = leadingValue ∧ -1074 < exponent then 1 else 2
  { value := .ofPower (4 * significand) 2 (exponent - 2)
    low := .ofPower (4 * significand - below) 2 (exponent - 2)
    high := .ofPower (4 * significand + 2) 2 (exponent - 2)
    closed := significand % 2 = 0 }

def Rounding.mem (r : Rounding) (x : Ratio) : Bool :=
  if r.closed then r.low.le x && x.le r.high else r.low.lt x && x.lt r.high

/-- The largest `e`, from `e` on and at most `tries` more, with `10 ^ e ≤ value`. -/
def raiseExponent (value : Ratio) : (tries : Nat) → (e : Int) → Int
  | 0, e => e
  | tries + 1, e =>
    if (Ratio.ofPower 1 10 (e + 1)).le value then raiseExponent value tries (e + 1) else e

/-- The place of the leading digit: the largest `e` with `10 ^ e ≤ significand * 2 ^ exponent`. -/
def leadingPlace (significand : Nat) (exponent : Int) : Int :=
  let guess := ((significand.log2 : Int) + exponent) * 30103 / 100000 - 1
  raiseExponent (.ofPower significand 2 exponent) 4 guess

/-- Of the two multiples of `10 ^ place` around the value, the one that rounds to the float; if both
do, the nearer one. -/
def neighbour? (r : Rounding) (tie : Tie) (place : Int) : Option Scaled :=
  let unit := Ratio.ofPower 1 10 place
  let num := r.value.num * unit.den
  let den := r.value.den * unit.num
  let lower := num / den
  let remainder := num % den
  let hit (n : Nat) : Bool := r.mem (.ofPower n 10 place)
  if remainder = 0 then some ⟨lower, place⟩
  else match hit lower, hit (lower + 1) with
    | false, false => none
    | true, false => some ⟨lower, place⟩
    | false, true => some ⟨lower + 1, place⟩
    | true, true =>
      if 2 * remainder < den then some ⟨lower, place⟩
      else if den < 2 * remainder then some ⟨lower + 1, place⟩
      else match tie with
        | .up => some ⟨lower + 1, place⟩
        | .toEven => if lower % 2 = 0 then some ⟨lower, place⟩ else some ⟨lower + 1, place⟩

/-- The first hit on ever finer grids; with 17 digits there always is one. -/
def firstHit (r : Rounding) (tie : Tie) : (grids : Nat) → (place : Int) → Scaled
  | 0, place => (neighbour? r tie place).getD ⟨0, 0⟩
  | grids + 1, place =>
    match neighbour? r tie place with
    | some hit => hit
    | none => firstHit r tie grids (place - 1)

/-- Moves the zeros at the end of the digits into the exponent. -/
def Scaled.strip : (limit : Nat) → Scaled → Scaled
  | 0, s => s
  | limit + 1, ⟨digits, exponent⟩ =>
    if digits ≠ 0 ∧ digits % 10 = 0 then strip limit ⟨digits / 10, exponent + 1⟩
    else ⟨digits, exponent⟩

/-- The shortest decimal number that rounds to `significand * 2 ^ exponent`. -/
def shortest (tie : Tie) (significand : Nat) (exponent : Int) : Scaled :=
  if significand = 0 then ⟨0, 0⟩
  else
    (firstHit (.ofFloat significand exponent) tie 17 (leadingPlace significand exponent)).strip 18

end Decimal

end SatSearch
