import SatSearch.Decimal.Shortest
/-!
# Floats in text

Three written forms of a float. `plain` has the shortest digits and never an exponent, and whole
numbers have no point. `number` has the shortest digits, always a point or an exponent, and an
exponent where the plain digits would run long. `fixed` has a given number of places, an exact half
going to the even neighbour.
-/

namespace SatSearch

namespace Decimal

/-- A minus sign in front of a negative number. -/
def signed (negative : Bool) (text : String) : String := if negative then "-" ++ text else text

/-- Texts of the values that have no digits. -/
def nanText : String := "NaN"

def infinityText : String := "inf"

def zeros (n : Nat) : String := String.ofList (List.replicate n '0')

/-- The first `n` characters and the others. -/
def splitText (n : Nat) (text : String) : String × String :=
  (String.ofList (text.toList.take n), String.ofList (text.toList.drop n))

/-- The digits written out with a point where it belongs; `wholeEnd` follows a whole number. -/
def Scaled.positional (s : Scaled) (wholeEnd : String) : String :=
  let digits := toString s.digits
  let point := (digits.length : Int) + s.exponent
  if 0 ≤ s.exponent then digits ++ zeros s.exponent.toNat ++ wholeEnd
  else if 0 < point then
    let (whole, fraction) := splitText point.toNat digits
    whole ++ "." ++ fraction
  else "0." ++ zeros (-point).toNat ++ digits

/-- One digit, a point if more follow, and a signed power of ten. -/
def Scaled.exponential (s : Scaled) : String :=
  let digits := toString s.digits
  let power := (digits.length : Int) + s.exponent - 1
  let (first, others) := splitText 1 digits
  let fraction := if others.isEmpty then "" else "." ++ others
  let sign := if power < 0 then "-" else "+"
  first ++ fraction ++ "e" ++ sign ++ toString power.natAbs

/-- Shortest digits without an exponent: `0.1`, `100`, `-0`. -/
def plain (x : Float) : String :=
  match partsOf x with
  | .nan => nanText
  | .infinite negative => signed negative infinityText
  | .finite negative significand exponent =>
    signed negative ((shortest .up significand exponent).positional "")

/-- Shortest digits, with an exponent when the point lies more than 16 places right of the first
digit or more than 4 zeros left of it: `0.1`, `100.0`, `1e+16`, `1e-7`. -/
def number (x : Float) : String :=
  match partsOf x with
  | .nan => nanText
  | .infinite negative => signed negative infinityText
  | .finite negative significand exponent =>
    let s := shortest .toEven significand exponent
    let point := ((toString s.digits).length : Int) + s.exponent
    signed negative
      (if -5 < point ∧ point ≤ 16 then s.positional ".0" else s.exponential)

/-- `num / den` rounded to the nearest whole number, a half to the even one. -/
def roundHalfEven (num den : Nat) : Nat :=
  let lower := num / den
  let remainder := num % den
  if 2 * remainder < den then lower
  else if den < 2 * remainder then lower + 1
  else if lower % 2 = 0 then lower else lower + 1

/-- `n` in units of `10 ^ -places`, with all its places. -/
def placesText (places n : Nat) : String :=
  let digits := toString n
  let padded := zeros (places + 1 - digits.length) ++ digits
  if places = 0 then padded
  else
    let (whole, fraction) := splitText (padded.length - places) padded
    whole ++ "." ++ fraction

/-- The given number of places after the point: `0.500`, `-0.00`. -/
def fixed (places : Nat) (x : Float) : String :=
  match partsOf x with
  | .nan => nanText
  | .infinite negative => signed negative infinityText
  | .finite negative significand exponent =>
    let r := Ratio.ofPower (significand * Nat.pow 10 places) 2 exponent
    signed negative (placesText places (roundHalfEven r.num r.den))

end Decimal

end SatSearch
