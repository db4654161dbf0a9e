import SatSearch.Text.Numeral
/-!
# Reading floats

Decimal text is read as the nearest float: an optional sign, digits with an optional point among or
beside them, and an optional exponent; or a word for infinity or for no number, in any letter case.
-/

namespace SatSearch

namespace Decimal

/-- The digits that a text starts with, and the rest. -/
def spanDigits (cs : List Char) : List Char × List Char := cs.span Char.isDigit

/-- An exponent past which every number of so few digits is infinite or zero. -/
def exponentBound : Int := 400

/-- The float nearest to `digits * 10 ^ exponent`. -/
def nearest (digits : Nat) (exponent : Int) : Float :=
  let place := ((toString digits).length : Int) + exponent
  if digits = 0 ∨ place < -exponentBound then 0.0
  else if exponentBound < place then 1.0 / 0.0
  else if 0 ≤ exponent then Float.ofScientific digits false exponent.toNat
  else Float.ofScientific digits true (-exponent).toNat

/-- An exponent, or 0 where the text has ended. -/
def exponent? : List Char → Option Int
  | [] => some 0
  | c :: cs =>
    if c = 'e' ∨ c = 'E' then
      match cs with
      | '-' :: digits => (Numeral.digits? digits).map fun n => -(n : Int)
      | '+' :: digits => (Numeral.digits? digits).map fun n => (n : Int)
      | digits => (Numeral.digits? digits).map fun n => (n : Int)
    else none

/-- The sign bit of a 64-bit float. -/
def signBit : UInt64 := 0x8000000000000000

/-- The bits of infinity and of the value that is no number. -/
def infinityBits : UInt64 := 0x7ff0000000000000

def nanBits : UInt64 := 0x7ff8000000000000

/-- Digits with an optional point and an optional exponent. -/
def unsigned? (cs : List Char) : Option UInt64 :=
  let (whole, rest) := spanDigits cs
  let (fraction, rest) := match rest with
    | '.' :: rest => spanDigits rest
    | _ => ([], rest)
  if whole.isEmpty && fraction.isEmpty then none
  else do
    let digits ← Numeral.digits? (whole ++ fraction)
    let exponent ← exponent? rest
    some (nearest digits (exponent - fraction.length)).toBits

/-- The words for infinity and for no number. -/
def word? (cs : List Char) : Option UInt64 :=
  let word := String.ofList (cs.map Char.toLower)
  if word == "inf" || word == "infinity" then some infinityBits
  else if word == "nan" then some nanBits
  else none

/-- The bits of the float that a text stands for. A minus sign sets the sign bit whatever follows,
so that the bits tell more than the float where it is no number. -/
def bits? : List Char → Option UInt64
  | '-' :: cs => ((word? cs).or (unsigned? cs)).map (signBit ||| ·)
  | '+' :: cs => (word? cs).or (unsigned? cs)
  | cs => (word? cs).or (unsigned? cs)

/-- The float that a text stands for. -/
def float? (cs : List Char) : Option Float := (bits? cs).map Float.ofBits

end Decimal

end SatSearch
