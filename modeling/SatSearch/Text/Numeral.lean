/-!
# Numbers and truth values in text

A numeral is one or more ASCII digits, with an optional sign in front where the reader takes one.
Readers refuse numbers that do not fit their range.
-/

namespace SatSearch

namespace Numeral

/-- The number that digits stand for after digits that stand for `n`, or nothing if some character
is no digit. -/
def digitsFrom : (n : Nat) → List Char → Option Nat
  | n, [] => some n
  | n, c :: cs => if c.isDigit then digitsFrom (n * 10 + (c.toNat - 48)) cs else none

/-- The number that one or more digits stand for. -/
def digits? : List Char → Option Nat
  | [] => none
  | cs => digitsFrom 0 cs

/-- One more than the largest 64-bit count, `2 ^ 64`. -/
def countLimit : Nat := 18446744073709551616

/-- One more than the largest signed 64-bit number, `2 ^ 63`. -/
def signedLimit : Nat := 9223372036854775808

/-- Digits with an optional plus sign, below `2 ^ 64`. -/
def count? (cs : List Char) : Option Nat :=
  let digits := match cs with
    | '+' :: rest => rest
    | _ => cs
  (digits? digits).filter (· < countLimit)

/-- Digits with an optional sign, in the range of signed 64-bit words. -/
def signed? : List Char → Option Int
  | '-' :: cs => (digits? cs).bind fun n => if n ≤ signedLimit then some (-n) else none
  | '+' :: cs => (digits? cs).bind fun n => if n < signedLimit then some n else none
  | cs => (digits? cs).bind fun n => if n < signedLimit then some n else none

/-- The value of a hexadecimal digit of either case. -/
def hexValue? (c : Char) : Option Nat :=
  if '0' ≤ c ∧ c ≤ '9' then some (c.toNat - 48)
  else if 'a' ≤ c ∧ c ≤ 'f' then some (c.toNat - 87)
  else if 'A' ≤ c ∧ c ≤ 'F' then some (c.toNat - 55)
  else none

/-- A truth value, written out in small letters. -/
def bool? (text : String) : Option Bool :=
  if text = "true" then some true else if text = "false" then some false else none

end Numeral

end SatSearch
