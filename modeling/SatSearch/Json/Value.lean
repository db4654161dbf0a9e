import SatSearch.Decimal.Printed
/-!
# JSON values

A value tree that keeps what a text says: numbers as they are spelled, members in order and with
repetitions. A string in which a surrogate stands alone is well formed but has no characters, so a
string is an optional one.
-/

namespace SatSearch

namespace Json

inductive Value where
  | null
  | bool (b : Bool)
  | number (spelling : List Char)
  | string (text : Option String)
  | array (items : List Value)
  | object (members : List (Option String × Value))

namespace Value

def ofText (s : String) : Value := .string (some s)

def ofNat (n : Nat) : Value := .number (toString n).toList

/-- A float; the infinities and the value that is no number have no spelling. -/
def ofFloat (x : Float) : Value :=
  match Decimal.partsOf x with
  | .finite .. => .number (Decimal.number x).toList
  | _ => .null

def ofOption {α : Type} (f : α → Value) : Option α → Value
  | some a => f a
  | none => .null

/-- An object with the given members. -/
def ofMembers (members : List (String × Value)) : Value :=
  .object (members.map fun m => (some m.1, m.2))

end Value

end Json

end SatSearch
