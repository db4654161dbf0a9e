import SatSearch.Json.Value
import SatSearch.Cnf.Valence
import SatSearch.Text.Numeral
/-!
# Reading JSON

A reader for strict JSON: one value with nothing but blanks around it, no comments, no trailing
commas, no leading zeros. Each function takes the characters that are left and gives back a value
and what is left after it. The value reader counts down from the length of the text, which no
nesting can exceed.
-/

namespace SatSearch

namespace Json

export Numeral (hexValue?)

def isBlank (c : Char) : Bool := c == ' ' || c == '\t' || c == '\n' || c == '\r'

def skipBlanks (cs : List Char) : List Char := cs.dropWhile isBlank

/-- A code unit of four hexadecimal digits. -/
def codeUnit? : List Char → Option (Nat × List Char)
  | a :: b :: c :: d :: rest => do
    let a ← hexValue? a
    let b ← hexValue? b
    let c ← hexValue? c
    let d ← hexValue? d
    some (((a * 16 + b) * 16 + c) * 16 + d, rest)
  | _ => none

def isHighSurrogate (unit : Nat) : Bool := 0xd800 ≤ unit && unit < 0xdc00

def isLowSurrogate (unit : Nat) : Bool := 0xdc00 ≤ unit && unit < 0xe000

/-- The character of a pair of surrogates. -/
def joinSurrogates (high low : Nat) : Char :=
  Char.ofNat (0x10000 + (high - 0xd800) * 0x400 + (low - 0xdc00))

/-- What an escape stands for after its backslash: a character, or nothing for a surrogate that
has no partner. -/
def escaped? : List Char → Option (Option Char × List Char)
  | '"' :: rest => some (some '"', rest)
  | '\\' :: rest => some (some '\\', rest)
  | '/' :: rest => some (some '/', rest)
  | 'b' :: rest => some (some '\x08', rest)
  | 'f' :: rest => some (some '\x0c', rest)
  | 'n' :: rest => some (some '\n', rest)
  | 'r' :: rest => some (some '\r', rest)
  | 't' :: rest => some (some '\t', rest)
  | 'u' :: rest => do
    let (unit, rest) ← codeUnit? rest
    if isHighSurrogate unit then
      match rest with
      | '\\' :: 'u' :: more => do
        let (low, after) ← codeUnit? more
        if isLowSurrogate low then some (some (joinSurrogates unit low), after)
        else some (none, rest)
      | _ => some (none, rest)
    else if isLowSurrogate unit then some (none, rest)
    else some (some (Char.ofNat unit), rest)
  | _ => none

/-- The rest of a string after its opening quote, or after the characters `read` (last one first);
`whole` tells whether all of them were characters. -/
def stringFrom : (limit : Nat) → (whole : Bool) → (read : List Char) → List Char →
    Option (Option String × List Char)
  | 0, _, _, _ => none
  | limit + 1, whole, read, cs =>
    match cs with
    | [] => none
    | '"' :: rest => some (if whole then some (String.ofList read.reverse) else none, rest)
    | '\\' :: rest =>
      match escaped? rest with
      | none => none
      | some (some c, rest) => stringFrom limit whole (c :: read) rest
      | some (none, rest) => stringFrom limit false read rest
    | c :: rest => if c.toNat < 32 then none else stringFrom limit whole (c :: read) rest

/-- The rest of a string after its opening quote. -/
def string? (cs : List Char) : Option (Option String × List Char) :=
  stringFrom (cs.length + 1) true [] cs

/-- One or more digits. -/
def someDigits? (cs : List Char) : Option (List Char × List Char) :=
  let (digits, rest) := cs.span Char.isDigit
  if digits.isEmpty then none else some (digits, rest)

/-- Digits without a zero in front of others. -/
def wholePart? (cs : List Char) : Option (List Char × List Char) :=
  match someDigits? cs with
  | some ('0' :: _ :: _, _) => none
  | result => result

/-- A point and digits, if a point comes next. -/
def fractionPart? : List Char → Option (List Char × List Char)
  | '.' :: cs => (someDigits? cs).map fun (digits, rest) => ('.' :: digits, rest)
  | cs => some ([], cs)

/-- A sign, if one comes next. -/
def signPart : List Char → List Char × List Char
  | '+' :: cs => (['+'], cs)
  | '-' :: cs => (['-'], cs)
  | cs => ([], cs)

/-- A power of ten, if one comes next. -/
def exponentPart? (cs : List Char) : Option (List Char × List Char) :=
  match cs with
  | c :: rest =>
    if c = 'e' ∨ c = 'E' then
      let (sign, rest) := signPart rest
      (someDigits? rest).map fun (digits, rest) => (c :: sign ++ digits, rest)
    else some ([], cs)
  | [] => some ([], cs)

/-- The spelling of a number. -/
def number? (cs : List Char) : Option (List Char × List Char) := do
  let (minus, cs) := match cs with
    | '-' :: rest => (['-'], rest)
    | _ => ([], cs)
  let (whole, cs) ← wholePart? cs
  let (fraction, cs) ← fractionPart? cs
  let (exponent, cs) ← exponentPart? cs
  some (minus ++ whole ++ fraction ++ exponent, cs)

mutual

/-- A value, with blanks allowed in front of it. -/
def value? : (limit : Nat) → List Char → Option (Value × List Char)
  | 0, _ => none
  | limit + 1, cs =>
    match skipBlanks cs with
    | 'n' :: 'u' :: 'l' :: 'l' :: rest => some (.null, rest)
    | 't' :: 'r' :: 'u' :: 'e' :: rest => some (.bool true, rest)
    | 'f' :: 'a' :: 'l' :: 's' :: 'e' :: rest => some (.bool false, rest)
    | '"' :: rest => (string? rest).map fun (text, rest) => (.string text, rest)
    | '[' :: rest =>
      match skipBlanks rest with
      | ']' :: rest => some (.array [], rest)
      | rest => (items? limit rest).map fun (items, rest) => (.array items, rest)
    | '\x7b' :: rest =>
      match skipBlanks rest with
      | '\x7d' :: rest => some (.object [], rest)
      | rest => (members? limit rest).map fun (members, rest) => (.object members, rest)
    | cs => (number? cs).map fun (spelling, rest) => (.number spelling, rest)

/-- One or more items and the closing bracket. -/
def items? : (limit : Nat) → List Char → Option (List Value × List Char)
  | 0, _ => none
  | limit + 1, cs =>
    match value? limit cs with
    | none => none
    | some (v, rest) =>
      match skipBlanks rest with
      | ']' :: rest => some ([v], rest)
      | ',' :: rest => (items? limit rest).map fun (vs, rest) => (v :: vs, rest)
      | _ => none

/-- One or more members and the closing brace. -/
def members? : (limit : Nat) → List Char → Option (List (Option String × Value) × List Char)
  | 0, _ => none
  | limit + 1, cs =>
    match skipBlanks cs with
    | '"' :: rest =>
      match string? rest with
      | none => none
      | some (key, rest) =>
        match skipBlanks rest with
        | ':' :: rest =>
          match value? limit rest with
          | none => none
          | some (v, rest) =>
            match skipBlanks rest with
            | '\x7d' :: rest => some ([(key, v)], rest)
            | ',' :: rest => (members? limit rest).map fun (ms, rest) => ((key, v) :: ms, rest)
            | _ => none
        | _ => none
    | _ => none

end

/-- The value that a whole text stands for. -/
def parse? (text : String) : Option Value :=
  let cs := text.toList
  match value? (cs.length + 1) cs with
  | some (v, rest) => if (skipBlanks rest).isEmpty then some v else none
  | none => none

/-! ## What values mean -/

namespace Value

def bool? : Value → Option Bool
  | .bool b => some b
  | _ => none

def text? : Value → Option String
  | .string text => text
  | _ => none

def items? : Value → Option (List Value)
  | .array items => some items
  | _ => none

/-- A whole number below `2 ^ 64`, spelled with digits alone. -/
def count? : Value → Option Nat
  | .number spelling => (Numeral.digits? spelling).filter (· < Numeral.countLimit)
  | _ => none

/-- Takes digits into a number as long as it stays below `2 ^ 64`; gives it with the number of
digits taken and of digits left. -/
def takeDigits (n taken : Nat) : List Char → Nat × Nat × Nat
  | [] => (n, taken, 0)
  | c :: cs =>
    let next := n * 10 + (c.toNat - 48)
    if next < Numeral.countLimit then takeDigits next (taken + 1) cs
    else (n, taken, cs.length + 1)

/-- The largest power of ten in the table by which numbers are scaled. -/
def tableEnd : Nat := 308

/-- `10 ^ e` from the table. -/
def tablePower (e : Nat) : Float := Float.ofScientific 1 false e

/-- Divides by large powers of ten until the exponent, counted down from `0`, is in the table. -/
def scaleDown : (rounds : Nat) → Float → (exponent : Nat) → Float
  | 0, x, _ => x
  | rounds + 1, x, exponent =>
    if exponent ≤ tableEnd then x / tablePower exponent
    else if x == 0.0 then x
    else scaleDown rounds (x / tablePower tableEnd) (exponent - tableEnd)

/-- `significand * 10 ^ exponent`, computed in floats: the significand is rounded first, then
scaled. A number too large for a float is refused. -/
def scale? (significand : Nat) (exponent : Int) : Option Float :=
  let x := countAsFloat significand
  if 0 ≤ exponent then
    if exponent.toNat ≤ tableEnd then
      let y := x * tablePower exponent.toNat
      if y.isInf then none else some y
    else if x == 0.0 then some x
    else none
  else some (scaleDown ((-exponent).toNat + 1) x (-exponent).toNat)

/-- The largest exponent that is read; a larger one makes a number zero or too large. -/
def maxExponent : Nat := 2147483647

/-- The exponent at the end of a spelling. -/
def spelledExponent : List Char → Int
  | _ :: '-' :: digits => -((Numeral.digits? digits).getD 0 : Int)
  | _ :: '+' :: digits => (Numeral.digits? digits).getD 0
  | _ :: digits => (Numeral.digits? digits).getD 0
  | [] => 0

/-- The float of a spelling without its minus sign. -/
def magnitude? (spelling : List Char) : Option Float :=
  let (whole, rest) := spelling.span Char.isDigit
  let (fraction, rest) := match rest with
    | '.' :: rest => rest.span Char.isDigit
    | _ => ([], rest)
  let (n, _, left) := takeDigits 0 0 whole
  let (n, taken, _) := takeDigits n 0 fraction
  let exponent := spelledExponent rest
  if maxExponent < exponent.natAbs then
    if n ≠ 0 ∧ 0 < exponent then none else some 0.0
  else scale? n (left - taken + exponent)

/-- The float that a number stands for. -/
def float? : Value → Option Float
  | .number ('-' :: spelling) => (magnitude? spelling).map fun x => -x
  | .number spelling => magnitude? spelling
  | _ => none

/-- Nothing for `null`. -/
def option? {α : Type} (f : Value → Option α) : Value → Option (Option α)
  | .null => some none
  | v => (f v).map some

/-- The members with the given key. -/
def membersNamed (key : String) (members : List (Option String × Value)) : List Value :=
  members.filterMap fun (k, v) => if k = some key then some v else none

/-- The values for the given keys in order: from an object in which each stands at most once and
every key has characters, or from an array of just that length. A missing member is `none`. -/
def fields? (keys : List String) : Value → Option (List (Option Value))
  | .object members =>
    if members.all (·.1.isSome) then
      keys.mapM fun key => match membersNamed key members with
        | [] => some none
        | [v] => some (some v)
        | _ => none
    else none
  | .array items => if items.length = keys.length then some (items.map some) else none
  | _ => none

end Value

end Json

end SatSearch
