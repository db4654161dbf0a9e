import SatSearch.Decimal.Reader
import SatSearch.Json.Reader
import SatSearch.Toml.Table
/-!
# Reading TOML

A reader for the part of TOML in which settings are written: headers, dotted and quoted keys, whole
numbers in four bases, floats, truth values, strings on one line, arrays and inline tables. Dates,
strings that run over several lines and arrays of tables, which no setting takes, are refused.

Each function takes the characters that are left and gives back what was read and what is left after
it.
-/

namespace SatSearch

namespace Toml

/-! ## Blanks, comments and line ends -/

def isBlank (c : Char) : Bool := c == ' ' || c == '\t'

def skipBlanks (cs : List Char) : List Char := cs.dropWhile isBlank

/-- Whether a character may stand in a comment or between quotes. -/
def isPrintable (c : Char) : Bool := c == '\t' || (32 ≤ c.toNat && c.toNat != 127)

/-- What follows a comment, if one comes next; its line end is left. -/
def skipComment? : List Char → Option (List Char)
  | '#' :: cs =>
    match cs.dropWhile isPrintable with
    | [] => some []
    | '\n' :: rest => some ('\n' :: rest)
    | '\r' :: '\n' :: rest => some ('\n' :: rest)
    | _ => none
  | cs => some cs

/-- What follows a line end, if one comes next. -/
def newline? : List Char → Option (List Char)
  | '\n' :: rest => some rest
  | '\r' :: '\n' :: rest => some rest
  | _ => none

/-- What follows the rest of a line on which nothing more stands but a comment. -/
def lineEnd? (cs : List Char) : Option (List Char) := do
  match ← skipComment? (skipBlanks cs) with
  | [] => some []
  | cs => newline? cs

/-- Skips blanks, comments and line ends. -/
def skipLines? : (limit : Nat) → List Char → Option (List Char)
  | 0, _ => none
  | limit + 1, cs => do
    let cs ← skipComment? (skipBlanks cs)
    match newline? cs with
    | some rest => skipLines? limit rest
    | none => some cs

/-! ## Keys and strings -/

def isKeyChar (c : Char) : Bool := c.isAlphanum || c == '-' || c == '_'

/-- The character with a hexadecimal code of the given number of digits. -/
def coded? (digits : Nat) (cs : List Char) : Option (Char × List Char) := do
  let code ← (cs.take digits).foldlM (fun n c => (n * 16 + ·) <$> Numeral.hexValue? c) 0
  if (cs.take digits).length = digits ∧ code.isValidChar then some (Char.ofNat code, cs.drop digits)
  else none

/-- What an escape stands for after its backslash. -/
def escaped? : List Char → Option (Char × List Char)
  | 'b' :: rest => some ('\x08', rest)
  | 't' :: rest => some ('\t', rest)
  | 'n' :: rest => some ('\n', rest)
  | 'f' :: rest => some ('\x0c', rest)
  | 'r' :: rest => some ('\r', rest)
  | 'e' :: rest => some ('\x1b', rest)
  | '"' :: rest => some ('"', rest)
  | '\\' :: rest => some ('\\', rest)
  | 'x' :: rest => coded? 2 rest
  | 'u' :: rest => coded? 4 rest
  | 'U' :: rest => coded? 8 rest
  | _ => none

/-- The rest of a string after its opening quote, or after the characters `read`, last one first. -/
def quoted? : (limit : Nat) → (read : List Char) → List Char → Option (String × List Char)
  | 0, _, _ => none
  | limit + 1, read, cs => match cs with
    | [] => none
    | '"' :: rest => some (String.ofList read.reverse, rest)
    | '\\' :: rest => match escaped? rest with
      | some (c, rest) => quoted? limit (c :: read) rest
      | none => none
    | c :: rest => if isPrintable c then quoted? limit (c :: read) rest else none

/-- The rest of a string without escapes after its opening quote. -/
def verbatim? (cs : List Char) : Option (String × List Char) :=
  let (read, rest) := cs.span fun c => isPrintable c && c != '\''
  match rest with
  | '\'' :: rest => some (String.ofList read, rest)
  | _ => none

/-- A string between quotes of either kind. -/
def string? : List Char → Option (String × List Char)
  | '"' :: rest => quoted? (rest.length + 1) [] rest
  | '\'' :: rest => verbatim? rest
  | _ => none

/-- One key. -/
def key? (cs : List Char) : Option (String × List Char) :=
  match cs with
  | c :: _ =>
    if isKeyChar c then
      let (key, rest) := cs.span isKeyChar
      some (String.ofList key, rest)
    else string? cs
  | [] => none

/-- Keys with points between them, and blanks around each. -/
def path? : (limit : Nat) → List Char → Option (List String × List Char)
  | 0, _ => none
  | limit + 1, cs => do
    let (key, rest) ← key? (skipBlanks cs)
    match skipBlanks rest with
    | '.' :: rest => (path? limit rest).map fun (keys, rest) => (key :: keys, rest)
    | rest => some ([key], rest)

/-! ## Numbers -/

/-- Digits with single underscores between them, the underscores left out. -/
def grouped? (isDigit : Char → Bool) : (afterDigit : Bool) → List Char → Option (List Char)
  | afterDigit, [] => if afterDigit then some [] else none
  | afterDigit, c :: cs =>
    if c = '_' then if afterDigit then grouped? isDigit false cs else none
    else if isDigit c then (c :: ·) <$> grouped? isDigit true cs
    else none

/-- The number of digits in a base. -/
def inBase (base : Nat) (digits : List Char) : Nat :=
  digits.foldl (fun n c => n * base + (Numeral.hexValue? c).getD 0) 0

/-- Digits of a base with underscores. -/
def based? (base : Nat) (cs : List Char) : Option Int := do
  let digits ← grouped? (fun c => (Numeral.hexValue? c).any (· < base)) false cs
  some (inBase base digits)

/-- Decimal digits that do not start with a zero unless it stands alone. -/
def wholeDigits? (cs : List Char) : Option (List Char) :=
  match cs with
  | '0' :: _ :: _ => none
  | _ => grouped? Char.isDigit false cs

/-- A decimal whole number without its sign. -/
def decimal? (cs : List Char) : Option Int := do
  let digits ← wholeDigits? cs
  some (← Numeral.digits? digits)

/-- The sign and digits of an exponent, with underscores left out. -/
def exponentDigits? : List Char → Option (List Char)
  | '+' :: cs => grouped? Char.isDigit false cs
  | '-' :: cs => ('-' :: ·) <$> grouped? Char.isDigit false cs
  | cs => grouped? Char.isDigit false cs

/-- A float with digits, without its sign: a fraction, an exponent or both. One that is too large is
refused. -/
def float? (cs : List Char) : Option Float := do
  let (whole, rest) := cs.span fun c => c.isDigit || c == '_'
  let whole ← wholeDigits? whole
  let (fraction, rest) ← match rest with
    | '.' :: rest =>
      let (fraction, rest) := rest.span fun c => c.isDigit || c == '_'
      (grouped? Char.isDigit false fraction).map fun digits => ('.' :: digits, rest)
    | _ => some ([], rest)
  let exponent ← match rest with
    | [] => if fraction.isEmpty then none else some []
    | c :: rest => if c = 'e' ∨ c = 'E' then ('e' :: ·) <$> exponentDigits? rest else none
  (Decimal.float? (whole ++ fraction ++ exponent)).filter fun x => !x.isInf

/-- A number or a float's word, without its sign. -/
def unsigned? (cs : List Char) : Option Value :=
  if cs = "inf".toList then some (.float (1.0 / 0.0))
  else if cs = "nan".toList then some (.float (0.0 / 0.0))
  else match decimal? cs with
    | some n => some (.integer n)
    | none => .float <$> float? cs

def negate : Value → Value
  | .integer n => .integer (-n)
  | .float x => .float (-x)
  | v => v

/-- The value of a word without quotes. -/
def word? : List Char → Option Value
  | ['t', 'r', 'u', 'e'] => some (.bool true)
  | ['f', 'a', 'l', 's', 'e'] => some (.bool false)
  | '0' :: 'x' :: cs => .integer <$> based? 16 cs
  | '0' :: 'o' :: cs => .integer <$> based? 8 cs
  | '0' :: 'b' :: cs => .integer <$> based? 2 cs
  | '+' :: cs => unsigned? cs
  | '-' :: cs => negate <$> unsigned? cs
  | cs => unsigned? cs

/-- Whether a character belongs to a word. -/
def isWordChar (c : Char) : Bool := isKeyChar c || c == '+' || c == '.'

/-! ## Values and documents -/

mutual

def value? : (limit : Nat) → List Char → Option (Value × List Char)
  | 0, _ => none
  | limit + 1, cs => match cs with
    | '[' :: rest => do
      match ← skipLines? (rest.length + 1) rest with
      | ']' :: rest => some (.array [], rest)
      | rest => (items? limit rest).map fun (items, rest) => (.array items, rest)
    | '\x7b' :: rest => do
      match ← skipLines? (rest.length + 1) rest with
      | '\x7d' :: rest => some (.table [], rest)
      | rest => (members? limit [] rest).map fun (entries, rest) => (.table (values entries), rest)
    | c :: _ =>
      if isWordChar c then
        let (word, rest) := cs.span isWordChar
        (word? word).map fun v => (v, rest)
      else (string? cs).map fun (text, rest) => (.string text, rest)
    | [] => none

/-- One or more items, the last of which a comma may follow, and the closing bracket. -/
def items? : (limit : Nat) → List Char → Option (List Value × List Char)
  | 0, _ => none
  | limit + 1, cs => do
    let (v, rest) ← value? limit cs
    match ← skipLines? (rest.length + 1) rest with
    | ']' :: rest => some ([v], rest)
    | ',' :: rest =>
      match ← skipLines? (rest.length + 1) rest with
      | ']' :: rest => some ([v], rest)
      | rest => (items? limit rest).map fun (vs, rest) => (v :: vs, rest)
    | _ => none

/-- One or more members, the last of which a comma may follow, and the closing brace. -/
def members? : (limit : Nat) → Entries → List Char → Option (Entries × List Char)
  | 0, _, _ => none
  | limit + 1, entries, cs => do
    let (path, rest) ← path? (cs.length + 1) cs
    match rest with
    | '=' :: rest =>
      let (v, rest) ← value? limit (skipBlanks rest)
      let entries ← entries.assign path v
      match ← skipLines? (rest.length + 1) rest with
      | '\x7d' :: rest => some (entries, rest)
      | ',' :: rest =>
        match ← skipLines? (rest.length + 1) rest with
        | '\x7d' :: rest => some (entries, rest)
        | rest => members? limit entries rest
      | _ => none
    | _ => none

end

/-- The statement that starts here, and what follows it on its line. -/
def statement? (cs : List Char) : Option (Statement × List Char) :=
  match cs with
  | '[' :: rest => do
    let (path, rest) ← path? (rest.length + 1) rest
    match rest with
    | ']' :: rest => some (.header path, rest)
    | _ => none
  | _ => do
    let (path, rest) ← path? (cs.length + 1) cs
    match rest with
    | '=' :: rest =>
      let (v, rest) ← value? (rest.length + 1) (skipBlanks rest)
      some (.assignment path v, rest)
    | _ => none

/-- The statements of a document, one to a line. -/
def statements? : (limit : Nat) → List Char → Option (List Statement)
  | 0, _ => none
  | limit + 1, cs => do
    match ← skipLines? (cs.length + 1) cs with
    | [] => some []
    | cs =>
      let (s, rest) ← statement? cs
      let rest ← lineEnd? rest
      (s :: ·) <$> statements? limit rest

/-- The table of a text, which a byte order mark may start. -/
def parse? (text : String) : Option (List (String × Value)) := do
  let cs := match text.toList with
    | '\ufeff' :: cs => cs
    | cs => cs
  tableOf? (← statements? (cs.length + 1) cs)

end Toml

end SatSearch
