import SatSearch.Csv.Scan
import SatSearch.Decimal.Bits
import SatSearch.Text.Numeral
/-!
# Records read by column

The first row of a table names its columns, and every other row has just as many fields. A record is
read by asking for columns by name; columns nobody asks for are passed over, and of two columns with
one name neither can be read. Where the names themselves are no text, columns are known by their
place alone.
-/

namespace SatSearch

namespace Csv

/-- The text that bytes stand for. -/
def decode? (bytes : List UInt8) : Option String := String.fromUTF8? ⟨bytes.toArray⟩

/-- How the columns of a table are found. -/
inductive Columns where
  | named (names : List String)
  | placed
  deriving DecidableEq, Repr

/-- The names in a first row, or nothing but places when they are no text. -/
def Columns.ofFields (fields : List (List UInt8)) : Columns :=
  match fields.mapM decode? with
  | some names => .named names
  | none => .placed

/-- A table with its rows decoded: the columns, and each row's fields. -/
structure Table where
  columns : Columns
  rows : List (List String)

/-- The bytes without a byte order mark at their start. -/
def dropMark : List UInt8 → List UInt8
  | 0xef :: 0xbb :: 0xbf :: rest => rest
  | bytes => bytes

/-- The table in a file, unless some row has another number of fields than the first one or is no
text. -/
def table? (bytes : List UInt8) : Option Table :=
  match rows byteSymbols (dropMark bytes) with
  | [] => some ⟨.named [], []⟩
  | first :: others =>
    if others.all (·.length = first.length) then
      let rows := others.mapM fun (row : List (List UInt8)) => row.mapM decode?
      rows.map fun rows => ⟨.ofFields first, rows⟩
    else none

/-- The fields of a row for the wanted columns: none for a column that is missing. A wanted column
that stands twice cannot be read. -/
def select? (columns : Columns) (wanted : List String) (row : List String) :
    Option (List (Option String)) :=
  match columns with
  | .named names =>
    wanted.mapM fun name => match (names.zip row).filter (·.1 = name) with
      | [] => some none
      | [column] => some (some column.2)
      | _ => none
  | .placed => some ((List.range wanted.length).map fun i => row[i]?)

/-! ## Fields -/

/-- A field that has to be there. -/
def required? {α : Type} (read : String → Option α) (field : Option String) : Option α :=
  field.bind read

/-- A field that may be missing or empty. -/
def optional? {α : Type} (read : String → Option α) : Option String → Option (Option α)
  | none => some none
  | some text => if text.isEmpty then some none else (read text).map some

def hexDigits? : List Char → Option Nat
  | [] => none
  | cs => cs.foldlM (fun n c => (n * 16 + ·) <$> Numeral.hexValue? c) 0

/-- A whole number below `2 ^ 64`, in decimal or, after `0x`, in hexadecimal digits; a plus sign may
stand before the digits. -/
def count? (text : String) : Option Nat :=
  match text.toList with
  | '0' :: 'x' :: '+' :: digits => (hexDigits? digits).filter (· < Numeral.countLimit)
  | '0' :: 'x' :: digits => (hexDigits? digits).filter (· < Numeral.countLimit)
  | cs => Numeral.count? cs

def word? (text : String) : Option UInt64 := (count? text).map UInt64.ofNat

def float? (text : String) : Option FloatBits := FloatBits.parse? text.toList

end Csv

end SatSearch
