import SatSearch.Cnf.Formula
import SatSearch.Text.Blank
import SatSearch.Text.Numeral
import SatSearch.Text.Pieces
/-!
# DIMACS files

The usual text form of formulas: a header line that starts with `p` and declares the sizes, and a
line of signed numbers for each clause, with 0 at its end. Reading is lenient. Comment lines and
lines that are not numbers throughout are passed over, zeros are dropped wherever they stand, a
line is a clause whether or not a zero ends it, and what the header declares is kept but never
checked. The only error of reading bytes is that they are no text.

Models `DimacsFile` with `parse_str`, `consume_line`, `parse_header`, `read_from` and `write_to`.
-/

namespace SatSearch

namespace Dimacs

/-- What a file declares about itself, and its formula. -/
structure Instance where
  declaredVars : Option Nat := none
  declaredClauses : Option Nat := none
  formula : Formula := .empty
  deriving DecidableEq, Repr

/-! ## Lines -/

/-- What was read so far: the sizes of the last header, and the clauses. -/
structure Progress where
  declaredVars : Option Nat := none
  declaredClauses : Option Nat := none
  clauses : Array Clause := #[]
  deriving DecidableEq, Repr

/-- The sizes that a header line declares: its third and fourth words if there are just four. -/
def header (line : List Char) : Option Nat × Option Nat :=
  match Blank.tokens line with
  | [_, _, vars, clauses] => (Numeral.count? vars, Numeral.count? clauses)
  | _ => (none, none)

/-- Whether a line can hold a number at all. -/
def mayHoldNumbers (line : List Char) : Bool := line.any fun c => c.isDigit || c == '-'

/-- The numbers of a line, if it holds nothing else. -/
def numbers? (line : List Char) : Option (List Int) := (Blank.tokens line).mapM Numeral.signed?

/-- The clause of a line of numbers, if a literal is left after dropping zeros. -/
def clause? (line : List Char) : Option Clause :=
  match numbers? line with
  | none => none
  | some xs => match xs.filterMap Literal.ofSigned? with
    | [] => none
    | literals => some ⟨literals⟩

/-- Takes in a line, blanks around it set aside. -/
def Progress.takeLine (p : Progress) (line : List Char) : Progress :=
  let line := Blank.trim line
  match line with
  | [] => p
  | c :: _ =>
    if c = 'c' ∨ c = '%' then p
    else if c = 'p' then
      let (vars, clauses) := header line
      { p with declaredVars := vars, declaredClauses := clauses }
    else if mayHoldNumbers line then
      match clause? line with
      | some clause => { p with clauses := p.clauses.push clause }
      | none => p
    else p

def Progress.finish (p : Progress) : Instance :=
  ⟨p.declaredVars, p.declaredClauses, .ofClauses p.clauses⟩

/-! ## Reading -/

/-- Reads a text. -/
def parse (text : String) : Instance :=
  ((Pieces.pieces '\n' text.toList).foldl Progress.takeLine {}).finish

inductive ReadError where
  | notText
  | writeRefused
  deriving DecidableEq, Repr

/-- The characters of one line of bytes. -/
def decodeLine (bytes : List UInt8) : Except ReadError (List Char) :=
  match String.fromUTF8? ⟨bytes.toArray⟩ with
  | some text => .ok text.toList
  | none => .error .notText

/-- Takes in lines of bytes, decoding each when it is reached. -/
def Progress.takeBytes : Progress → List (List UInt8) → Except ReadError Progress
  | p, [] => .ok p
  | p, line :: lines => match decodeLine line with
    | .ok line => (p.takeLine line).takeBytes lines
    | .error e => .error e

/-- Reads bytes line by line. -/
def read (bytes : ByteArray) : Except ReadError Instance :=
  match Progress.takeBytes {} (Pieces.pieces 10 bytes.data.toList) with
  | .ok p => .ok p.finish
  | .error e => .error e

/-! ## Writing -/

def clauseLine (c : Clause) : String :=
  c.literals.foldl (fun line l => line ++ l.text ++ " ") "" ++ "0\n"

def headerLine (f : Formula) : String :=
  "p cnf " ++ toString f.numVars ++ " " ++ toString f.numClauses ++ "\n"

/-- The text of a formula. -/
def render (f : Formula) : String :=
  f.clauses.foldl (fun text c => text ++ clauseLine c) (headerLine f)

/-- The text of a formula, if it fits into a buffer of the given number of bytes. -/
def renderWithin (capacity : Nat) (f : Formula) : Except ReadError String :=
  let text := render f
  if text.utf8ByteSize ≤ capacity then .ok text else .error .writeRefused

end Dimacs

end SatSearch
