/-!
# Rows of comma-separated values

Rows end at line ends of any kind, and rows without anything in them are passed over. A field that
starts with a quote goes on to the next single quote, whatever stands between; two quotes in it
stand for one. A quote elsewhere is a character like others. Nothing is malformed: what is still
open at the end of the text ends there.

The scanner works on any alphabet in which the four special symbols are marked, so that it serves
characters and bytes.
-/

namespace SatSearch

namespace Csv

/-- The symbols that have a meaning of their own. -/
structure Symbols (α : Type) where
  comma : α
  quote : α
  carriageReturn : α
  lineFeed : α

def charSymbols : Symbols Char := ⟨',', '"', '\r', '\n'⟩

def byteSymbols : Symbols UInt8 := ⟨44, 34, 13, 10⟩

/-- Where in a row the scanner stands. -/
inductive Place where
  | rowStart
  | fieldStart
  | unquoted
  | quoted
  | afterQuote
  deriving DecidableEq, Repr

/-- The finished rows, the finished fields of the current row and its current field, each last one
first. -/
structure Scan (α : Type) where
  place : Place := .rowStart
  field : List α := []
  row : List (List α) := []
  rows : List (List (List α)) := []

namespace Scan

variable {α : Type}

def take (s : Scan α) (place : Place) (a : α) : Scan α := { s with place, field := a :: s.field }

def endField (s : Scan α) : Scan α :=
  { s with place := .fieldStart, field := [], row := s.field.reverse :: s.row }

def endRow (s : Scan α) : Scan α :=
  { place := .rowStart, rows := (s.field.reverse :: s.row).reverse :: s.rows }

variable [DecidableEq α]

def isLineEnd (sym : Symbols α) (a : α) : Bool := a = sym.carriageReturn || a = sym.lineFeed

/-- What a comma or a line end does, and what `other` does with any other symbol. -/
def separate (sym : Symbols α) (s : Scan α) (a : α) (other : Scan α) : Scan α :=
  if a = sym.comma then s.endField
  else if isLineEnd sym a then s.endRow
  else other

/-- Takes in the first symbol of a field. -/
def startField (sym : Symbols α) (s : Scan α) (a : α) : Scan α :=
  if a = sym.quote then { s with place := .quoted }
  else s.separate sym a (s.take .unquoted a)

def step (sym : Symbols α) (s : Scan α) (a : α) : Scan α :=
  match s.place with
  | .rowStart => if isLineEnd sym a then s else s.startField sym a
  | .fieldStart => s.startField sym a
  | .unquoted => s.separate sym a (s.take .unquoted a)
  | .quoted => if a = sym.quote then { s with place := .afterQuote } else s.take .quoted a
  | .afterQuote =>
    if a = sym.quote then s.take .quoted a else s.separate sym a (s.take .unquoted a)

/-- The rows when the text ends here. -/
def finish (s : Scan α) : List (List (List α)) :=
  (if s.place = .rowStart then s else s.endRow).rows.reverse

end Scan

/-- The rows of a text. -/
def rows {α : Type} [DecidableEq α] (sym : Symbols α) (text : List α) : List (List (List α)) :=
  (text.foldl (Scan.step sym) {}).finish

/-! ## Writing -/

section Writing

variable {α : Type} [DecidableEq α]

/-- Whether a symbol can only stand between quotes. -/
def isSpecial (sym : Symbols α) (a : α) : Bool :=
  a = sym.comma || a = sym.quote || Scan.isLineEnd sym a

/-- A field between quotes, each quote in it written twice. -/
def quoted (sym : Symbols α) (field : List α) : List α :=
  sym.quote :: field.flatMap (fun a => if a = sym.quote then [a, a] else [a]) ++ [sym.quote]

/-- A field, between quotes only if it must be. -/
def renderField (sym : Symbols α) (field : List α) : List α :=
  if field.any (isSpecial sym) then quoted sym field else field

/-- A row of at least two fields, or of one that is not empty, with its line end. -/
def renderRow (sym : Symbols α) : List (List α) → List α
  | [] => [sym.lineFeed]
  | [field] => renderField sym field ++ [sym.lineFeed]
  | field :: fields => renderField sym field ++ sym.comma :: renderRow sym fields

def renderRows (sym : Symbols α) (rows : List (List (List α))) : List α :=
  rows.flatMap (renderRow sym)

end Writing

end Csv

end SatSearch
