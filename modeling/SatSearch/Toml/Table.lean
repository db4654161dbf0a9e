/-!
# TOML tables

A table maps keys to values and to further tables. It grows statement by statement: a header opens a
table, once only, and an assignment with a dotted key goes through tables that dotted keys made.
Whatever would change something that stands already is refused.
-/

namespace SatSearch

namespace Toml

inductive Value where
  | integer (n : Int)
  | float (x : Float)
  | bool (b : Bool)
  | string (text : String)
  | array (items : List Value)
  | table (entries : List (String × Value))

/-- How a table came about: on the way to a header's table, by its own header, or on the way of a
dotted key. -/
inductive Origin where
  | passed
  | opened
  | dotted
  deriving DecidableEq

/-- A table that is still growing. -/
inductive Node where
  | leaf (v : Value)
  | table (origin : Origin) (entries : List (String × Node))

abbrev Entries := List (String × Node)

namespace Entries

def find? (entries : Entries) (key : String) : Option Node := entries.lookup key

/-- Puts a node in the place of the one that a key has. -/
def replace (entries : Entries) (key : String) (node : Node) : Entries :=
  entries.map fun e => if e.1 = key then (key, node) else e

def add (entries : Entries) (key : String) (node : Node) : Entries := entries ++ [(key, node)]

/-- Gives the value to a dotted key. -/
def assign (entries : Entries) : List String → Value → Option Entries
  | [], _ => none
  | [key], v => match entries.find? key with
    | none => some (entries.add key (.leaf v))
    | some _ => none
  | key :: path, v => match entries.find? key with
    | none => (assign [] path v).map fun inner => entries.add key (.table .dotted inner)
    | some (.table .dotted inner) =>
      (assign inner path v).map fun inner => entries.replace key (.table .dotted inner)
    | some _ => none

/-- Opens the table of a header. -/
def openTable (entries : Entries) : List String → Option Entries
  | [] => none
  | [key] => match entries.find? key with
    | none => some (entries.add key (.table .opened []))
    | some (.table .passed inner) => some (entries.replace key (.table .opened inner))
    | some _ => none
  | key :: path => match entries.find? key with
    | none => (openTable [] path).map fun inner => entries.add key (.table .passed inner)
    | some (.table origin inner) =>
      (openTable inner path).map fun inner => entries.replace key (.table origin inner)
    | some (.leaf _) => none

/-- Gives the value to a dotted key within the table of a header. -/
def assignWithin (entries : Entries) : (header : List String) → List String → Value → Option Entries
  | [], path, v => entries.assign path v
  | key :: header, path, v => match entries.find? key with
    | some (.table origin inner) =>
      (assignWithin inner header path v).map fun inner => entries.replace key (.table origin inner)
    | _ => none

end Entries

mutual

/-- The value of a table that has stopped growing. -/
def Node.value : Node → Value
  | .leaf v => v
  | .table _ entries => .table (values entries)

def values : List (String × Node) → List (String × Value)
  | [] => []
  | (key, node) :: entries => (key, node.value) :: values entries

end

/-- One line's meaning. -/
inductive Statement where
  | header (path : List String)
  | assignment (path : List String) (v : Value)

/-- The table that statements build, each under the last header before it. -/
def build : (header : List String) → Entries → List Statement → Option Entries
  | _, entries, [] => some entries
  | _, entries, .header path :: rest => match entries.openTable path with
    | some entries => build path entries rest
    | none => none
  | header, entries, .assignment path v :: rest => match entries.assignWithin header path v with
    | some entries => build header entries rest
    | none => none

/-- The table of a whole document. -/
def tableOf? (statements : List Statement) : Option (List (String × Value)) :=
  (build [] [] statements).map values

end Toml

end SatSearch
