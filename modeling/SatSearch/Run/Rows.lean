import SatSearch.Csv.Record
import SatSearch.Run.Summary
/-!
# Result tables

The tables that the batch and sweep commands write, and the tolerant reader that takes both: it
needs the outcome columns and takes what there is of the others.

Models `InstanceRow`, `SweepRow`, `read_rows`, and `ResultRow` with `label` and `to_record`.
-/

namespace SatSearch

/-- A row of fields, as characters. -/
abbrev Fields := List (List Char)

def countField (n : Nat) : List Char := (toString n).toList

def boolText (b : Bool) : String := if b then "true" else "false"

def boolField (b : Bool) : List Char := (boolText b).toList

def floatField (x : Float) : List Char := (Decimal.number x).toList

/-- The columns that tell how a search ended. -/
def outcomeColumns : List String := ["solved", "best_valence", "steps", "runtime_sec"]

def outcomeFields (r : BatchRecord) : Fields :=
  [boolField r.solved, floatField r.bestValence, countField r.steps, floatField r.runtime]

/-- The text of a table: its header and its rows, or nothing at all when there are no rows. -/
def tableText (columns : List String) (rows : List Fields) : String :=
  if rows.isEmpty then ""
  else String.ofList (Csv.renderRows Csv.charSymbols (columns.map String.toList :: rows))

namespace BatchTable

def columns : List String := "filename" :: "n" :: "m" :: outcomeColumns

def fields (r : BatchRecord) : Fields :=
  r.name.toList :: countField r.n :: countField r.m :: outcomeFields r

/-- The table of the records that have no error. -/
def text (records : List BatchRecord) : String :=
  tableText columns ((Summary.valid records).map fields)

end BatchTable

/-- A planned run of a sweep: the number of variables asked for, and the seed of both the generator
and the search. -/
structure SweepPoint where
  n : Nat
  seed : UInt64
  deriving DecidableEq, Repr

namespace SweepTable

def columns : List String := "n" :: "m" :: "seed" :: outcomeColumns

def fields (p : SweepPoint) (r : BatchRecord) : Fields :=
  countField p.n :: countField r.m :: countField p.seed.toNat :: outcomeFields r

/-- The table of the points whose records have no error. -/
def text (runs : List (SweepPoint × BatchRecord)) : String :=
  tableText columns ((runs.filter (·.2.error.isNone)).map fun run => fields run.1 run.2)

end SweepTable

/-- A row of either table. -/
structure ResultRow where
  filename : Option String
  n : Option Nat
  m : Option Nat
  seed : Option UInt64
  solved : Bool
  bestValence : FloatBits
  steps : Nat
  runtime : FloatBits
  deriving DecidableEq, Repr

namespace ResultRow

def columns : List String := "filename" :: "n" :: "m" :: "seed" :: outcomeColumns

def ofFields? : List (Option String) → Option ResultRow
  | [filename, n, m, seed, solved, bestValence, steps, runtime] => do
    some
      { filename := ← Csv.optional? some filename
        n := ← Csv.optional? Csv.count? n
        m := ← Csv.optional? Csv.count? m
        seed := ← Csv.optional? Csv.word? seed
        solved := ← Csv.required? Numeral.bool? solved
        bestValence := ← Csv.required? Csv.float? bestValence
        steps := ← Csv.required? Csv.count? steps
        runtime := ← Csv.required? Csv.float? runtime }
  | _ => none

/-- The rows of a table. -/
def readAll? (bytes : List UInt8) : Option (List ResultRow) := do
  let table ← Csv.table? bytes
  table.rows.mapM fun row => do ofFields? (← Csv.select? table.columns columns row)

/-- A value, or a question mark. -/
def orUnknown (text : Option String) : String := text.getD "?"

/-- The name of a row: its file, or else what is known of the instance. -/
def label (r : ResultRow) : String :=
  match r.filename with
  | some name => name
  | none =>
    "n=" ++ orUnknown (r.n.map toString) ++ " m=" ++ orUnknown (r.m.map toString) ++
      " seed=" ++ orUnknown (r.seed.map fun s => toString s.toNat)

def toRecord (r : ResultRow) : BatchRecord :=
  { name := r.label, n := r.n.getD 0, m := r.m.getD 0, seed := r.seed, solved := r.solved
    bestValence := r.bestValence.toFloat, steps := r.steps, runtime := r.runtime.toFloat
    error := none }

end ResultRow

end SatSearch
