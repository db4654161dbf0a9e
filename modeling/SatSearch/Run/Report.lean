import SatSearch.Run.Rows
/-!
# Reports

The printed summary of a result table, with two rankings of its rows: the fastest ones and those
of the highest valence. Rankings go by the order of bit patterns, and rows that are equal in it
keep the order of the table.

Models `render` and `write_report`.
-/

namespace SatSearch

namespace Report

/-- The number of rows that a ranking shows. -/
def rankingSize : Nat := 5

/-- The rows by rising runtime. -/
def fastest (rows : List ResultRow) : List ResultRow :=
  (rows.mergeSort fun a b => a.runtime.rank ≤ b.runtime.rank).take rankingSize

/-- The rows by falling valence. -/
def strongest (rows : List ResultRow) : List ResultRow :=
  (rows.mergeSort fun a b => b.bestValence.rank ≤ a.bestValence.rank).take rankingSize

def blanks (n : Nat) : String := String.ofList (List.replicate n ' ')

/-- The text at the left of a field of the given width. -/
def atLeft (width : Nat) (text : String) : String := text ++ blanks (width - text.length)

/-- The text at the right of a field of the given width. -/
def atRight (width : Nat) (text : String) : String := blanks (width - text.length) ++ text

/-- A time in milliseconds. -/
def milliseconds (seconds : Float) : String := Decimal.fixed 3 (seconds * 1000.0)

def valence (x : Float) : String := Decimal.fixed 4 x

def fastestLine (r : ResultRow) : String :=
  "  " ++ atLeft 32 r.label ++ " " ++ atRight 12 (milliseconds r.runtime.toFloat) ++
    " ms  solved=" ++ boolText r.solved

def strongestLine (r : ResultRow) : String :=
  "  " ++ atLeft 32 r.label ++ " " ++ atRight 8 (valence r.bestValence.toFloat) ++
    "  solved=" ++ boolText r.solved

def summaryLines (s : BatchSummary) : List String :=
  ["Instances: " ++ toString s.instances,
    "Solved: " ++ toString s.solved ++ "/" ++ toString s.instances ++ " (" ++
      Decimal.fixed 1 (100.0 * s.solvedRatio) ++ "%)",
    "Mean valence: " ++ valence s.valence.mean,
    "Min/Max valence: " ++ valence s.valence.min ++ " / " ++ valence s.valence.max,
    "Mean runtime: " ++ milliseconds s.runtime.mean ++ " ms",
    "Min/Max runtime: " ++ milliseconds s.runtime.min ++ " / " ++ milliseconds s.runtime.max ++
      " ms",
    "Mean steps: " ++ Decimal.fixed 0 s.steps.mean,
    "Min/Max steps: " ++ toString s.steps.min ++ " / " ++ toString s.steps.max]

def lines (rows : List ResultRow) (s : BatchSummary) : List String :=
  ["", "===== Batch Summary =====", ""] ++ summaryLines s ++
    ["", "Top " ++ toString rankingSize ++ " fastest:"] ++ (fastest rows).map fastestLine ++
    ["", "Top " ++ toString rankingSize ++ " highest valence:"] ++
    (strongest rows).map strongestLine ++
    ["", "===== End of Summary =====", ""]

/-- The report on the rows of a table, if there are any. -/
def render? (rows : List ResultRow) : Option String :=
  (summarize (rows.map ResultRow.toRecord)).map fun s =>
    String.join ((lines rows s).map (· ++ "\n"))

end Report

end SatSearch
