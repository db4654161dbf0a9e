import Mathlib
import SatSearch.Proofs.Csv.Tables
import SatSearch.Proofs.Run.Summaries
import SatSearch.Run.Rows
/-!
# Result tables read back

Both tables are read row by row, in the order in which they were written (`readAll?_tableText`). A row has all that
its record tells of the search, and besides the file and its size (`BatchTable.row`) or the point of the sweep
(`SweepTable.row`). So the summary of the rows is that of the records.
-/

namespace SatSearch

/-- The text of a float in a table stands for the same bits. -/
def FloatBits.SurvivesText (x : Float) : Prop := FloatBits.parse? (floatField x) = some (.ofFloat x)

/-- The numbers that a record tells of the search fit in 64-bit words, and its floats survive their texts. -/
structure BatchRecord.Printable (r : BatchRecord) : Prop where
  n_lt : r.n < Numeral.countLimit
  m_lt : r.m < Numeral.countLimit
  steps_lt : r.steps < Numeral.countLimit
  bestValence : FloatBits.SurvivesText r.bestValence
  runtime : FloatBits.SurvivesText r.runtime

/-- The row of a record in the table of a batch. A column that is left blank counts as missing; the name of a file
never is blank. -/
def BatchTable.row (r : BatchRecord) : ResultRow where
  filename := if r.name = "" then none else some r.name
  n := some r.n
  m := some r.m
  seed := none
  solved := r.solved
  bestValence := .ofFloat r.bestValence
  steps := r.steps
  runtime := .ofFloat r.runtime

/-- The row of a point in the table of a sweep: the number of variables is the one that was asked for. -/
def SweepTable.row (p : SweepPoint) (r : BatchRecord) : ResultRow where
  filename := none
  n := some p.n
  m := some r.m
  seed := some p.seed
  solved := r.solved
  bestValence := .ofFloat r.bestValence
  steps := r.steps
  runtime := .ofFloat r.runtime

/-- The text of a table holds its columns and its rows, or nothing at all. -/
theorem rows_tableText {columns : List String} {rows : List Fields} (hcolumns : 2 ≤ columns.length)
    (hrows : ∀ row ∈ rows, 2 ≤ row.length) : Csv.rows Csv.charSymbols (tableText columns rows).toList =
      if rows = [] then [] else columns.map String.toList :: rows := by
  have hlong : ∀ row : Fields, 2 ≤ row.length → row ≠ [] ∧ row ≠ [[]] := by
    rintro row hrow
    constructor <;> rintro rfl <;> simp at hrow
  unfold tableText
  cases rows with
  | nil => rfl
  | cons row rows =>
    rw [if_neg (by simp), if_neg (by simp), String.toList_ofList, Csv.rows_renderRows Csv.distinct_charSymbols]
    intro other hother
    rcases List.mem_cons.1 hother with rfl | hother
    · exact hlong _ (by simpa using hcolumns)
    · exact hlong _ (hrows other hother)

/-! ## Lines of tables -/

namespace ResultRow

open Csv (optional? required? select?)

/-- The row of a line in a table with the given columns. -/
def ofLine? (names : List String) (line : Fields) : Option ResultRow :=
  (select? (.named names) columns (line.map String.ofList)).bind ofFields?

theorem bool?_boolField (b : Bool) : Numeral.bool? (String.ofList (boolField b)) = some b := by
  rw [boolField, String.ofList_toList, Numeral.bool?_eq_some_iff]
  cases b <;> rfl

theorem optional?_countField {n : Nat} (h : n < Numeral.countLimit) :
    optional? Csv.count? (some (String.ofList (countField n))) = some (some n) := by
  have hne : (toString n).isEmpty = false := by simp
  rw [countField, String.ofList_toList, optional?, hne, Csv.count?_toString h]
  rfl

theorem optional?_seedField (seed : UInt64) :
    optional? Csv.word? (some (String.ofList (countField seed.toNat))) = some (some seed) := by
  have hne : (toString seed.toNat).isEmpty = false := by simp
  rw [countField, String.ofList_toList, optional?, hne, Csv.word?_toString]
  rfl

theorem optional?_nameField (name : String) :
    optional? some (some (String.ofList name.toList)) = some (if name = "" then none else some name) := by
  rw [String.ofList_toList]
  by_cases h : name = "" <;> simp [optional?, h]

/-- The columns that tell how the search ended are read in both tables alike. -/
theorem ofFields?_outcome {r : BatchRecord} (hr : r.Printable) {filename n m seed : Option String}
    {filename' : Option String} {n' m' : Option Nat} {seed' : Option UInt64}
    (hfilename : optional? some filename = some filename') (hn : optional? Csv.count? n = some n')
    (hm : optional? Csv.count? m = some m') (hseed : optional? Csv.word? seed = some seed') :
    ofFields? ([filename, n, m, seed] ++ (outcomeFields r).map fun field => some (String.ofList field)) = some
      { filename := filename', n := n', m := m', seed := seed', solved := r.solved
        bestValence := .ofFloat r.bestValence, steps := r.steps, runtime := .ofFloat r.runtime } := by
  have hvalence : Csv.float? (String.ofList (floatField r.bestValence)) = some (.ofFloat r.bestValence) := by
    rw [Csv.float?, String.toList_ofList]
    exact hr.bestValence
  have hruntime : Csv.float? (String.ofList (floatField r.runtime)) = some (.ofFloat r.runtime) := by
    rw [Csv.float?, String.toList_ofList]
    exact hr.runtime
  have hsteps : Csv.count? (String.ofList (countField r.steps)) = some r.steps := by
    rw [countField, String.ofList_toList, Csv.count?_toString hr.steps_lt]
  simp [ofFields?, outcomeFields, required?, hfilename, hn, hm, hseed, bool?_boolField, hvalence, hsteps, hruntime]

theorem ofLine?_batch {r : BatchRecord} (hr : r.Printable) :
    ofLine? BatchTable.columns (BatchTable.fields r) = some (BatchTable.row r) := by
  have hselect : ∀ a b c d e f g, select? (.named BatchTable.columns) columns [a, b, c, d, e, f, g] =
      some [some a, some b, some c, none, some d, some e, some f, some g] := fun _ _ _ _ _ _ _ => rfl
  rw [ofLine?, BatchTable.fields, outcomeFields]
  simp only [List.map_cons, List.map_nil]
  rw [hselect, Option.bind_some]
  exact ofFields?_outcome hr (optional?_nameField r.name) (optional?_countField hr.n_lt)
    (optional?_countField hr.m_lt) rfl

theorem ofLine?_sweep {p : SweepPoint} {r : BatchRecord} (hp : p.n < Numeral.countLimit) (hr : r.Printable) :
    ofLine? SweepTable.columns (SweepTable.fields p r) = some (SweepTable.row p r) := by
  have hselect : ∀ a b c d e f g, select? (.named SweepTable.columns) columns [a, b, c, d, e, f, g] =
      some [none, some a, some b, some c, some d, some e, some f, some g] := fun _ _ _ _ _ _ _ => rfl
  rw [ofLine?, SweepTable.fields, outcomeFields]
  simp only [List.map_cons, List.map_nil]
  rw [hselect, Option.bind_some]
  exact ofFields?_outcome hr rfl (optional?_countField hp) (optional?_countField hr.m_lt)
    (optional?_seedField p.seed)

/-! ## Whole tables -/

/-- The rows of a table, each read from its line. -/
theorem readAll?_tableText {α : Type} {names : List String} {items : List α} {line : α → Fields} {row : α → ResultRow}
    {b : UInt8} (hcolumns : 2 ≤ names.length)
    (hfirst : (Encoding.bytes (Csv.renderRow Csv.charSymbols (names.map String.toList))).head? = some b)
    (hmark : b ≠ 0xef) (hwidth : ∀ a, (line a).length = names.length)
    (hline : ∀ a ∈ items, ofLine? names (line a) = some (row a)) :
    readAll? (tableText names (items.map line)).toUTF8.toList = some (items.map row) := by
  rw [Encoding.toList_byteArray, ← Encoding.bytes_toList]
  cases hitems : items with
  | nil => rfl
  | cons a rest =>
    rw [← hitems, tableText, if_neg (by simp [hitems]), String.toList_ofList, readAll?,
      Csv.table?_renderRows (by simpa using hcolumns) hfirst hmark (by simpa using fun a _ => hwidth a)]
    have hnames : (names.map String.toList).map String.ofList = names := by simp [Function.comp_def]
    rw [hnames, Option.bind_eq_bind, Option.bind_some, List.map_map, List.mapM_map]
    exact Csv.mapM_eq_some_map hline

end ResultRow

variable {records : List BatchRecord} {runs : List (SweepPoint × BatchRecord)}

theorem BatchTable.readAll?_text (h : ∀ r ∈ Summary.valid records, r.Printable) :
    ResultRow.readAll? (text records).toUTF8.toList = some ((Summary.valid records).map row) :=
  ResultRow.readAll?_tableText (b := 102) (by decide) rfl (by decide) (fun _ => rfl) fun r hr =>
    ResultRow.ofLine?_batch (h r hr)

theorem SweepTable.readAll?_text
    (h : ∀ run ∈ runs, run.2.error = none → run.1.n < Numeral.countLimit ∧ run.2.Printable) :
    ResultRow.readAll? (text runs).toUTF8.toList =
      some ((runs.filter (·.2.error.isNone)).map fun run => row run.1 run.2) := by
  refine ResultRow.readAll?_tableText (b := 110) (by decide) rfl (by decide) (fun _ => rfl) fun run hrun => ?_
  obtain ⟨hmem, hnone⟩ := List.mem_filter.1 hrun
  obtain ⟨hn, hprintable⟩ := h run hmem (Option.isNone_iff_eq_none.1 hnone)
  exact ResultRow.ofLine?_sweep hn hprintable

/-! ## Summaries of rows -/

theorem FloatBits.toFloat_ofFloat (x : Float) : (FloatBits.ofFloat x).toFloat = x :=
  Float.ofBits_toBits x

theorem BatchTable.outcome_row (r : BatchRecord) : (row r).toRecord.outcome = r.outcome := by
  simp [ResultRow.toRecord, row, BatchRecord.outcome, FloatBits.toFloat_ofFloat]

theorem SweepTable.outcome_row (p : SweepPoint) (r : BatchRecord) : (row p r).toRecord.outcome = r.outcome := by
  simp [ResultRow.toRecord, row, BatchRecord.outcome, FloatBits.toFloat_ofFloat]

/-- A record that is made of a row has no error. -/
theorem ResultRow.valid_map_toRecord (rows : List ResultRow) :
    Summary.valid (rows.map toRecord) = rows.map toRecord := by
  simp [Summary.valid, toRecord]

theorem BatchTable.summarize_rows (records : List BatchRecord) :
    summarize (((Summary.valid records).map row).map ResultRow.toRecord) = summarize records := by
  apply summarize_congr
  rw [ResultRow.valid_map_toRecord]
  simp [Function.comp_def, outcome_row]

theorem SweepTable.summarize_rows (runs : List (SweepPoint × BatchRecord)) :
    summarize (((runs.filter (·.2.error.isNone)).map fun run => row run.1 run.2).map ResultRow.toRecord) =
      summarize (runs.map Prod.snd) := by
  apply summarize_congr
  rw [ResultRow.valid_map_toRecord]
  simp [Function.comp_def, outcome_row, Summary.valid, List.filter_map]

end SatSearch
