import Mathlib.Data.List.Basic
import SatSearch.Csv.Scan
/-!
# Written rows read back

The scanner takes a written field apart again, wherever a field may start: plain symbols stand for themselves
(`run_plain`), between quotes all symbols do, once two quotes are read as one (`run_doubled`), and the comma or the
line feed behind the field ends it (`step_comma`, `step_lineFeed`). So the rows of a written table are the rows that
were written (`rows_renderRows`), unless one of them has no field, or only one that is empty.
-/

namespace SatSearch.Csv

/-- Commas, quotes and line ends can be told apart. -/
structure Symbols.Distinct {α : Type} (sym : Symbols α) : Prop where
  comma_ne_quote : sym.comma ≠ sym.quote
  comma_ne_return : sym.comma ≠ sym.carriageReturn
  comma_ne_feed : sym.comma ≠ sym.lineFeed
  quote_ne_return : sym.quote ≠ sym.carriageReturn
  quote_ne_feed : sym.quote ≠ sym.lineFeed

theorem distinct_byteSymbols : byteSymbols.Distinct := by
  constructor <;> decide

theorem distinct_charSymbols : charSymbols.Distinct := by
  constructor <;> decide

variable {α : Type} [DecidableEq α] {sym : Symbols α} {s : Scan α}

namespace Scan

/-- The scanner after some more symbols. -/
def run (sym : Symbols α) (s : Scan α) (text : List α) : Scan α := text.foldl (step sym) s

@[simp] theorem run_nil (s : Scan α) : s.run sym [] = s := rfl

@[simp] theorem run_cons (s : Scan α) (a : α) (text : List α) : s.run sym (a :: text) = (s.step sym a).run sym text :=
  rfl

theorem run_append (s : Scan α) (text rest : List α) : s.run sym (text ++ rest) = (s.run sym text).run sym rest := by
  simp [run, List.foldl_append]

/-! ## Fields -/

theorem isSpecial_eq_false_iff {a : α} : isSpecial sym a = false ↔
    a ≠ sym.comma ∧ a ≠ sym.quote ∧ a ≠ sym.carriageReturn ∧ a ≠ sym.lineFeed := by
  simp [isSpecial, isLineEnd, and_assoc]

/-- Plain symbols are taken into the field. -/
theorem run_plain {field : List α} (hplain : ∀ a ∈ field, isSpecial sym a = false) (hs : s.place = .unquoted) :
    s.run sym field = { s with field := field.reverse ++ s.field } := by
  induction field generalizing s with
  | nil => rfl
  | cons a field ih =>
    obtain ⟨hcomma, hquote, hreturn, hfeed⟩ := isSpecial_eq_false_iff.1 (hplain a (by simp))
    have hstep : s.step sym a = s.take .unquoted a := by
      simp [step, hs, separate, isLineEnd, hcomma, hreturn, hfeed]
    rw [run_cons, hstep, ih (fun b hb => hplain b (by simp [hb])) rfl]
    simp [take, hs]

/-- Between quotes two quotes are one. -/
theorem run_doubled (field : List α) (hs : s.place = .quoted) :
    s.run sym (field.flatMap fun a => if a = sym.quote then [a, a] else [a]) =
      { s with field := field.reverse ++ s.field } := by
  induction field generalizing s with
  | nil => rfl
  | cons a field ih =>
    rw [List.flatMap_cons, run_append]
    by_cases ha : a = sym.quote
    · have hstep : s.run sym [a, a] = s.take .quoted a := by simp [step, hs, ha, take]
      rw [if_pos ha, hstep, ih rfl]
      simp [take, hs]
    · have hstep : s.run sym [a] = s.take .quoted a := by simp [step, hs, ha]
      rw [if_neg ha, hstep, ih rfl]
      simp [take, hs]

/-- A field may start here. -/
def Fresh (s : Scan α) : Prop := (s.place = .rowStart ∨ s.place = .fieldStart) ∧ s.field = []

/-- A comma ends a field wherever it is not between quotes. -/
theorem step_comma (hd : sym.Distinct) (hs : s.place ≠ .quoted) : s.step sym sym.comma = s.endField := by
  have hquote := hd.comma_ne_quote
  have hend : isLineEnd sym sym.comma = false := by simp [isLineEnd, hd.comma_ne_return, hd.comma_ne_feed]
  unfold step
  split <;> simp_all [startField, separate]

/-- A line feed ends a row wherever it is not between quotes, unless nothing of the row was read. -/
theorem step_lineFeed (hd : sym.Distinct) (hs : s.place ≠ .quoted) (hstart : s.place ≠ .rowStart) :
    s.step sym sym.lineFeed = s.endRow := by
  have hcomma := hd.comma_ne_feed.symm
  have hquote := hd.quote_ne_feed.symm
  have hend : isLineEnd sym sym.lineFeed = true := by simp [isLineEnd]
  unfold step
  split <;> simp_all [startField, separate]

theorem run_quoted (hd : sym.Distinct) (field : List α) (hs : s.Fresh) :
    s.run sym (quoted sym field) = { s with place := .afterQuote, field := field.reverse } := by
  obtain ⟨hplace, hfield⟩ := hs
  have hopen : s.step sym sym.quote = { s with place := .quoted } := by
    rcases hplace with h | h <;> simp [step, h, startField, isLineEnd, hd.quote_ne_return, hd.quote_ne_feed]
  rw [quoted, List.cons_append, run_cons, hopen, run_append, run_doubled field rfl]
  simp [step, hfield]

/-- A written field is read whole, and the scanner stands behind it, or still where it was if the field is empty. -/
theorem run_renderField (hd : sym.Distinct) (field : List α) (hs : s.Fresh) : ∃ place,
    s.run sym (renderField sym field) = { s with place, field := field.reverse } ∧
      (place = .unquoted ∨ place = .afterQuote ∨ place = s.place ∧ field = []) := by
  unfold renderField
  split
  · exact ⟨.afterQuote, run_quoted hd field hs, .inr (.inl rfl)⟩
  next hplain =>
  have hplain : ∀ a ∈ field, isSpecial sym a = false := by simpa using hplain
  obtain ⟨hplace, hfield⟩ := hs
  cases field with
  | nil =>
    have hsame : { s with field := [] } = s := by rw [← hfield]
    exact ⟨s.place, by simp [hsame], .inr (.inr ⟨rfl, rfl⟩)⟩
  | cons a field =>
    obtain ⟨hcomma, hquote, hreturn, hfeed⟩ := isSpecial_eq_false_iff.1 (hplain a (by simp))
    have hstep : s.step sym a = s.take .unquoted a := by
      rcases hplace with h | h <;> simp [step, h, startField, separate, isLineEnd, hcomma, hquote, hreturn, hfeed]
    refine ⟨.unquoted, ?_, .inl rfl⟩
    rw [run_cons, hstep, run_plain (fun b hb => hplain b (by simp [hb])) rfl]
    simp [take, hfield]

/-! ## Rows -/

/-- A written row is read whole behind the fields that were read before it. -/
theorem run_renderRow (hd : sym.Distinct) {fields : List (List α)} (hne : fields ≠ []) (hs : s.Fresh)
    (hstart : s.place = .fieldStart ∨ fields ≠ [[]]) :
    s.run sym (renderRow sym fields) = { rows := (s.row.reverse ++ fields) :: s.rows } := by
  induction fields generalizing s with
  | nil => exact absurd rfl hne
  | cons field fields ih =>
    obtain ⟨place, hrun, hplace⟩ := run_renderField hd field hs
    have hquoted : place ≠ .quoted := by
      obtain ⟨h, -⟩ := hs
      rcases hplace with rfl | rfl | ⟨rfl, -⟩
      · simp
      · simp
      · rcases h with h | h <;> simp [h]
    cases fields with
    | nil =>
      have hrow : place ≠ .rowStart := by
        rcases hplace with rfl | rfl | ⟨rfl, rfl⟩
        · simp
        · simp
        · rcases hstart with h | h
          · simp [h]
          · exact absurd rfl h
      rw [renderRow, run_append, hrun, run_cons, step_lineFeed hd hquoted hrow]
      simp [endRow]
    | cons other fields =>
      rw [renderRow, run_append, hrun, run_cons, step_comma hd hquoted, ih (by simp)]
      · simp [endField]
      · exact ⟨.inr rfl, rfl⟩
      · exact .inl rfl
      · simp

theorem run_renderRows (hd : sym.Distinct) {table : List (List (List α))} (hne : ∀ row ∈ table, row ≠ [] ∧ row ≠ [[]])
    (before : List (List (List α))) :
    Scan.run sym { rows := before } (renderRows sym table) = { rows := table.reverse ++ before } := by
  induction table generalizing before with
  | nil => rfl
  | cons row table ih =>
    obtain ⟨hrow, hempty⟩ := hne row (by simp)
    rw [renderRows, List.flatMap_cons, run_append, run_renderRow hd hrow ⟨.inl rfl, rfl⟩ (.inr hempty)]
    have hrest := ih (fun other hother => hne other (by simp [hother])) (row :: before)
    simpa [renderRows] using hrest

end Scan

/-- **Written rows are read back.** -/
theorem rows_renderRows (hd : sym.Distinct) {table : List (List (List α))}
    (hne : ∀ row ∈ table, row ≠ [] ∧ row ≠ [[]]) : rows sym (renderRows sym table) = table := by
  have hrun := Scan.run_renderRows hd hne []
  rw [Scan.run] at hrun
  simp [rows, hrun, Scan.finish]

end SatSearch.Csv
