import Mathlib.Data.List.Permutation
import SatSearch.Proofs.Decimal.Places
import SatSearch.Proofs.Run.Summaries
import SatSearch.Run.Report
/-!
# Rankings of rows

The rows of a table are ranked by the total order of bit patterns: sign before magnitude, magnitudes of negative
values mirrored (`FloatBits.rank_le_iff`). A ranking shows the first rows in this order, and of equal rows those that
stand first in the table (`isRanking_take_mergeSort`); that holds of the order and of its converse alike, so ties are
not mirrored where the highest value is shown first. The line of a row has its name, its value and whether it was
solved (`Shows`).

Main statement: `Report.rankings_exact`.
-/

namespace SatSearch

/-! ## The total order of bit patterns -/

namespace FloatBits

/-- Whether the bit for the sign is set. -/
def IsNegative (b : FloatBits) : Prop := Numeral.signedLimit ≤ b.word.toNat

/-- The bits behind the one for the sign, as a number. -/
def magnitude (b : FloatBits) : Nat := b.word.toNat % Numeral.signedLimit

/-- The total order: what is negative comes before what is not, among the negative ones the greater magnitude comes
first, among the others the lesser one. -/
def TotalLe (a b : FloatBits) : Prop :=
  (a.IsNegative ∧ ¬ b.IsNegative) ∨ (a.IsNegative ∧ b.IsNegative ∧ b.magnitude ≤ a.magnitude) ∨
    (¬ a.IsNegative ∧ ¬ b.IsNegative ∧ a.magnitude ≤ b.magnitude)

theorem rank_le_iff {a b : FloatBits} : a.rank ≤ b.rank ↔ a.TotalLe b := by
  have ha := a.word.toNat_lt
  have hb := b.word.toNat_lt
  simp only [rank, TotalLe, IsNegative, magnitude, Numeral.signedLimit, Numeral.countLimit]
  by_cases hna : a.word.toNat < 9223372036854775808 <;> by_cases hnb : b.word.toNat < 9223372036854775808 <;>
    simp only [hna, hnb, if_true, if_false] <;> omega

end FloatBits

namespace Report

/-! ## The first of a sorted list -/

section
variable {α : Type} {le : α → α → Prop} {rows shown : List α}

/-- The row at place `i` is ranked before the one at place `j`: no later in the order, and if they are equal in it
then earlier in the table. -/
def Leads (le : α → α → Prop) (rows : List α) (i j : Nat) : Prop :=
  ∃ a b, rows[i]? = some a ∧ rows[j]? = some b ∧ le a b ∧ (le b a → i < j)

/-- The rows shown are those at some places, as many as fit and there are, no place twice; each leads the ones shown
behind it and all that are left out. -/
structure IsRanking (le : α → α → Prop) (size : Nat) (rows shown : List α) (places : List Nat) : Prop where
  shown_eq : shown.map some = places.map (rows[·]?)
  length_eq : places.length = min size rows.length
  nodup : places.Nodup
  leads_behind : places.Pairwise (Leads le rows)
  leads_others : ∀ i ∈ places, ∀ j < rows.length, j ∉ places → Leads le rows i j

theorem leads_of_zipIdxLE [DecidableRel le] {p q : α × Nat} (hp : p ∈ rows.zipIdx) (hq : q ∈ rows.zipIdx)
    (hne : p.2 ≠ q.2) (h : List.zipIdxLE (fun a b => decide (le a b)) p q = true) : Leads le rows p.2 q.2 := by
  refine ⟨p.1, q.1, List.mem_zipIdx_iff_getElem?.1 hp, List.mem_zipIdx_iff_getElem?.1 hq, ?_⟩
  simp only [List.zipIdxLE, decide_eq_true_eq] at h
  split at h
  · next hle =>
    refine ⟨hle, fun hge => ?_⟩
    simp only [hge, if_true, decide_eq_true_eq] at h
    omega
  · cases h

/-- Sorting keeps equal rows in order, so the first rows of the sorted table are a ranking. -/
theorem isRanking_take_mergeSort (le : α → α → Prop) [DecidableRel le] (htrans : ∀ a b c, le a b → le b c → le a c)
    (htotal : ∀ a b, le a b ∨ le b a) (size : Nat) (rows : List α) :
    ∃ places, IsRanking le size rows ((rows.mergeSort fun a b => decide (le a b)).take size) places := by
  -- the rows are sorted together with their places, which settles ties
  let sorted := rows.zipIdx.mergeSort (List.zipIdxLE fun a b => decide (le a b))
  have hperm : sorted.Perm rows.zipIdx := List.mergeSort_perm _ _
  have hsorted : sorted.Pairwise fun p q => List.zipIdxLE (fun a b => decide (le a b)) p q = true :=
    List.pairwise_mergeSort (List.zipIdxLE_trans (by simpa using htrans))
      (List.zipIdxLE_total (by simpa using htotal)) _
  have hplaces : (sorted.map Prod.snd).Nodup := by
    rw [(hperm.map _).nodup_iff]
    simp [List.nodup_range']
  have hleads : sorted.Pairwise fun p q => Leads le rows p.2 q.2 := by
    refine (hsorted.and (List.pairwise_map.1 hplaces)).imp_of_mem fun hp hq h => ?_
    exact leads_of_zipIdxLE (hperm.mem_iff.1 hp) (hperm.mem_iff.1 hq) h.2 h.1
  refine ⟨(sorted.take size).map Prod.snd, ?_, ?_, ?_, ?_, ?_⟩
  · rw [← List.mergeSort_zipIdx, ← List.map_take, List.map_map, List.map_map]
    refine List.map_congr_left fun p hp => ?_
    exact (List.mem_zipIdx_iff_getElem?.1 (hperm.mem_iff.1 (List.mem_of_mem_take hp))).symm
  · simp [hperm.length_eq]
  · rw [List.map_take]
    exact hplaces.sublist (List.take_sublist _ _)
  · exact List.pairwise_map.2 (hleads.sublist (List.take_sublist _ _))
  · intro i hi j hj hnot
    obtain ⟨p, hp, rfl⟩ := List.mem_map.1 hi
    have hq : (rows[j], j) ∈ sorted := hperm.mem_iff.2 (List.mem_zipIdx_iff_getElem?.2 (by simp))
    rw [← List.take_append_drop size sorted, List.mem_append] at hq
    obtain hq | hq := hq
    · exact absurd (List.mem_map_of_mem hq) hnot
    · exact hleads.rel_of_mem_take_of_mem_drop hp hq

end

/-! ## The two rankings of a report -/

theorem isRanking_fastest (rows : List ResultRow) :
    ∃ places, IsRanking (fun a b => a.runtime.TotalLe b.runtime) rankingSize rows (fastest rows) places := by
  have h := isRanking_take_mergeSort (fun a b : ResultRow => a.runtime.rank ≤ b.runtime.rank)
    (fun _ _ _ => Nat.le_trans) (fun _ _ => Nat.le_total _ _) rankingSize rows
  simp only [FloatBits.rank_le_iff] at h
  exact h

theorem isRanking_strongest (rows : List ResultRow) :
    ∃ places, IsRanking (fun a b => b.bestValence.TotalLe a.bestValence) rankingSize rows (strongest rows) places := by
  have h := isRanking_take_mergeSort (fun a b : ResultRow => b.bestValence.rank ≤ a.bestValence.rank)
    (fun _ _ _ hab hbc => Nat.le_trans hbc hab) (fun _ _ => Nat.le_total _ _) rankingSize rows
  simp only [FloatBits.rank_le_iff] at h
  exact h

theorem exists_summary_of_rows {rows : List ResultRow} (h : rows ≠ []) :
    ∃ s, summarize (rows.map ResultRow.toRecord) = some s := by
  obtain ⟨row, rows, rfl⟩ := List.exists_cons_of_ne_nil h
  exact exists_summary (r := row.toRecord) (by simp) rfl

/-! ## Lines -/

/-- A line shows a row with a value: its file or, if it has none, what is known of its instance, filled up with blanks
to 32 characters; the value with a fixed number of places at the right of a field; and whether it was solved. -/
def Shows (r : ResultRow) (places width : Nat) (x : Float) (unit line : String) : Prop :=
  ∃ name value : String,
    name = r.filename.getD ("n=" ++ (r.n.map toString).getD "?" ++ " m=" ++ (r.m.map toString).getD "?" ++
      " seed=" ++ (r.seed.map fun s => toString s.toNat).getD "?") ∧
    value = Decimal.fixed places x ∧ Decimal.IsFixed places (Decimal.partsOf x) value.toList ∧
    line = "  " ++ name ++ String.ofList (List.replicate (32 - name.length) ' ') ++ " " ++
      String.ofList (List.replicate (width - value.length) ' ') ++ value ++ unit ++ "  solved=" ++
      if r.solved then "true" else "false"

theorem label_eq (r : ResultRow) : r.label =
    r.filename.getD ("n=" ++ (r.n.map toString).getD "?" ++ " m=" ++ (r.m.map toString).getD "?" ++
      " seed=" ++ (r.seed.map fun s => toString s.toNat).getD "?") := by
  unfold ResultRow.label
  cases r.filename <;> rfl

theorem shows_fastestLine (r : ResultRow) : Shows r 3 12 (r.runtime.toFloat * 1000.0) " ms" (fastestLine r) := by
  refine ⟨r.label, _, label_eq r, rfl, Decimal.isFixed_fixed (by decide) _, ?_⟩
  have hunit : " ms" ++ "  solved=" = " ms  solved=" := by decide
  rw [fastestLine, ← hunit]
  simp only [atLeft, atRight, blanks, milliseconds, boolText, String.append_assoc]

theorem shows_strongestLine (r : ResultRow) : Shows r 4 8 r.bestValence.toFloat "" (strongestLine r) := by
  refine ⟨r.label, _, label_eq r, rfl, Decimal.isFixed_fixed (by decide) _, ?_⟩
  rw [strongestLine]
  simp only [atLeft, atRight, blanks, valence, boolText, String.append_assoc, String.empty_append]

/-- **The top lists of a report are rankings.** Of any rows at all, the fastest ones are as many as there are, at
most five, at different places of the table; each is no slower in the total order of bit patterns than the ones
behind it and all that are left out, and where it is no faster either it stands before them in the table. The ones of
the highest valence are the same for the converse order of valences, in which ties go by the table as well. The
report on a table that has rows shows both, line by line: of each row its name, its time in milliseconds or its
valence, and whether it was solved. -/
theorem rankings_exact (rows : List ResultRow) (h : rows ≠ []) :
    (∃ places, IsRanking (fun a b => a.runtime.TotalLe b.runtime) 5 rows (fastest rows) places) ∧
    (∃ places, IsRanking (fun a b => b.bestValence.TotalLe a.bestValence) 5 rows (strongest rows) places) ∧
    ∃ s fastestLines strongestLines, summarize (rows.map ResultRow.toRecord) = some s ∧
      List.Forall₂ (fun r => Shows r 3 12 (r.runtime.toFloat * 1000.0) " ms") (fastest rows) fastestLines ∧
      List.Forall₂ (fun r => Shows r 4 8 r.bestValence.toFloat "") (strongest rows) strongestLines ∧
      render? rows = some (String.join ((["", "===== Batch Summary =====", ""] ++ summaryLines s ++
        ["", "Top 5 fastest:"] ++ fastestLines ++ ["", "Top 5 highest valence:"] ++ strongestLines ++
        ["", "===== End of Summary =====", ""]).map (· ++ "\n"))) := by
  obtain ⟨s, hs⟩ := exists_summary_of_rows h
  refine ⟨isRanking_fastest rows, isRanking_strongest rows, s, (fastest rows).map fastestLine,
    (strongest rows).map strongestLine, hs, ?_, ?_, ?_⟩
  · exact List.forall₂_map_right_iff.2 (List.forall₂_same.2 fun r _ => shows_fastestLine r)
  · exact List.forall₂_map_right_iff.2 (List.forall₂_same.2 fun r _ => shows_strongestLine r)
  · have hfastest : "Top " ++ toString rankingSize ++ " fastest:" = "Top 5 fastest:" := by decide
    have hstrongest : "Top " ++ toString rankingSize ++ " highest valence:" = "Top 5 highest valence:" := by decide
    rw [render?, hs, Option.map_some, lines, hfastest, hstrongest]

/-- A row that is known by its number of variables. -/
def numbered (n : Nat) (runtime bestValence : UInt64) : ResultRow :=
  { filename := none, n, m := none, seed := none, solved := false, bestValence := ⟨bestValence⟩, steps := 0
    runtime := ⟨runtime⟩ }

/-- Both missing numbers, both zeros, an infinity and two equal rows. -/
def special : List ResultRow :=
  [numbered 0 0x7ff8000000000000 0, numbered 1 0x3fe0000000000000 0x3ff0000000000000, numbered 2 0 0x8000000000000000,
    numbered 3 0x3fe0000000000000 0x3ff0000000000000, numbered 4 0x8000000000000000 0x7ff8000000000000,
    numbered 5 0x7ff0000000000000 0xfff8000000000000, numbered 6 0xfff8000000000000 0]

theorem rankings_exact_special :
    special ≠ [] ∧ (fastest special).map (·.n) = [some 6, some 4, some 2, some 1, some 3] ∧
    (strongest special).map (·.n) = [some 4, some 1, some 3, some 0, some 6] ∧
    (∃ places, IsRanking (fun a b => a.runtime.TotalLe b.runtime) 5 special (fastest special) places) ∧
    (∃ places, IsRanking (fun a b => b.bestValence.TotalLe a.bestValence) 5 special (strongest special) places) ∧
    (∃ lines, List.Forall₂ (fun r => Shows r 3 12 (r.runtime.toFloat * 1000.0) " ms") (fastest special) lines) ∧
    (render? special).isSome := by
  have hne : special ≠ [] := List.cons_ne_nil _ _
  obtain ⟨hfastest, hstrongest, s, lines, _, -, hlines, -, htext⟩ := rankings_exact special hne
  refine ⟨hne, by cbv, by cbv, hfastest, hstrongest, ⟨lines, hlines⟩, ?_⟩
  rw [htext]
  rfl

end Report

end SatSearch
