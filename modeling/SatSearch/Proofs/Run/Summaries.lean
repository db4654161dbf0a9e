import Mathlib.Order.Bounds.Basic
import SatSearch.Run.Summary
/-!
# Summaries of records in any order

A summary counts the records without an error and has the extremes of their numbers of steps (`Counts`). What it
counts is fixed by the records up to their order (`Counts.of_perm`), and of two lists in a row the counts add up and
the wider extremes win (`Counts.append`). Records with an error have no say in it, wherever they stand.

Main statement: `summarize_exact`.
-/

namespace SatSearch

variable {records records' : List BatchRecord} {r : BatchRecord} {s s' : BatchSummary}

namespace Summary

/-! ## The records without an error -/

theorem mem_valid : r ∈ valid records ↔ r ∈ records ∧ r.error = none := by
  simp [valid]

theorem valid_valid (records : List BatchRecord) : valid (valid records) = valid records := by
  simp [valid]

theorem valid_eq_nil_iff : valid records = [] ↔ ∀ r ∈ records, r.error ≠ none := by
  simp [valid]

/-- The numbers of steps of the records without an error. -/
def stepCounts (records : List BatchRecord) : Set Nat := {n | ∃ r ∈ records, r.error = none ∧ r.steps = n}

theorem mem_stepCounts {n : Nat} : n ∈ stepCounts records ↔ n ∈ (valid records).map (·.steps) := by
  simp [stepCounts, mem_valid, and_assoc]

theorem stepCounts_append (records records' : List BatchRecord) :
    stepCounts (records ++ records') = stepCounts records ∪ stepCounts records' := by
  ext n
  simp only [stepCounts, Set.mem_ofPred_eq, Set.mem_union, List.mem_append]
  constructor
  · rintro ⟨r, hr | hr, hn⟩
    · exact .inl ⟨r, hr, hn⟩
    · exact .inr ⟨r, hr, hn⟩
  · rintro (⟨r, hr, hn⟩ | ⟨r, hr, hn⟩)
    · exact ⟨r, .inl hr, hn⟩
    · exact ⟨r, .inr hr, hn⟩

theorem stepCounts_of_perm (h : records'.Perm records) : stepCounts records' = stepCounts records := by
  ext n
  simp [stepCounts, h.mem_iff]

/-! ## What a summary counts -/

/-- A summary that counts the records without an error, and knows the fewest and the most steps of them. -/
structure Counts (records : List BatchRecord) (s : BatchSummary) : Prop where
  instances_eq : s.instances = records.countP (·.error.isNone)
  solved_eq : s.solved = records.countP fun r => r.error.isNone && r.solved
  fewest : IsLeast (stepCounts records) s.steps.min
  most : IsGreatest (stepCounts records) s.steps.max

namespace Counts

theorem solved_le (h : Counts records s) : s.solved ≤ s.instances := by
  rw [h.instances_eq, h.solved_eq]
  exact List.countP_mono_left fun r _ => by simp +contextual

/-- The records leave no choice in what a summary counts. -/
theorem unique (h : Counts records s) (h' : Counts records s') :
    s'.instances = s.instances ∧ s'.solved = s.solved ∧ s'.steps.min = s.steps.min ∧
      s'.steps.max = s.steps.max :=
  ⟨h'.instances_eq.trans h.instances_eq.symm, h'.solved_eq.trans h.solved_eq.symm, h'.fewest.unique h.fewest,
    h'.most.unique h.most⟩

theorem of_perm (h : Counts records s) (hperm : records'.Perm records) : Counts records' s where
  instances_eq := by rw [hperm.countP_eq, h.instances_eq]
  solved_eq := by rw [hperm.countP_eq, h.solved_eq]
  fewest := by rw [stepCounts_of_perm hperm]; exact h.fewest
  most := by rw [stepCounts_of_perm hperm]; exact h.most

/-- The counts of two lists in a row. -/
theorem append (h : Counts records s) (h' : Counts records' s') {sum : BatchSummary}
    (hsum : Counts (records ++ records') sum) :
    sum.instances = s.instances + s'.instances ∧ sum.solved = s.solved + s'.solved ∧
      sum.steps.min = min s.steps.min s'.steps.min ∧ sum.steps.max = max s.steps.max s'.steps.max := by
  have hfewest := hsum.fewest
  have hmost := hsum.most
  rw [stepCounts_append] at hfewest hmost
  refine ⟨?_, ?_, hfewest.unique (h.fewest.union h'.fewest), hmost.unique (h.most.union h'.most)⟩
  · rw [hsum.instances_eq, List.countP_append, h.instances_eq, h'.instances_eq]
  · rw [hsum.solved_eq, List.countP_append, h.solved_eq, h'.solved_eq]

end Counts

/-- The extremes of counts that are not none at all. -/
theorem countSpread_spec {counts : List Nat} (h : counts ≠ []) :
    IsLeast {n | n ∈ counts} (countSpread counts).min ∧ IsGreatest {n | n ∈ counts} (countSpread counts).max := by
  obtain ⟨least, hleast⟩ := Option.isSome_iff_exists.1 (List.isSome_min?_of_ne_nil h)
  obtain ⟨greatest, hgreatest⟩ := Option.isSome_iff_exists.1 (List.isSome_max?_of_ne_nil h)
  simp only [countSpread, hleast, hgreatest, Option.getD_some]
  exact ⟨List.min?_eq_some_iff.1 hleast, List.max?_eq_some_iff.1 hgreatest⟩

end Summary

open Summary

/-! ## Summaries -/

theorem summarize_eq_none_iff : summarize records = none ↔ ∀ r ∈ records, r.error ≠ none := by
  rw [← valid_eq_nil_iff, summarize]
  simp

theorem summarize_valid (records : List BatchRecord) : summarize (valid records) = summarize records := by
  rw [summarize, valid_valid, summarize]

/-- A record with an error may stand anywhere. -/
theorem summarize_insert (h : r.error ≠ none) (before behind : List BatchRecord) :
    summarize (before ++ r :: behind) = summarize (before ++ behind) := by
  have hvalid : valid (before ++ r :: behind) = valid (before ++ behind) := by
    simp [valid, h]
  rw [← summarize_valid, hvalid, summarize_valid]

/-- What a record tells of its search. -/
def BatchRecord.outcome (r : BatchRecord) : Bool × Float × Nat × Float :=
  (r.solved, r.bestValence, r.steps, r.runtime)

/-- A summary rests on the outcomes of the records without an error, and on nothing else. -/
theorem summarize_congr (h : (valid records).map (·.outcome) = (valid records').map (·.outcome)) :
    summarize records = summarize records' := by
  have hlength : (valid records).length = (valid records').length := by
    simpa using congrArg List.length h
  have hsolved : (valid records).countP (·.solved) = (valid records').countP (·.solved) := by
    simpa [List.countP_map, Function.comp_def, BatchRecord.outcome] using congrArg (List.countP Prod.fst) h
  have hvalences : (valid records).map (·.bestValence) = (valid records').map (·.bestValence) := by
    simpa [Function.comp_def, BatchRecord.outcome] using congrArg (List.map (·.2.1)) h
  have hsteps : (valid records).map (·.steps) = (valid records').map (·.steps) := by
    simpa [Function.comp_def, BatchRecord.outcome] using congrArg (List.map (·.2.2.1)) h
  have hruntimes : (valid records).map (·.runtime) = (valid records').map (·.runtime) := by
    simpa [Function.comp_def, BatchRecord.outcome] using congrArg (List.map (·.2.2.2)) h
  have hempty : (valid records).isEmpty = (valid records').isEmpty := by
    rw [Bool.eq_iff_iff, List.isEmpty_iff_length_eq_zero, hlength, List.isEmpty_iff_length_eq_zero]
  simp only [summarize, hlength, hsolved, hvalences, hsteps, hruntimes, hempty]

theorem counts_of_summarize (h : summarize records = some s) : Counts records s := by
  unfold summarize at h
  dsimp only at h
  split at h
  · cases h
  next hne =>
  cases h
  have hsteps : {n | n ∈ (valid records).map (·.steps)} = stepCounts records := by
    ext n
    exact mem_stepCounts.symm
  obtain ⟨hfewest, hmost⟩ := countSpread_spec (show (valid records).map (·.steps) ≠ [] by simpa using hne)
  rw [hsteps] at hfewest hmost
  refine ⟨?_, ?_, hfewest, hmost⟩
  · simp [valid, List.countP_eq_length_filter]
  · simp [valid, List.countP_filter, Bool.and_comm]

theorem exists_summary (hr : r ∈ records) (herror : r.error = none) : ∃ s, summarize records = some s := by
  rw [← Option.ne_none_iff_exists', Ne, summarize_eq_none_iff]
  exact fun h => h r hr herror

/-- **A summary is about the records without an error, in any order.** There is one unless all records have an
error, and it is that of the list without those, wherever they stand. It counts the others and the solved ones
among them, and its extremes of the steps are attained by records without an error and bound all of them. None of
this changes with the order of the records, and of two lists in a row the counts add up, the smaller minimum and the
larger maximum remain. -/
theorem summarize_exact :
    (∀ records, summarize records = none ↔ ∀ r ∈ records, r.error ≠ none) ∧
    (∀ records, summarize records = summarize (records.filter (·.error.isNone))) ∧
    (∀ before r behind, r.error ≠ none → summarize (before ++ r :: behind) = summarize (before ++ behind)) ∧
    (∀ records s, summarize records = some s →
      s.instances = records.countP (·.error.isNone) ∧
      s.solved = records.countP (fun r => r.error.isNone && r.solved) ∧ s.solved ≤ s.instances ∧
      (∃ r ∈ records, r.error = none ∧ r.steps = s.steps.min) ∧
      (∃ r ∈ records, r.error = none ∧ r.steps = s.steps.max) ∧
      ∀ r ∈ records, r.error = none → s.steps.min ≤ r.steps ∧ r.steps ≤ s.steps.max) ∧
    (∀ records records' : List BatchRecord, records'.Perm records →
      (summarize records' = none ↔ summarize records = none) ∧
      ∀ s s', summarize records = some s → summarize records' = some s' →
        s'.instances = s.instances ∧ s'.solved = s.solved ∧ s'.steps.min = s.steps.min ∧
          s'.steps.max = s.steps.max) ∧
    ∀ records records' s s', summarize records = some s → summarize records' = some s' →
      ∃ sum, summarize (records ++ records') = some sum ∧
        sum.instances = s.instances + s'.instances ∧ sum.solved = s.solved + s'.solved ∧
        sum.steps.min = min s.steps.min s'.steps.min ∧ sum.steps.max = max s.steps.max s'.steps.max := by
  refine ⟨fun _ => summarize_eq_none_iff, fun records => (summarize_valid records).symm,
    fun before r behind h => summarize_insert h before behind, ?_, ?_, ?_⟩
  · intro records s hs
    have h := counts_of_summarize hs
    refine ⟨h.instances_eq, h.solved_eq, h.solved_le, h.fewest.1, h.most.1, fun r hr herror => ?_⟩
    exact ⟨h.fewest.2 ⟨r, hr, herror, rfl⟩, h.most.2 ⟨r, hr, herror, rfl⟩⟩
  · intro records records' hperm
    refine ⟨by simp [summarize_eq_none_iff, hperm.mem_iff], fun s s' hs hs' => ?_⟩
    exact (counts_of_summarize hs).unique ((counts_of_summarize hs').of_perm hperm.symm)
  · intro records records' s s' hs hs'
    have h := counts_of_summarize hs
    obtain ⟨r, hr, herror, -⟩ := h.fewest.1
    obtain ⟨sum, hsum⟩ := exists_summary (List.mem_append_left records' hr) herror
    exact ⟨sum, hsum, h.append (counts_of_summarize hs') (counts_of_summarize hsum)⟩

namespace Summary

/-- A record that was refused. -/
def refused : BatchRecord := ⟨"empty", 0, 0, none, false, 0.0, 0, 0.0, some "Empty formula"⟩

def solved : BatchRecord := ⟨"a", 3, 5, none, true, 1.0, 10, 0.5, none⟩

/-- A record that ran out of steps. -/
def exhausted : BatchRecord := ⟨"b", 3, 5, none, false, 0.8, 30, 1.5, none⟩

def quick : BatchRecord := ⟨"c", 4, 9, some 7, true, 1.0, 2, 0.25, none⟩

end Summary

theorem summarize_exact_mixed : ∃ s s' sum,
    summarize [refused, solved, exhausted] = some s ∧ summarize [exhausted, solved, refused] = some s' ∧
    summarize [refused, solved, exhausted, quick] = some sum ∧
    (s'.instances = 2 ∧ s'.solved = 1 ∧ s'.steps.min = 10 ∧ s'.steps.max = 30) ∧
    (sum.instances = 3 ∧ sum.solved = 2 ∧ sum.steps.min = 2 ∧ sum.steps.max = 30) ∧
    ∀ r ∈ [refused, solved, exhausted], r.error = none → s.steps.min ≤ r.steps ∧ r.steps ≤ s.steps.max := by
  obtain ⟨-, -, -, hcounts, hperm, happend⟩ := summarize_exact
  have hfirst : summarize [refused, solved, exhausted] = some ⟨2, 1, _, _, ⟨_, 10, 30⟩⟩ := rfl
  have hlast : summarize [quick] = some ⟨1, 1, _, _, ⟨_, 2, 2⟩⟩ := rfl
  have hreverse : [exhausted, solved, refused].Perm [refused, solved, exhausted] :=
    List.reverse_perm [refused, solved, exhausted]
  obtain ⟨s', hs'⟩ : ∃ s', summarize [exhausted, solved, refused] = some s' := ⟨_, rfl⟩
  obtain ⟨sum, hsum, hsums⟩ := happend _ _ _ _ hfirst hlast
  obtain ⟨-, -, -, -, -, hbounds⟩ := hcounts _ _ hfirst
  exact ⟨_, s', sum, hfirst, hs', hsum, (hperm _ _ hreverse).2 _ s' hfirst hs', hsums, hbounds⟩

end SatSearch
