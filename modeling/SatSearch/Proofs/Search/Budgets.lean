import SatSearch.Proofs.Search.Outcomes
/-!
# Searches under different budgets

What a search visits does not depend on its budget, which only says where it stops. So a search with a
larger budget goes on where the smaller one stopped, and one that had found a solution returns the same
result (`solve_extends`).

The assignment that the last step of the budget leaves is never looked at. Main statement on
exhausted searches: no other solution is lost, and this one is lost exactly if a budget of one more step
would have found it (`exhausted_misses_last`). Such searches exist (`single_loses_solution`).
-/

namespace SatSearch

namespace Solver

variable {S : Solver} {s : SearchState} {g g' : Generator} {i k n m : Nat} {res : SolveResult}
  {r : Reporter}

/-- The same search under another budget. -/
def withBudget (S : Solver) (n : Nat) : Solver :=
  { S with config := { S.config with maxIterations := n } }

/-! ## What does not depend on the budget -/

theorem after_withBudget (S : Solver) (n : Nat) : ∀ k, (S.withBudget n).after k = S.after k
  | 0 => rfl
  | k + 1 => by
    rw [after, after_withBudget S n k]
    rfl

theorem visits_withBudget : (S.withBudget n).Visits g k s ↔ S.Visits g k s := by
  rw [Visits, after_withBudget, Visits]

theorem moves_withBudget : (S.withBudget n).Moves g k ↔ S.Moves g k := by
  simp only [Moves, visits_withBudget]

/-- How the search under a budget of `n` ends, in terms of the steps that all budgets share. -/
theorem Ends.of_withBudget {result : Except Fault ((SolveResult × Reporter) × Generator)}
    (h : (S.withBudget m).Ends g n result) : S.Ends g n result := by
  cases h with
  | satisfied hi hs hm he =>
    rw [after_withBudget] at hs
    exact .satisfied hi hs (moves_withBudget.1 hm) he
  | exhausted hs hm =>
    rw [after_withBudget] at hs
    exact .exhausted hs (moves_withBudget.1 hm)
  | fault he =>
    rw [after_withBudget] at he
    exact .fault he

theorem solve_withBudget_ends (S : Solver) (n : Nat) (r : Reporter) (g : Generator) :
    S.Ends g n ((S.withBudget n).solve r g) :=
  (solve_ends (S.withBudget n) r g).of_withBudget

/-! ## A larger budget -/

/-- A solution found at step `i` is what every search ends with that has a budget of more than `i`
steps. -/
theorem Ends.eq_satisfied {result : Except Fault ((SolveResult × Reporter) × Generator)}
    (h : S.Ends g n result) (hi : i < n) (hs : S.after i g = .ok (s, g')) (hm : S.Moves g i)
    (he : s.unsatisfied.isEmpty = true) : ∃ r, result = .ok ((s.satisfiedResult i, r), g') := by
  cases h with
  | @satisfied j t g'' r hj ht hmoves hempty =>
    -- the first state in which the search can stop is the same one for both
    have hle : j ≤ i := hmoves.le_of_isEmpty ⟨g', hs⟩ he
    have hge : i ≤ j := hm.le_of_isEmpty ⟨g'', ht⟩ hempty
    obtain rfl : i = j := Nat.le_antisymm hge hle
    rw [hs] at ht
    cases ht
    exact ⟨r, rfl⟩
  | exhausted ht hmoves =>
    have hle := hmoves.le_of_isEmpty ⟨g', hs⟩ he
    omega
  | fault herror =>
    have hstays := after_add_of_isEmpty hs he (n - i)
    rw [Nat.add_sub_cancel' (Nat.le_of_lt hi), herror] at hstays
    cases hstays

/-- A search with more budget than moves that were possible counts at least these moves. -/
theorem Ends.le_steps {res : SolveResult} {r : Reporter} (h : S.Ends g n (.ok ((res, r), g')))
    (hk : k ≤ n) (hm : S.Moves g k) : k ≤ res.steps := by
  cases h with
  | satisfied hi hs hmoves he => exact hm.le_of_isEmpty ⟨g', hs⟩ he
  | exhausted hs hmoves => exact hk

/-- The trace of the longer of two searches begins with that of the other, which is cut off after its
last move and has its result's value at the end. -/
theorem Ends.trace_isPrefix {res' : SolveResult} {r' : Reporter} {g'' : Generator}
    (h : S.Ends g n (.ok ((res, r), g'))) (h' : S.Ends g m (.ok ((res', r'), g'')))
    (hle : res.steps ≤ res'.steps) {t t' : Array Float} (ht : res.trace = some t)
    (ht' : res'.trace = some t') : t.toList.dropLast <+: t'.toList := by
  obtain ⟨p, hp⟩ := exists_scores S g
  rw [h.trace_eq hp] at ht
  rw [h'.trace_eq hp] at ht'
  split at ht
  · next htracing =>
    rw [if_pos htracing] at ht'
    cases ht
    cases ht'
    rw [Array.toList_push, Array.toList_push, List.dropLast_concat]
    exact (recordTrace_isPrefix hle).trans (List.prefix_append _ _)
  · cases ht

/-- **A larger budget only extends a search.** Every search fails just where its steps fail. If the
smaller budget was enough for a solution, the larger one gives the same result and leaves the same
generator; if it was used up, the larger search takes at least as many steps, and its trace begins
with the trace of the smaller one without the entry at its end. -/
theorem solve_extends (S : Solver) (hle : n ≤ m) (r₁ r₂ : Reporter) (g : Generator) :
    (∀ e, (S.withBudget m).solve r₂ g = .error e ↔ S.after m g = .error e) ∧
    (∀ e, (S.withBudget n).solve r₁ g = .error e → (S.withBudget m).solve r₂ g = .error e) ∧
    ∀ res r g', (S.withBudget n).solve r₁ g = .ok ((res, r), g') →
      (res.termination = .satisfied →
        ∃ r', (S.withBudget m).solve r₂ g = .ok ((res, r'), g')) ∧
      (res.termination = .budgetExhausted → res.steps = n ∧
        ∀ res' r' g'', (S.withBudget m).solve r₂ g = .ok ((res', r'), g'') →
          n ≤ res'.steps ∧ res'.trace.isSome = res.trace.isSome ∧
          ∀ t t', res.trace = some t → res'.trace = some t' →
            t.toList.dropLast <+: t'.toList) := by
  have hfails : ∀ (k : Nat) (r : Reporter) (e : Fault),
      (S.withBudget k).solve r g = .error e ↔ S.after k g = .error e := by
    intro k r e
    rw [solve_eq_error_iff, after_withBudget]
    rfl
  have hends := solve_withBudget_ends S m r₂ g
  refine ⟨hfails m r₂, ?_, ?_⟩
  · intro e he
    have hstays := after_add_of_error ((hfails n r₁ e).1 he) (m - n)
    rw [Nat.add_sub_cancel' hle] at hstays
    exact (hfails m r₂ e).2 hstays
  · intro res r g' hsolve
    have hsmaller := solve_withBudget_ends S n r₁ g
    rw [hsolve] at hsmaller
    constructor
    · intro hsatisfied
      cases hsmaller with
      | satisfied hi hs hm he => exact hends.eq_satisfied (Nat.lt_of_lt_of_le hi hle) hs hm he
      | exhausted hs hm => cases hsatisfied
    · intro hexhausted
      have hsteps : res.steps = n ∧ S.Moves g n := by
        cases hsmaller with
        | satisfied hi hs hm he => cases hexhausted
        | exhausted hs hm => exact ⟨rfl, hm⟩
      obtain ⟨hn, hm⟩ := hsteps
      refine ⟨hn, ?_⟩
      intro res' r' g'' hlarger
      rw [hlarger] at hends
      have hlong : n ≤ res'.steps := hends.le_steps hle hm
      refine ⟨hlong, ?_, ?_⟩
      · rw [hends.isSome_trace, hsmaller.isSome_trace]
      · intro t t' ht ht'
        exact hsmaller.trace_isPrefix hends (hn.symm ▸ hlong) ht ht'

/-- A search for one step with a single clause, which the first assignment does not satisfy and the
second one does. -/
def single : Solver where
  formula := .ofClauses #[⟨[⟨0, true⟩]⟩]
  occurrences := ⟨#[#[0]]⟩
  config := { maxIterations := 1, seed := some 42 }

theorem solve_extends_single :
    (∃ res r g' res' r' g'', (single.withBudget 1).solve .silent (.ofSeed 42) = .ok ((res, r), g') ∧
      res.termination = .budgetExhausted ∧
      (single.withBudget 3).solve .silent (.ofSeed 42) = .ok ((res', r'), g'') ∧ 1 ≤ res'.steps) ∧
    ∃ res r g' r', (single.withBudget 2).solve .silent (.ofSeed 42) = .ok ((res, r), g') ∧
      res.termination = .satisfied ∧ res.steps = 1 ∧
      (single.withBudget 3).solve .attentive (.ofSeed 42) = .ok ((res, r'), g') := by
  constructor
  · obtain ⟨⟨⟨res, r⟩, g'⟩, hres, hexhausted⟩ := exists_eq_ok_of_map
      (x := (single.withBudget 1).solve .silent (.ofSeed 42)) (f := fun q => q.1.1.termination)
      (b := .budgetExhausted) (by decide +kernel)
    obtain ⟨⟨⟨res', r'⟩, g''⟩, hres'⟩ := exists_eq_ok_of_isOk
      (x := (single.withBudget 3).solve .silent (.ofSeed 42)) (by decide +kernel)
    have hextends := (solve_extends single (n := 1) (m := 3) (by decide) .silent .silent (.ofSeed 42)).2.2
    have hlonger := ((hextends res r g' hres).2 hexhausted).2 res' r' g'' hres'
    exact ⟨res, r, g', res', r', g'', hres, hexhausted, hres', hlonger.1⟩
  · obtain ⟨⟨⟨res, r⟩, g'⟩, hres, hresult⟩ := exists_eq_ok_of_map
      (x := (single.withBudget 2).solve .silent (.ofSeed 42))
      (f := fun q => (q.1.1.termination, q.1.1.steps)) (b := (.satisfied, 1)) (by decide +kernel)
    obtain ⟨hsatisfied, hsteps⟩ := Prod.mk.inj hresult
    have hextends := (solve_extends single (n := 2) (m := 3) (by decide) .silent .attentive (.ofSeed 42)).2.2
    obtain ⟨r', hsame⟩ := (hextends res r g' hres).1 hsatisfied
    exact ⟨res, r, g', r', hres, hsatisfied, hsteps, hsame⟩

/-! ## The last assignment of an exhausted search -/

section
variable (hb : Occurrences.build S.formula = .ok S.occurrences) (hd : S.drift.Reports S.formula)
include hb hd

/-- The best assignment of a run is one of those that it has moved on from. -/
theorem Moves.not_satisfiedBy_best (hm : S.Moves g k) (hs : S.Visits g k s) (hpos : 0 < k) :
    ¬ S.formula.SatisfiedBy s.bestAssignment := by
  obtain ⟨j, hj, hbest⟩ := exists_best hs hm
  obtain ⟨t, ht, hassignment, -⟩ := scored_eq_ok hbest
  have hlt : j < k := hj.elim id fun h => h ▸ hpos
  obtain ⟨u, hu, hnot⟩ := hm.not_satisfiedBy hb hd hlt
  rw [hu.unique ht, ← hassignment] at hnot
  exact hnot

/-- A budget of one more step than the moves of a run ends with the assignment that it is left with
exactly if that is a solution. -/
theorem Moves.satisfiedBy_iff_found (hm : S.Moves g k) (hs : S.Visits g k s) (r : Reporter) :
    S.formula.SatisfiedBy s.assignment ↔
      ∃ found r' g', (S.withBudget (k + 1)).solve r g = .ok ((found, r'), g') ∧
        found.termination = .satisfied ∧ found.steps = k ∧ found.assignment = s.assignment := by
  have hends := solve_withBudget_ends S (k + 1) r g
  rw [← (hs.tracks hb hd).isEmpty_iff]
  obtain ⟨g₁, hs⟩ := hs
  constructor
  · intro he
    obtain ⟨r', hfound⟩ := hends.eq_satisfied (Nat.lt_succ_self k) hs hm he
    exact ⟨_, r', g₁, hfound, rfl, rfl, rfl⟩
  · rintro ⟨found, r', g', hfound, hsatisfied, hsteps, -⟩
    rw [hfound] at hends
    cases hends with
    | @satisfied i t _ _ hi ht hmoves he =>
      obtain rfl : i = k := hsteps
      rw [hs] at ht
      cases ht
      exact he
    | exhausted ht hmoves => cases hsatisfied

end

/-- **What an exhausted search misses.** None of the assignments that it moved on from is a solution,
and neither is its result. The assignment that its last move leaves is not looked at: it is a
solution exactly if a budget of one more step ends with it. -/
theorem exhausted_misses_last {f : Formula} {config : SearchConfig} (hS : new f config = .ok S)
    {r' : Reporter} (hsolve : S.solve r g = .ok ((res, r'), g'))
    (hexhausted : res.termination = .budgetExhausted) :
    (∀ i < config.maxIterations, ∃ s, S.Visits g i s ∧ ¬ f.SatisfiedBy s.assignment) ∧
    ¬ f.SatisfiedBy res.assignment ∧
    ∃ s, S.Visits g config.maxIterations s ∧
      (f.SatisfiedBy s.assignment ↔
        ∃ found r'' g'', (S.withBudget (config.maxIterations + 1)).solve r g = .ok ((found, r''), g'') ∧
          found.termination = .satisfied ∧ found.steps = config.maxIterations ∧
          found.assignment = s.assignment) := by
  obtain ⟨o, hb, hv, rfl⟩ := new_eq_ok hS
  have hd : Drift.semantic.Reports f := Drift.reports_semantic f
  have hends := solve_ends { formula := f, occurrences := o, config } r g
  rw [hsolve] at hends
  cases hends with
  | satisfied hi hs hm he => cases hexhausted
  | @exhausted s _ _ hs hm =>
    have hpos : 0 < config.maxIterations :=
      maxIterations_pos (S := { formula := f, occurrences := o, config }) hv
    refine ⟨fun i hi => hm.not_satisfiedBy hb hd hi, hm.not_satisfiedBy_best hb hd ⟨g', hs⟩ hpos, s,
      ⟨g', hs⟩, ?_⟩
    exact hm.satisfiedBy_iff_found hb hd ⟨g', hs⟩ r

theorem exhausted_misses_last_single : ∃ res r g',
    new single.formula single.config = .ok single ∧
      single.solve .silent (.ofSeed 42) = .ok ((res, r), g') ∧ res.termination = .budgetExhausted ∧
      ¬ single.formula.SatisfiedBy res.assignment := by
  obtain ⟨⟨⟨res, r⟩, g'⟩, hres, hexhausted⟩ := exists_eq_ok_of_map
    (x := single.solve .silent (.ofSeed 42)) (f := fun q => q.1.1.termination)
    (b := .budgetExhausted) (by decide +kernel)
  have hS : new single.formula single.config = .ok single := rfl
  have hmisses := exhausted_misses_last hS hres hexhausted
  exact ⟨res, r, g', hS, hres, hexhausted, hmisses.2.1⟩

/-- An exhausted search whose last move left a solution, and whose result is none. -/
theorem single_loses_solution :
    new single.formula single.config = .ok single ∧
    ∃ res r g', single.solve .silent (single.config.generator (.ofSeed 0)) = .ok ((res, r), g') ∧
      res.termination = .budgetExhausted ∧ res.assignment = ⟨#[false]⟩ ∧
      ∃ s, single.Visits (single.config.generator (.ofSeed 0)) single.config.maxIterations s ∧
        s.assignment = ⟨#[true]⟩ ∧ single.formula.SatisfiedBy s.assignment := by
  have hsolve : (single.solve .silent (single.config.generator (.ofSeed 0))).toOption.map
      (fun q => (q.1.1.termination, q.1.1.assignment)) = some (.budgetExhausted, ⟨#[false]⟩) := by
    decide +kernel
  obtain ⟨⟨⟨res, r⟩, g'⟩, hres, hresult⟩ := exists_eq_ok_of_map hsolve
  obtain ⟨s, hs, hassignment⟩ := visits_of_eval (S := single) (k := 1)
    (g := single.config.generator (.ofSeed 0)) (F := (·.assignment)) (x := ⟨#[true]⟩) (by decide +kernel)
  obtain ⟨htermination, hlast⟩ := Prod.mk.inj hresult
  refine ⟨rfl, res, r, g', hres, htermination, hlast, s, hs, hassignment, ?_⟩
  rw [hassignment, Formula.SatisfiedBy]
  decide

end Solver

end SatSearch
