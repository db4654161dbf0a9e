import SatSearch.Proofs.Search.Records
import SatSearch.Proofs.Search.Steps
/-!
# How a search ends

A search decides by its set of unsatisfied clauses whether to go on, and never evaluates the formula
again. Since the set is tracked, it stops exactly at the first visited assignment that
satisfies every clause, and a formula that has none uses the whole budget
(`solve_outcome_exact`).
-/

namespace SatSearch

namespace Formula

variable {f : Formula} {a : Assignment}

/-- A clause without literals is never satisfied. -/
theorem not_satisfiable_of_empty (h : ∃ c ∈ f.clauses, c.literals = []) : ¬ f.Satisfiable := by
  obtain ⟨c, hc, hempty⟩ := h
  rintro ⟨a, -, hs⟩
  have hfalse : c.isSatisfiedBy a = .ok false := by
    rw [Clause.isSatisfiedBy, hempty]
    rfl
  rw [hs c hc] at hfalse
  cases hfalse

end Formula

namespace Solver

variable {S : Solver} {s : SearchState} {g g' : Generator} {i k n : Nat} {res : SolveResult} {r : Reporter}

/-! ## Accepted searches -/

section
variable {f : Formula} {o : Occurrences} {config : SearchConfig}

theorem new_of_ok (hb : Occurrences.build f = .ok o) (hv : config.validate = .ok ()) :
    new f config = .ok { formula := f, occurrences := o, config } := by
  rw [new, hb]
  dsimp only
  rw [hv]

theorem new_eq_ok {S : Solver} (h : new f config = .ok S) :
    ∃ o, Occurrences.build f = .ok o ∧ config.validate = .ok () ∧
      S = { formula := f, occurrences := o, config } := by
  unfold new at h
  split at h
  · cases h
  · next o hb =>
    split at h
    · cases h
    · next hv =>
      cases h
      exact ⟨o, hb, hv, rfl⟩

end

/-- A valid search has a budget. -/
theorem maxIterations_pos (hv : S.config.validate = .ok ()) : 0 < S.config.maxIterations := by
  unfold SearchConfig.validate at hv
  split at hv
  · split at hv
    · cases hv
    · omega
  · cases hv

section
variable (hb : Occurrences.build S.formula = .ok S.occurrences) (hd : S.drift.Reports S.formula)
include hb hd

theorem Visits.tracks (h : S.Visits g k s) : s.Tracks S.formula := by
  obtain ⟨g', h⟩ := h
  exact tracks_after hb hd h

/-- The assignments that a run has moved on from do not satisfy the formula. -/
theorem Moves.not_satisfiedBy (hm : S.Moves g k) (hi : i < k) :
    ∃ s, S.Visits g i s ∧ ¬ S.formula.SatisfiedBy s.assignment := by
  obtain ⟨s, hs, he⟩ := hm i hi
  refine ⟨s, hs, ?_⟩
  rw [← (hs.tracks hb hd).isEmpty_iff, he]
  decide

theorem Moves.le_of_satisfiedBy (hm : S.Moves g k) (hs : S.Visits g i s)
    (hsat : S.formula.SatisfiedBy s.assignment) : k ≤ i := by
  by_contra hlt
  obtain ⟨t, ht, hnot⟩ := hm.not_satisfiedBy hb hd (i := i) (by omega)
  rw [ht.unique hs] at hnot
  exact hnot hsat

end

/-! ## The end of a search -/

/-- A result with the first visited assignment that satisfies every clause, and its number as the number of steps. -/
structure FoundFirst (S : Solver) (g : Generator) (res : SolveResult) : Prop where
  steps_lt : res.steps < S.config.maxIterations
  valence_eq : res.valence = 1.0
  satisfiedBy : S.formula.SatisfiedBy res.assignment
  visits : ∃ s, S.Visits g res.steps s ∧ res.assignment = s.assignment
  before : ∀ i < res.steps, ∃ s, S.Visits g i s ∧ ¬ S.formula.SatisfiedBy s.assignment

/-- A result with one of the visited assignments and its value, after as many steps as the budget allows. -/
structure SpentBudget (S : Solver) (g : Generator) (res : SolveResult) : Prop where
  termination_eq : res.termination = .budgetExhausted
  steps_eq : res.steps = S.config.maxIterations
  objective_eq : S.objective S.formula res.assignment = .ok res.valence
  visits : ∃ i < S.config.maxIterations, ∃ s, S.Visits g i s ∧ res.assignment = s.assignment

/-- What a result is, in terms of the assignments that the steps of its search visit. -/
structure Outcome (S : Solver) (g : Generator) (res : SolveResult) : Prop where
  satisfied_iff : res.termination = .satisfied ↔
    ∃ i < S.config.maxIterations, ∃ s, S.Visits g i s ∧ S.formula.SatisfiedBy s.assignment
  first : res.termination = .satisfied → S.FoundFirst g res
  spent : res.termination ≠ .satisfied → S.SpentBudget g res
  size_eq : res.assignment.size = S.formula.numVars
  spent_of_not_satisfiable : ¬ S.formula.Satisfiable ∨ (∃ c ∈ S.formula.clauses, c.literals = []) →
    res.termination = .budgetExhausted ∧ res.steps = S.config.maxIterations

section
variable (hb : Occurrences.build S.formula = .ok S.occurrences) (hd : S.drift.Reports S.formula)
include hb hd

/-- A run that stops where no clause is unsatisfied has found the first assignment that satisfies all of them. -/
theorem outcome_satisfied (hi : i < S.config.maxIterations) (hs : S.after i g = .ok (s, g')) (hm : S.Moves g i)
    (he : s.unsatisfied.isEmpty = true) : S.Outcome g (s.satisfiedResult i) := by
  have htracks : s.Tracks S.formula := tracks_after hb hd hs
  have hsat : S.formula.SatisfiedBy s.assignment := htracks.isEmpty_iff.1 he
  have hsatisfiable : S.formula.Satisfiable := ⟨s.assignment, htracks.size_eq, hsat⟩
  exact
    { satisfied_iff := ⟨fun _ => ⟨i, hi, s, ⟨g', hs⟩, hsat⟩, fun _ => rfl⟩
      first := fun _ =>
        { steps_lt := hi
          valence_eq := rfl
          satisfiedBy := hsat
          visits := ⟨s, ⟨g', hs⟩, rfl⟩
          before := fun j hj => hm.not_satisfiedBy hb hd hj }
      spent := fun hne => absurd rfl hne
      size_eq := htracks.size_eq
      spent_of_not_satisfiable := by
        rintro (hnone | hempty)
        · exact absurd hsatisfiable hnone
        · exact absurd hsatisfiable (Formula.not_satisfiable_of_empty hempty) }

/-- A run that uses up its budget has visited no assignment that satisfies every clause. -/
theorem outcome_exhausted (hpos : 0 < S.config.maxIterations) (hs : S.Visits g S.config.maxIterations s)
    (hm : S.Moves g S.config.maxIterations) : S.Outcome g (s.exhaustedResult S.config.maxIterations) := by
  obtain ⟨j, hj, hbest⟩ := exists_best hs hm
  obtain ⟨t, ht, hassignment, hobjective⟩ := scored_eq_ok hbest
  have hsize := (ht.tracks hb hd).size_eq
  rw [← hassignment] at hsize
  exact
    { satisfied_iff := by
        constructor
        · intro hsat
          cases hsat
        · rintro ⟨i, hi, u, hu, hsat⟩
          have hle := hm.le_of_satisfiedBy hb hd hu hsat
          omega
      first := fun hsat => by cases hsat
      spent := fun _ =>
        { termination_eq := rfl
          steps_eq := rfl
          objective_eq := hobjective
          visits := ⟨j, by omega, t, ht, hassignment⟩ }
      size_eq := hsize
      spent_of_not_satisfiable := fun _ => ⟨rfl, rfl⟩ }

end

/-- **How a search ends, in terms of the assignments that its steps visit.** It fails where they
cannot be drawn. Otherwise it is satisfied exactly if one within the budget satisfies every
clause, and then the first such assignment is the result, with its number as the number of steps; else
the whole budget is used and the result is one of the visited assignments with its own value. -/
theorem solve_outcome_exact (S : Solver) (hb : Occurrences.build S.formula = .ok S.occurrences)
    (hv : S.config.validate = .ok ()) (hd : S.drift.Reports S.formula) (r : Reporter) (g : Generator) :
    (∀ e, S.solve r g = .error e ↔ S.after S.config.maxIterations g = .error e) ∧
    (S.objective.Answers S.formula → S.drift.Answers S.formula →
      ∀ e, S.solve r g = .error e → e = .endlessDraw) ∧
    ∀ res r' g', S.solve r g = .ok ((res, r'), g') → S.Outcome g res := by
  refine ⟨fun e => solve_eq_error_iff, fun ho ha e he => after_eq_error hb hd ho ha (solve_eq_error_iff.1 he), ?_⟩
  intro res r' g' hsolve
  have hends := solve_ends S r g
  rw [hsolve] at hends
  cases hends with
  | satisfied hi hs hm he => exact outcome_satisfied hb hd hi hs hm he
  | exhausted hs hm => exact outcome_exhausted hb hd (maxIterations_pos hv) ⟨g', hs⟩ hm

theorem solve_outcome_exact_mixed : ∃ res r g', mixed.config.validate = .ok () ∧
    mixed.solve .silent (.ofSeed 2) = .ok ((res, r), g') ∧ res.termination = .budgetExhausted ∧
      res.steps = 3 ∧ res.assignment.size = 3 := by
  have hv : mixed.config.validate = .ok () := rfl
  have hd : mixed.drift.Reports mixed.formula := Drift.reports_semantic _
  have hempty : ∃ c ∈ mixed.formula.clauses, c.literals = [] := by decide
  obtain ⟨⟨⟨res, r⟩, g'⟩, hsolve⟩ : ∃ q, mixed.solve .silent (.ofSeed 2) = .ok q :=
    exists_eq_ok_of_isOk (by decide +kernel)
  have hexact := (solve_outcome_exact mixed rfl hv hd .silent (.ofSeed 2)).2.2 res r g' hsolve
  obtain ⟨hexhausted, hsteps⟩ := hexact.spent_of_not_satisfiable (.inr hempty)
  exact ⟨res, r, g', hv, hsolve, hexhausted, hsteps, hexact.size_eq⟩

end Solver

end SatSearch
