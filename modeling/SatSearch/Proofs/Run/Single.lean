import SatSearch.Proofs.Run.Safety
import SatSearch.Proofs.Search.Observers
/-!
# One formula, solved alone

What the answer to a formula rests on. With a seed it is the same one whatever else there is to draw from
(`solveFormula_congr`) and for every listener (`solveFormula_listener`), and a solution that it tells of is
there (`satisfiable_of_report`).
-/

namespace SatSearch

variable {f : Formula} {config : SearchConfig} {seed : UInt64} {fresh fresh' : Generator} {r r' r₁ : Reporter}
  {answer : Except SearchError SolveReport} {report : SolveReport} {e : Fault}

theorem SearchConfig.generator_of_seed (h : config.seed = some seed) (fresh : Generator) :
    config.generator fresh = .ofSeed seed := by
  rw [generator, h]

theorem solveFormula_eq_ok (h : solveFormula f config fresh r = .ok (.ok report, r')) :
    ∃ S r₁ r₂ g', Solver.new f config = .ok S ∧
      S.solve r₁ (config.generator fresh) = .ok ((report.result, r₂), g') := by
  unfold solveFormula at h
  split at h
  · cases h
  · next S hS =>
    dsimp only at h
    split at h
    · cases h
    · next res r₂ g' hsolve =>
      cases h
      exact ⟨S, _, r₂, g', hS, hsolve⟩

theorem solveFormula_eq_error (h : solveFormula f config fresh r = .error e) : e = .endlessDraw := by
  cases hS : Solver.new f config with
  | error refusal =>
    rw [solveFormula_of_new_eq_error config fresh r hS] at h
    cases h
  | ok S =>
    obtain ⟨report, r', hok, -⟩ | hendless := solveFormula_of_new hS fresh r
    · rw [hok] at h
      cases h
    · rw [hendless] at h
      cases h
      rfl

/-- Who is told that a formula is solved holds an assignment that solves it. -/
theorem satisfiable_of_report (h : solveFormula f config fresh r = .ok (.ok report, r'))
    (hsolved : report.result.isSolved = true) : f.Satisfiable := by
  obtain ⟨S, r₁, r₂, g', hS, hsolve⟩ := solveFormula_eq_ok h
  have hends := Solver.solve_ends S r₁ (config.generator fresh)
  rw [hsolve] at hends
  generalize report.result = res at hends hsolved
  obtain ⟨o, hb, -, rfl⟩ := Solver.new_eq_ok hS
  cases hends with
  | @satisfied i s _ _ hi hs hm he =>
    have htracks := Solver.tracks_after hb (Drift.reports_semantic f) hs
    exact ⟨s.assignment, htracks.size_eq, htracks.isEmpty_iff.1 he⟩
  | exhausted hs hm => cases hsolved

/-- With a seed nothing is taken from elsewhere. -/
theorem solveFormula_congr (h : config.seed = some seed) (fresh fresh' : Generator) (r : Reporter) :
    solveFormula f config fresh r = solveFormula f config fresh' r := by
  unfold solveFormula
  rw [SearchConfig.generator_of_seed h, SearchConfig.generator_of_seed h]

/-- A listener is only told. -/
theorem solveFormula_listener (f : Formula) (config : SearchConfig) (fresh : Generator) (r r₁ : Reporter) :
    (solveFormula f config fresh r).map Prod.fst = (solveFormula f config fresh r₁).map Prod.fst := by
  unfold solveFormula
  cases Solver.new f config with
  | error refusal => rfl
  | ok S =>
    dsimp only
    generalize ((r.report (.phaseStart "Preparation")).report .phaseFinish).report
      (.phaseStart "Searching") = r
    generalize ((r₁.report (.phaseStart "Preparation")).report .phaseFinish).report
      (.phaseStart "Searching") = r₁
    have hsame := S.solve_listener r r₁
    cases hsolve : S.solve r (config.generator fresh) with
    | error e => rw [Draw.error_of_map_eq hsame hsolve]
    | ok q =>
      obtain ⟨⟨res, r'⟩, g'⟩ := q
      obtain ⟨⟨res₁, r₂⟩, hsolve₁, hres⟩ := Draw.ok_of_map_eq hsame hsolve
      dsimp only at hres
      rw [hsolve₁, hres]
      rfl

section
variable (hseed : config.seed = some seed) (fresh' : Generator) (r₁ : Reporter)
include hseed

theorem solveFormula_alone_ok (h : solveFormula f config fresh r = .ok (answer, r')) :
    ∃ r₂, solveFormula f config fresh' r₁ = .ok (answer, r₂) := by
  have hsame := solveFormula_listener f config fresh r r₁
  rw [solveFormula_congr hseed fresh fresh' r₁, h] at hsame
  cases h' : solveFormula f config fresh' r₁ with
  | error e =>
    rw [h'] at hsame
    cases hsame
  | ok q =>
    rw [h'] at hsame
    cases hsame
    exact ⟨q.2, rfl⟩

end

end SatSearch
