import SatSearch.Proofs.Cnf.Planted
import SatSearch.Proofs.Run.Single
import SatSearch.Run.SweepPlan
/-!
# Searching a planted instance from its own seed

The hidden assignment is the first thing that a generator gives, and so is the assignment that a
search starts from. With one seed for both, the search starts from the values of the hidden assignment,
which satisfy every clause: it never takes a step (`solveFormula_planted`).
-/

namespace SatSearch

open Draw (bind_of_ok lift_ok)

variable {config : SearchConfig} {f : Formula} {o : Occurrences} {seed : UInt64} {n : Nat}
  {numClauses : Option Nat} {planted : Planted.Instance} {g g' : Generator}

namespace Solver

/-- A search starts from the first assignment of its generator. -/
theorem start_of_random {S : Solver} {a : Assignment} (hb : Occurrences.build S.formula = .ok S.occurrences)
    (ho : S.objective.Answers S.formula) (ha : Assignment.random S.formula.numVars g = .ok (a, g')) :
    ∃ s, S.start g = .ok (s, g') ∧ s.assignment = a ∧ s.Tracks S.formula := by
  have hsize : a.size = S.formula.numVars := Assignment.size_of_random_eq_ok ha
  rw [← Occurrences.numVars_build hb] at ha
  obtain ⟨valence, hvalence⟩ := ho a hsize
  obtain ⟨s, hs, hassignment, htracks⟩ := SearchState.init_spec hsize valence S.config.recordTrace
  refine ⟨s, ?_, hassignment, htracks⟩
  rw [start, bind_of_ok ha, hvalence, bind_of_ok (lift_ok valence g'), hs]
  rfl

end Solver

/-! ## One seed for the instance and the search -/

section
variable {S : Solver} (hseed : config.seed = some seed)
  (hplanted : Planted.generate n numClauses (.ofSeed seed) = .ok (.ok planted, g'))
  (hS : Solver.new planted.formula config = .ok S)
include hseed hplanted hS

/-- The search starts from the first values of the hidden assignment. -/
theorem Solver.start_planted (fresh : Generator) :
    ∃ s g₁, S.start (config.generator fresh) = .ok (s, g₁) ∧
      s.assignment = planted.hidden.firstValues planted.formula.numVars ∧
      s.unsatisfied.isEmpty = true := by
  obtain ⟨o, hb, -, rfl⟩ := Solver.new_eq_ok hS
  obtain ⟨⟨g₁, hrandom⟩, hsize, hagrees⟩ := Planted.generate_eq_ok hplanted
  have hle : planted.formula.numVars ≤ n := by
    rw [← hsize]
    exact Planted.numVars_le hagrees
  obtain ⟨g₂, hfirst⟩ := Assignment.random_prefix hle hrandom
  rw [SearchConfig.generator_of_seed hseed]
  obtain ⟨s, hs, hassignment, htracks⟩ := Solver.start_of_random
    (S := { formula := planted.formula, occurrences := o, config }) hb
    (Objective.answers_valence planted.formula) hfirst
  refine ⟨s, g₂, hs, hassignment, ?_⟩
  rw [htracks.isEmpty_iff, hassignment]
  exact Planted.satisfiedBy_firstValues hagrees

/-- **A planted instance is solved before the first step.** -/
theorem solveFormula_planted (fresh : Generator) (r : Reporter) :
    ∃ report r', solveFormula planted.formula config fresh r = .ok (.ok report, r') ∧
      report.result.termination = .satisfied ∧ report.result.steps = 0 ∧
      report.result.valence = 1.0 ∧
      report.result.assignment = planted.hidden.firstValues planted.formula.numVars := by
  obtain ⟨s, g₁, hs, hassignment, hempty⟩ := Solver.start_planted hseed hplanted hS fresh
  have hpos : 0 < S.config.maxIterations := by
    obtain ⟨o, -, hv, rfl⟩ := Solver.new_eq_ok hS
    exact Solver.maxIterations_pos hv
  obtain ⟨r', hsolve⟩ := Solver.solve_of_start
    (r := ((r.report (.phaseStart "Preparation")).report .phaseFinish).report (.phaseStart "Searching"))
    hs hempty hpos
  refine ⟨⟨s.satisfiedResult 0, planted.formula.numVars, planted.formula.numClauses⟩,
    r'.report .phaseFinish, ?_, rfl, rfl, rfl, hassignment⟩
  unfold solveFormula
  rw [hS]
  dsimp only
  rw [hsolve]

end

/-- Every report on a planted instance from its own seed tells so. -/
theorem report_planted (hseed : config.seed = some seed)
    (hplanted : Planted.generate n numClauses (.ofSeed seed) = .ok (.ok planted, g'))
    {fresh : Generator} {r r' : Reporter} {report : SolveReport}
    (h : solveFormula planted.formula config fresh r = .ok (.ok report, r')) :
    report.result.isSolved = true ∧ report.result.steps = 0 ∧ report.result.valence = 1.0 := by
  obtain ⟨S, -, -, -, hS, -⟩ := solveFormula_eq_ok h
  obtain ⟨report', r'', h', htermination, hsteps, hvalence, -⟩ := solveFormula_planted hseed hplanted hS fresh r
  rw [h] at h'
  cases h'
  refine ⟨?_, hsteps, hvalence⟩
  rw [SolveResult.isSolved, htermination]
  rfl

/-! ## Jobs of a sweep -/

/-- The formula of the job is a planted one, drawn from the job's own seed. -/
def BatchJob.IsPlanted (job : BatchJob) : Prop :=
  ∃ n numClauses seed planted g', job.seed = some seed ∧ job.formula = planted.formula ∧
    Planted.generate n numClauses (.ofSeed seed) = .ok (.ok planted, g')

/-- The record tells of a solution that took no step, unless it tells of an error. -/
def BatchRecord.SolvedAtOnce (r : BatchRecord) : Prop :=
  r.error = none → r.solved = true ∧ r.steps = 0 ∧ r.bestValence = 1.0

theorem SweepPoint.isPlanted_job {p : SweepPoint} {ratio : Float} {job : BatchJob}
    (h : p.job ratio = .ok (.ok job)) : job.IsPlanted := by
  unfold SweepPoint.job at h
  split at h
  · cases h
  · cases h
  · next planted g' hplanted =>
    cases h
    exact ⟨_, _, _, planted, g', rfl, rfl, hplanted⟩

theorem Batch.solvedAtOnce_solveJob {job : BatchJob} (hjob : job.IsPlanted) {fresh : Generator}
    {position : Nat} {record : BatchRecord}
    (h : Batch.solveJob config fresh position job = .ok record) : record.SolvedAtOnce := by
  obtain ⟨n, numClauses, seed, planted, g', hseed, hformula, hplanted⟩ := hjob
  intro herror
  unfold Batch.solveJob at h
  rw [Batch.seedFor, hseed, hformula] at h
  dsimp only at h
  split at h
  · cases h
  · cases h
    cases herror
  · next report r' hreport =>
    cases h
    exact report_planted rfl hplanted hreport

end SatSearch
