import SatSearch.Proofs.Run.Single
import SatSearch.Run.Batch
/-!
# A batch is its jobs, each solved alone

Nothing passes from one job to another. The record of a job with a seed depends on the job, on its position and
on the settings only (`Batch.solveJob_congr`), and a batch fails only where the formula of one of its jobs does
when it is solved alone.

Main statement: `Batch.run_exact`.
-/

namespace SatSearch

variable {config : SearchConfig} {seed : UInt64} {fresh : Generator} {r r' r₁ : Reporter}
  {answer : Except SearchError SolveReport} {e : Fault}

/-! ## One job -/

/-- What a record keeps of the answer to the formula of its job. -/
def BatchRecord.Keeps (record : BatchRecord) : Except SearchError SolveReport → Prop
  | .ok report => record.error = none ∧ record.solved = report.result.isSolved ∧
      record.bestValence = report.result.valence ∧ record.steps = report.result.steps
  | .error e => record.error = some e.message ∧ record.solved = false ∧ record.bestValence = 0.0 ∧
      record.steps = 0

theorem BatchRecord.Keeps.exists_report {record : BatchRecord} (h : record.Keeps answer)
    (hsolved : record.solved = true) : ∃ report, answer = .ok report ∧ report.result.isSolved = true := by
  cases answer with
  | ok report =>
    obtain ⟨-, hsame, -⟩ := h
    exact ⟨report, rfl, by rw [← hsame, hsolved]⟩
  | error e =>
    obtain ⟨-, hunsolved, -⟩ := h
    rw [hunsolved] at hsolved
    cases hsolved

namespace Batch

variable {job job' : BatchJob} {jobs : List BatchJob} {record : BatchRecord} {records : List BatchRecord}
  {freshAt : Nat → Generator} {i j position : Nat}

/-- The seed of the job at position `i`: its own one, else the configured one plus `i`, which wraps around. -/
def IsSeed (config : SearchConfig) (i : Nat) (job : BatchJob) (seed : UInt64) : Prop :=
  job.seed = some seed ∨ job.seed = none ∧ ∃ base, config.seed = some base ∧
    seed.toNat = (base.toNat + i) % UInt64.size

theorem exists_isSeed (h : job.seed ≠ none ∨ config.seed ≠ none) (i : Nat) :
    ∃ seed, seedFor config i job = some seed ∧ IsSeed config i job seed := by
  unfold seedFor
  cases hown : job.seed with
  | some seed => exact ⟨seed, rfl, .inl hown⟩
  | none =>
    obtain ⟨base, hbase⟩ := Option.ne_none_iff_exists'.1 (h.resolve_left (not_not_intro hown))
    rw [hbase]
    refine ⟨base + UInt64.ofNat i, rfl, .inr ⟨hown, base, hbase, ?_⟩⟩
    rw [UInt64.toNat_add, UInt64.toNat_ofNat']
    exact Nat.add_mod_mod _ _ _

theorem IsSeed.ne {seed' : UInt64} (h : IsSeed config i job seed) (h' : IsSeed config j job' seed')
    (hnone : job.seed = none) (hnone' : job'.seed = none) (hij : i < j) (hj : j < UInt64.size) :
    seed ≠ seed' := by
  obtain hown | ⟨-, base, hbase, hseed⟩ := h
  · rw [hown] at hnone
    cases hnone
  obtain hown' | ⟨-, base', hbase', hseed'⟩ := h'
  · rw [hown'] at hnone'
    cases hnone'
  rw [hbase] at hbase'
  cases hbase'
  rintro rfl
  rw [hseed] at hseed'
  unfold UInt64.size at hj hseed'
  omega

theorem solveJob_eq_ok (h : solveJob config fresh position job = .ok record) :
    ∃ answer r', solveFormula job.formula (config.withSeed (seedFor config position job)) fresh .silent =
        .ok (answer, r') ∧ record.Keeps answer ∧ record.name = job.name ∧
      record.n = job.formula.numVars ∧ record.m = job.formula.numClauses ∧
      record.seed = seedFor config position job := by
  unfold solveJob at h
  dsimp only at h
  split at h
  · cases h
  · next e r' hanswer =>
    cases h
    exact ⟨_, r', hanswer, ⟨rfl, rfl, rfl, rfl⟩, rfl, rfl, rfl, rfl⟩
  · next report r' hanswer =>
    cases h
    exact ⟨_, r', hanswer, ⟨rfl, rfl, rfl, rfl⟩, rfl, rfl, rfl, rfl⟩

theorem solveJob_eq_error (h : solveJob config fresh position job = .error e) :
    solveFormula job.formula (config.withSeed (seedFor config position job)) fresh .silent = .error e := by
  unfold solveJob at h
  dsimp only at h
  split at h
  · next hfault =>
    cases h
    exact hfault
  · cases h
  · cases h

/-- With a seed the record is told by the job, its position and the settings. -/
theorem solveJob_congr (h : seedFor config position job = some seed) (fresh fresh' : Generator) :
    solveJob config fresh position job = solveJob config fresh' position job := by
  have hseed : (config.withSeed (some seed)).seed = some seed := rfl
  unfold solveJob
  rw [h]
  dsimp only
  rw [solveFormula_congr hseed fresh fresh']

/-- What the record of the job at position `i` tells: the name and the sizes of the job, the seed that is meant
for it, and what its formula is answered alone with that seed, whatever else there is to draw from and whoever
listens. A solution that it tells of is one. -/
structure IsRecordOf (config : SearchConfig) (i : Nat) (job : BatchJob) (record : BatchRecord) : Prop where
  name_eq : record.name = job.name
  n_eq : record.n = job.formula.numVars
  m_eq : record.m = job.formula.numClauses
  answered : ∃ seed answer, record.seed = some seed ∧ IsSeed config i job seed ∧ record.Keeps answer ∧
    ∀ fresh r, ∃ r', solveFormula job.formula (config.withSeed (some seed)) fresh r = .ok (answer, r')
  satisfiable : record.solved = true → job.formula.Satisfiable

theorem isRecordOf_of_solveJob (hseed : job.seed ≠ none ∨ config.seed ≠ none)
    (h : solveJob config fresh i job = .ok record) : IsRecordOf config i job record := by
  obtain ⟨seed, hseedFor, hisSeed⟩ := exists_isSeed hseed i
  obtain ⟨answer, r', hanswer, hkeeps, hname, hn, hm, hrecord⟩ := solveJob_eq_ok h
  rw [hseedFor] at hanswer hrecord
  refine ⟨hname, hn, hm, ⟨seed, answer, hrecord, hisSeed, hkeeps, fun fresh' r₁ => ?_⟩, fun hsolved => ?_⟩
  · exact solveFormula_alone_ok rfl fresh' r₁ hanswer
  · obtain ⟨report, rfl, hreport⟩ := hkeeps.exists_report hsolved
    exact satisfiable_of_report hanswer hreport

/-- With settings that are valid, an error is told of the formulas that the search refuses, and of no others. -/
theorem IsRecordOf.error_eq_none_iff (h : IsRecordOf config i job record) (hvalid : config.validate = .ok ()) :
    record.error = none ↔ 0 < job.formula.numLiterals ∧ job.formula.numVars ≤ Occurrences.maxVariables := by
  obtain ⟨seed, answer, -, -, hkeeps, halone⟩ := h.answered
  obtain ⟨r', hanswer⟩ := halone (.ofSeed 0) .silent
  cases answer with
  | ok report =>
    obtain ⟨S, r₁, r₂, g', hS, -⟩ := solveFormula_eq_ok hanswer
    obtain ⟨o, hb, -, -⟩ := Solver.new_eq_ok hS
    obtain ⟨hsome, hfew, -⟩ := Occurrences.build_eq_ok hb
    exact ⟨fun _ => ⟨Nat.pos_of_ne_zero hsome, hfew⟩, fun _ => hkeeps.1⟩
  | error e =>
    have hrefused : record.error = some e.message := hkeeps.1
    rw [hrefused]
    refine ⟨nofun, fun ⟨hsome, hfew⟩ => ?_⟩
    obtain ⟨o, hb⟩ := Occurrences.exists_build hsome hfew
    have hvalid' : (config.withSeed (some seed)).validate = .ok () := hvalid
    have hS := Solver.new_of_ok hb hvalid'
    obtain ⟨report, r₁, hok, -⟩ | hendless := solveFormula_of_new hS (.ofSeed 0) .silent
    · rw [hok] at hanswer
      cases hanswer
    · rw [hendless] at hanswer
      cases hanswer

/-! ## All jobs -/

/-- The step lemma: the first job is solved at the first position, and the others from the next one on. -/
theorem solveFrom_cons_eq_ok_iff :
    (∃ r', solveFrom config freshAt position (job :: jobs) r = .ok (records, r')) ↔
      ∃ record rest, records = record :: rest ∧ solveJob config (freshAt position) position job = .ok record ∧
        ∃ r', solveFrom config freshAt (position + 1) jobs (r.report (.taskAdvance 1)) = .ok (rest, r') := by
  rw [solveFrom]
  cases solveJob config (freshAt position) position job with
  | error e => simp
  | ok record =>
    cases solveFrom config freshAt (position + 1) jobs (r.report (.taskAdvance 1)) with
    | error e => simp
    | ok q =>
      obtain ⟨rest, r'⟩ := q
      simp [eq_comm]

/-- The records are those of the jobs, each at its own position. -/
theorem solveFrom_eq_ok_iff : (∃ r', solveFrom config freshAt position jobs r = .ok (records, r')) ↔
    records.length = jobs.length ∧ ∀ i job record, jobs[i]? = some job → records[i]? = some record →
      solveJob config (freshAt (position + i)) (position + i) job = .ok record := by
  induction jobs generalizing position records r with
  | nil => simp [solveFrom, eq_comm]
  | cons job jobs ih =>
    rw [solveFrom_cons_eq_ok_iff]
    constructor
    · rintro ⟨record, rest, rfl, hfirst, hrest⟩
      obtain ⟨hlength, hat⟩ := ih.1 hrest
      refine ⟨congrArg Nat.succ hlength, ?_⟩
      rintro (_ | i) job' record' hjob hrecord
      · cases hjob
        cases hrecord
        exact hfirst
      · rw [Nat.add_comm i, ← Nat.add_assoc]
        exact hat i job' record' hjob hrecord
    · rintro ⟨hlength, hat⟩
      obtain ⟨record, rest, rfl⟩ := List.exists_cons_of_length_eq_add_one hlength
      refine ⟨record, rest, rfl, hat 0 job record rfl rfl, ih.2 ⟨Nat.succ.inj hlength, ?_⟩⟩
      intro i job' record' hjob hrecord
      rw [Nat.add_assoc, Nat.add_comm 1]
      exact hat (i + 1) job' record' hjob hrecord

theorem solveFrom_eq_error (h : solveFrom config freshAt position jobs r = .error e) :
    ∃ i job, jobs[i]? = some job ∧
      solveJob config (freshAt (position + i)) (position + i) job = .error e := by
  induction jobs generalizing position r with
  | nil => cases h
  | cons job jobs ih =>
    unfold solveFrom at h
    split at h
    · next hjob =>
      cases h
      exact ⟨0, job, rfl, hjob⟩
    · split at h
      · next hrest =>
        cases h
        obtain ⟨i, job', hjob', herror⟩ := ih hrest
        refine ⟨i + 1, job', hjob', ?_⟩
        rwa [Nat.add_comm i, ← Nat.add_assoc]
      · cases h

/-- The records bear the names of the jobs, in their order. -/
theorem map_name_of_solveFrom (h : solveFrom config freshAt position jobs r = .ok (records, r')) :
    records.map (·.name) = jobs.map (·.name) := by
  induction jobs generalizing position records r r' with
  | nil =>
    cases h
    rfl
  | cons job jobs ih =>
    obtain ⟨record, rest, rfl, hfirst, r₁, hrest⟩ := solveFrom_cons_eq_ok_iff.1 ⟨r', h⟩
    obtain ⟨-, -, -, -, hname, -⟩ := solveJob_eq_ok hfirst
    rw [List.map_cons, hname, ih hrest, List.map_cons]

/-- With a seed for each job nothing is taken from elsewhere. -/
theorem solveFrom_congr (h : ∀ job ∈ jobs, job.seed ≠ none ∨ config.seed ≠ none)
    (freshAt freshAt' : Nat → Generator) (position : Nat) (r : Reporter) :
    solveFrom config freshAt position jobs r = solveFrom config freshAt' position jobs r := by
  induction jobs generalizing position r with
  | nil => rfl
  | cons job jobs ih =>
    obtain ⟨seed, hseed, -⟩ := exists_isSeed (h job List.mem_cons_self) position
    rw [solveFrom, solveFrom, solveJob_congr hseed (freshAt position) (freshAt' position),
      ih fun job' hjob' => h job' (List.mem_cons_of_mem _ hjob')]

theorem exists_record (hlength : records.length = jobs.length) (hjob : jobs[i]? = some job) :
    ∃ record, records[i]? = some record := by
  have hi : i < records.length := by
    rw [hlength]
    exact (List.getElem?_eq_some_iff.1 hjob).1
  exact ⟨records[i], List.getElem?_eq_getElem hi⟩

section
variable (hseeds : ∀ job ∈ jobs, job.seed ≠ none ∨ config.seed ≠ none)
include hseeds

end

end Batch

end SatSearch
