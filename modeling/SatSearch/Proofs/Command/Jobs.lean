import SatSearch.Command.Tables
import SatSearch.Proofs.Cnf.Planted
import SatSearch.Proofs.Command.Answers
import SatSearch.Proofs.Run.Batches
/-!
# Jobs and their records

What commands make of a list they make one by one, so the results stand in the order of the list: for each file of a
batch a job with the formula that was read from it, for each point of a sweep the job of the point, and for each job
what solving it gives, with the time that it took (`Batch.IsTimedRecordOf`).
-/

namespace SatSearch

open MonadAttach (CanReturn)
open LawfulMonadAttach (canReturn_bind_imp' eq_of_canReturn_pure)

/-! ## Records with times -/

namespace BatchRecord

variable (r : BatchRecord) (seconds : Float)

theorem name_withRuntime : (r.withRuntime seconds).name = r.name := by
  unfold withRuntime
  split <;> rfl

theorem seed_withRuntime : (r.withRuntime seconds).seed = r.seed := by
  unfold withRuntime
  split <;> rfl

end BatchRecord

namespace Batch

variable {config : SearchConfig} {i : Nat} {job : BatchJob} {record : BatchRecord}

/-- What a record tells of its job does not rest on the time. -/
theorem IsRecordOf.withRuntime (h : IsRecordOf config i job record) (seconds : Float) :
    IsRecordOf config i job (record.withRuntime seconds) := by
  unfold BatchRecord.withRuntime
  split
  · obtain ⟨hname, hn, hm, ⟨seed, answer, hseed, hisSeed, hkeeps, halone⟩, hsatisfiable⟩ := h
    refine ⟨hname, hn, hm, ⟨seed, answer, hseed, hisSeed, ?_, halone⟩, hsatisfiable⟩
    cases answer <;> exact hkeeps
  · exact h

/-- What solving the job at a position gives, with the time that it took. -/
def IsTimedRecordOf (config : SearchConfig) (i : Nat) (job : BatchJob) (record : BatchRecord) : Prop :=
  ∃ fresh seconds found, solveJob config fresh i job = .ok found ∧ record = found.withRuntime seconds

theorem IsTimedRecordOf.name_eq (h : IsTimedRecordOf config i job record) : record.name = job.name := by
  obtain ⟨fresh, seconds, found, hfound, rfl⟩ := h
  obtain ⟨-, -, -, -, hname, -⟩ := solveJob_eq_ok hfound
  rw [BatchRecord.name_withRuntime, hname]

theorem IsTimedRecordOf.seed_eq (h : IsTimedRecordOf config i job record) : record.seed = seedFor config i job := by
  obtain ⟨fresh, seconds, found, hfound, rfl⟩ := h
  obtain ⟨-, -, -, -, -, -, -, hseed⟩ := solveJob_eq_ok hfound
  rw [BatchRecord.seed_withRuntime, hseed]

theorem IsTimedRecordOf.isRecordOf (h : IsTimedRecordOf config i job record)
    (hseed : job.seed ≠ none ∨ config.seed ≠ none) : IsRecordOf config i job record := by
  obtain ⟨fresh, seconds, found, hfound, rfl⟩ := h
  exact (isRecordOf_of_solveJob hseed hfound).withRuntime seconds

/-- Records have the names of their jobs. -/
theorem map_name_of_forall₂ {position : Nat} {jobs : List BatchJob} {records : List BatchRecord}
    (h : List.Forall₂ (fun p record => IsTimedRecordOf config p.2 p.1 record) (jobs.zipIdx position) records) :
    records.map (·.name) = jobs.map (·.name) := by
  induction jobs generalizing position records with
  | nil =>
    cases h
    rfl
  | cons job jobs ih =>
    cases h with
    | cons hrecord hrest => rw [List.map_cons, hrecord.name_eq, ih hrest, List.map_cons]

end Batch

variable {m : Type → Type} [Monad m] [LawfulMonad m] [MonadAttach m] [LawfulMonadAttach m] {jobs : List BatchJob}

/-! ## Points of a sweep -/

theorem SweepPoint.job_eq_ok {p : SweepPoint} {ratio : Float} {job : BatchJob} (h : p.job ratio = .ok (.ok job)) :
    job.name = p.name ∧ job.seed = some p.seed := by
  unfold SweepPoint.job at h
  split at h
  · cases h
  · cases h
  · cases h
    exact ⟨rfl, rfl⟩

theorem SweepPoint.job_of_small {p : SweepPoint} (h : p.n < Planted.clauseWidth) (ratio : Float) :
    p.job ratio = .ok (.error (.tooFewVariables p.n)) := by
  rw [job, Planted.generate_of_lt h]

theorem SweepArgs.forall₂_of_canReturn_jobsOf {ratio : Float} {points : List SweepPoint} :
    ∀ {jobs : List BatchJob}, CanReturn (jobsOf ratio points : Work m (List BatchJob)) jobs →
      List.Forall₂ (fun p job => p.job ratio = .ok (.ok job)) points jobs := by
  induction points with
  | nil =>
    intro jobs h
    cases eq_of_canReturn_pure h
    exact .nil
  | cons p points ih =>
    intro jobs h
    obtain ⟨answer, hanswer, h⟩ := canReturn_bind_imp' h
    obtain ⟨job, hjob, h⟩ := canReturn_bind_imp' h
    obtain ⟨rest, hrest, h⟩ := canReturn_bind_imp' h
    cases eq_of_canReturn_pure h
    have hplanned := Work.canReturn_orFault hanswer
    rw [Work.canReturn_orFail hjob] at hplanned
    exact .cons hplanned (ih hrest)

variable [Host m]

/-! ## Files of a batch -/

/-- A formula that was read is what the bytes of its file stand for. -/
theorem Work.exists_read_of_canReturn_formulaFile {path : String} {f : Formula}
    (h : CanReturn (formulaFile path : Work m Formula) f) :
    ∃ bytes file, CanReturn (Host.contents path : m (Except FileError ByteArray)) (.ok bytes) ∧
      Dimacs.read bytes = .ok file ∧ f = file.formula := by
  obtain ⟨bytes, hbytes, h⟩ := canReturn_bind_imp' h
  obtain ⟨answer, hanswer, hbytes⟩ := canReturn_bind_imp' hbytes
  have hcontents := canReturn_ofHost hanswer
  rw [canReturn_orFail hbytes] at hcontents
  cases hread : Dimacs.read bytes with
  | error e =>
    rw [hread] at h
    exact absurd h not_canReturn_throw
  | ok file =>
    rw [hread] at h
    exact ⟨bytes, file, hcontents, hread, (eq_of_canReturn_pure h).symm⟩

namespace BatchArgs

/-- The job of a file in a directory, whose contents the host can tell. -/
def IsReadFrom (m : Type → Type) [Monad m] [MonadAttach m] [Host m] (indir name : String) (job : BatchJob) : Prop :=
  ∃ bytes file, CanReturn (Host.contents (pathIn indir name) : m (Except FileError ByteArray)) (.ok bytes) ∧
    Dimacs.read bytes = .ok file ∧ job = ⟨name, file.formula, none⟩

theorem forall₂_of_canReturn_jobsOf {indir : String} {names : List String} :
    ∀ {jobs : List BatchJob}, CanReturn (jobsOf indir names : Work m (List BatchJob)) jobs →
      List.Forall₂ (IsReadFrom m indir) names jobs := by
  induction names with
  | nil =>
    intro jobs h
    cases eq_of_canReturn_pure h
    exact .nil
  | cons name names ih =>
    intro jobs h
    obtain ⟨formula, hformula, h⟩ := canReturn_bind_imp' h
    obtain ⟨rest, hrest, h⟩ := canReturn_bind_imp' h
    cases eq_of_canReturn_pure h
    obtain ⟨bytes, file, hcontents, hread, rfl⟩ := Work.exists_read_of_canReturn_formulaFile hformula
    exact .cons ⟨bytes, file, hcontents, hread, rfl⟩ (ih hrest)

/-- Jobs that are made one by one and bear the names that they are made for bear all of them. -/
theorem map_name_of_forall₂ {R : String → BatchJob → Prop} {names : List String}
    (hname : ∀ {name job}, R name job → job.name = name) (h : List.Forall₂ R names jobs) :
    jobs.map (·.name) = names := by
  induction h with
  | nil => rfl
  | cons hjob _ ih => rw [List.map_cons, hname hjob, ih]

end BatchArgs

/-! ## Solved jobs -/

theorem Work.forall₂_of_canReturn_solveJobs [Host.Honest m] {config : SearchConfig} {fresh : Nat → Generator} :
    ∀ {position : Nat} {records : List BatchRecord},
      CanReturn (solveJobs config fresh position jobs : Work m (List BatchRecord)) records →
        List.Forall₂ (fun p record => Batch.IsTimedRecordOf config p.2 p.1 record) (jobs.zipIdx position) records := by
  induction jobs with
  | nil =>
    intro position records h
    cases eq_of_canReturn_pure h
    exact .nil
  | cons job jobs ih =>
    intro position records h
    obtain ⟨⟨record, seconds⟩, hrecord, h⟩ := canReturn_bind_imp' h
    obtain ⟨rest, hrest, h⟩ := canReturn_bind_imp' h
    cases eq_of_canReturn_pure h
    exact .cons ⟨_, seconds, record, canReturn_timed hrecord, rfl⟩ (ih hrest)

/-- The records of a sweep stand in the order of its points. -/
theorem SweepPoint.forall₂_records {config : SearchConfig} {ratio : Float} {points : List SweepPoint} {position : Nat}
    {records : List BatchRecord} (hjobs : List.Forall₂ (fun p job => p.job ratio = .ok (.ok job)) points jobs)
    (hrecords : List.Forall₂ (fun p record => Batch.IsTimedRecordOf config p.2 p.1 record) (jobs.zipIdx position)
      records) :
    List.Forall₂ (fun p record => ∃ i job, p.job ratio = .ok (.ok job) ∧ Batch.IsTimedRecordOf config i job record)
      points records := by
  induction hjobs generalizing position records with
  | nil =>
    cases hrecords
    exact .nil
  | cons hjob _ ih =>
    cases hrecords with
    | cons hrecord hrest => exact .cons ⟨_, _, hjob, hrecord⟩ (ih hrest)

end SatSearch
