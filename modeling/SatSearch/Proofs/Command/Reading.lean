import SatSearch.Proofs.Command.Machines
/-!
# Reading on a machine

Settings are found or there is an error that tells why not, and never a fault (`Settles`). A file of a batch is a
formula or it is told by its path (`reads_formulaFile`). So either all files of a batch are read, each into the job of
its name (`forall₂_of_ends_jobsOf`), or the first that holds no formula ends the reading (`reads_jobsOf_of_unreadable`).
-/

namespace SatSearch

/-- Whether a path leads to a text, which is what a formula is read from. -/
def FileTree.HasFormula (t : FileTree) (path : String) : Prop :=
  ∃ bytes file, t.contents path = .ok bytes ∧ Dimacs.read bytes = .ok file

/-- The job of a file in a directory of a tree. -/
def BatchArgs.IsReadIn (t : FileTree) (indir name : String) (job : BatchJob) : Prop :=
  ∃ bytes file, t.contents (pathIn indir name) = .ok bytes ∧ Dimacs.read bytes = .ok file ∧
    job = ⟨name, file.formula, none⟩

namespace Work

variable {M M' : Machine} {α β ε : Type} {e : CommandError}

/-! ## Settings -/

theorem reads_bytes (M : Machine) (failure : FileError → CommandError) (path : String) : Reads M (bytes failure path)
    (match M.tree.contents path with
      | .ok content => .ok content
      | .error e => .error (.error (failure e))) := by
  refine (Reads.contents path).bind ?_
  cases M.tree.contents path <;> rfl

/-- Reading that comes to a value or to an error, and not to a fault. -/
def Settles (M : Machine) (work : Work (StateM Machine) α) : Prop :=
  (∃ a, Reads M work (.ok a)) ∨ ∃ e, Reads M work (.error (.error e))

namespace Settles

theorem pure (a : α) : Settles M (pure a) := .inl ⟨a, rfl⟩

theorem fail (e : CommandError) : Settles M (fail e : Work (StateM Machine) α) := .inr ⟨e, rfl⟩

theorem orFail (f : ε → CommandError) (x : Except ε α) : Settles M (orFail f x) := by
  cases x with
  | ok a => exact pure a
  | error e => exact fail (f e)

theorem bind {work : Work (StateM Machine) α} {f : α → Work (StateM Machine) β} (h : Settles M work)
    (hf : ∀ a, Settles M (f a)) : Settles M (work >>= f) := by
  rcases h with ⟨a, ha⟩ | ⟨e, he⟩
  · rcases hf a with ⟨b, hb⟩ | ⟨e, he⟩
    · exact .inl ⟨b, ha.bind hb⟩
    · exact .inr ⟨e, ha.bind he⟩
  · exact .inr ⟨e, he.bind_error⟩

theorem bytes (failure : FileError → CommandError) (path : String) : Settles M (bytes failure path) := by
  have hread := reads_bytes M failure path
  cases hcontents : M.tree.contents path with
  | ok content => exact .inl ⟨content, by rwa [hcontents] at hread⟩
  | error e => exact .inr ⟨failure e, by rwa [hcontents] at hread⟩

theorem settingsFile (path : String) : Settles M (settingsFile path) := by
  refine (bytes _ path).bind fun content => ?_
  split
  · exact fail _
  · split
    · exact fail _
    · exact pure _

theorem configure (args : SearchArgs) (ratio : Option Float) : Settles M (configure args ratio) := by
  unfold Work.configure
  cases args.config with
  | none => exact (pure _).bind fun file => orFail _ _
  | some path => exact (settingsFile path).bind fun file => orFail _ _

end Settles

/-! ## Formulas -/

/-- A path leads to a formula, or it is told which one does not. -/
theorem reads_formulaFile (M : Machine) (path : String) :
    M.tree.HasFormula path ∧ (∃ f, Reads M (formulaFile path) (.ok f)) ∨
    ¬ M.tree.HasFormula path ∧
      ∃ cause, Reads M (formulaFile path) (.error (.error (.unreadable path (.formula cause)))) := by
  have hbytes := reads_bytes M (fun e => .unreadable path (.formula e)) path
  cases hcontents : M.tree.contents path with
  | error cause =>
    rw [hcontents] at hbytes
    refine .inr ⟨?_, cause, hbytes.bind_error⟩
    rintro ⟨bytes, file, hok, -⟩
    cases hcontents.symm.trans hok
  | ok content =>
    rw [hcontents] at hbytes
    cases hread : Dimacs.read content with
    | ok file => exact .inl ⟨⟨content, file, hcontents, hread⟩, file.formula, Reads.formulaFile hcontents hread⟩
    | error e =>
      refine .inr ⟨?_, .notText, hbytes.bind ?_⟩
      · rintro ⟨bytes, file, hok, hread'⟩
        cases hcontents.symm.trans hok
        cases hread.symm.trans hread'
      · rw [hread]
        rfl

end Work

/-! ## Batches -/

namespace BatchArgs

variable {M M' : Machine} {names listed : List String} {name indir : String} {jobs : List BatchJob}

/-- The first file of a batch that holds no formula ends the reading. -/
theorem reads_jobsOf_of_unreadable (hname : name ∈ names) (hunreadable : ¬ M.tree.HasFormula (pathIn indir name)) :
    ∃ other cause, other ∈ names ∧ ¬ M.tree.HasFormula (pathIn indir other) ∧
      Work.Reads M (jobsOf indir names) (.error (.error (.unreadable (pathIn indir other) (.formula cause)))) := by
  induction names with
  | nil => cases hname
  | cons first names ih =>
    rcases Work.reads_formulaFile M (pathIn indir first) with ⟨hfirst, f, hf⟩ | ⟨hfirst, cause, hcause⟩
    · have hrest : name ∈ names := by
        rcases List.mem_cons.1 hname with rfl | hrest
        · exact absurd hfirst hunreadable
        · exact hrest
      obtain ⟨other, cause, hother, hnone, hends⟩ := ih hrest
      exact ⟨other, cause, List.mem_cons_of_mem _ hother, hnone, hf.bind hends.bind_error⟩
    · exact ⟨first, cause, List.mem_cons_self, hfirst, hcause.bind_error⟩

theorem IsReadIn.name_eq {t : FileTree} {job : BatchJob} (h : IsReadIn t indir name job) : job.name = name := by
  obtain ⟨bytes, file, -, -, rfl⟩ := h
  rfl

/-- Where all files hold formulas, each makes the job of its name. What is known of each job on its own is known of
the jobs in order. -/
theorem exists_reads_jobsOf {R : String → BatchJob → Prop}
    (h : ∀ name ∈ names, ∃ job, IsReadIn M.tree indir name job ∧ R name job) :
    ∃ jobs, List.Forall₂ R names jobs ∧ Work.Reads M (jobsOf indir names) (.ok jobs) := by
  induction names with
  | nil => exact ⟨[], .nil, .pure []⟩
  | cons name names ih =>
    obtain ⟨⟨_, ⟨bytes, file, hcontents, hread, rfl⟩, hjob⟩, hrest⟩ := List.forall_mem_cons.1 h
    obtain ⟨jobs, hjobs, hends⟩ := ih hrest
    exact ⟨_, .cons hjob hjobs, (Work.Reads.formulaFile hcontents hread).bind (hends.bind (.pure _))⟩

/-- Jobs that were read are those of the files. -/
theorem forall₂_of_ends_jobsOf (h : M.ends (jobsOf indir names) = (.ok jobs, M')) :
    M' = M ∧ List.Forall₂ (IsReadIn M.tree indir) names jobs := by
  by_cases hall : ∀ name ∈ names, M.tree.HasFormula (pathIn indir name)
  · have hjob : ∀ name ∈ names, ∃ job, IsReadIn M.tree indir name job ∧ IsReadIn M.tree indir name job := by
      intro name hname
      obtain ⟨bytes, file, hcontents, hread⟩ := hall name hname
      exact ⟨_, ⟨bytes, file, hcontents, hread, rfl⟩, bytes, file, hcontents, hread, rfl⟩
    obtain ⟨jobs', hjobs, hends⟩ := exists_reads_jobsOf hjob
    cases h.symm.trans hends
    exact ⟨rfl, hjobs⟩
  · push Not at hall
    obtain ⟨name, hname, hnone⟩ := hall
    obtain ⟨other, cause, -, -, hends⟩ := reads_jobsOf_of_unreadable hname hnone
    cases h.symm.trans hends

theorem reads_fileNames (h : M.tree.listFiles indir = .ok listed) :
    Work.Reads M (fileNames indir) (.ok (chosen listed)) := by
  have hdirectory : M.tree.isDirectory indir = true := by
    unfold FileTree.listFiles at h
    rw [FileTree.isDirectory]
    split at h
    · next hfind => rw [hfind]
    · cases h
    · cases h
  refine (Work.Reads.isDirectory indir).bind ?_
  rw [hdirectory]
  refine (Work.Reads.pure ()).bind ((Work.Reads.listFiles indir).bind ?_)
  rw [h]
  exact (Work.Reads.pure _).bind (.pure _)

theorem exists_listed_of_ends_fileNames (h : M.ends (fileNames indir) = (.ok names, M')) :
    M' = M ∧ ∃ listed, M.tree.listFiles indir = .ok listed ∧ names = chosen listed := by
  obtain ⟨isDirectory, M₁, hasked, h⟩ := Machine.ends_bind_eq_ok h
  cases hasked
  obtain ⟨_, M₂, hchecked, h⟩ := Machine.ends_bind_eq_ok h
  obtain ⟨answer, M₃, hanswer, h⟩ := Machine.ends_bind_eq_ok h
  cases hdirectory : M.tree.isDirectory indir with
  | false =>
    rw [hdirectory] at hchecked
    cases hchecked
  | true =>
    rw [hdirectory] at hchecked
    cases hchecked
    cases hanswer
    cases hlisted : M.tree.listFiles indir with
    | error e =>
      rw [hlisted] at h
      cases h
    | ok listed =>
      rw [hlisted] at h
      cases h
      exact ⟨rfl, listed, rfl, rfl⟩

end BatchArgs

end SatSearch
