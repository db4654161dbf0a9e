import SatSearch.Proofs.Command.Analyses
import SatSearch.Proofs.Run.SweepPlans
/-!
# Commands that fail

A command asks for its first change when all that it can be refused for is behind it, on any host
(`Command.see_eq_of_isRefusal`), so a refused one leaves a machine as it was. What has to be right before that is told
twice: by what a command that asks for changes has read (`SweepArgs.le_of_changes`, `BatchArgs.exists_read_of_changes`,
`SolveArgs.exists_report_of_changes`), and by how the work ends on a machine where it is wrong
(`SweepArgs.run_of_small`, `BatchArgs.run_of_unreadable`). Only the log of an invocation is made before its command is
begun, so a table that has the log's place is lost even if the command is refused (`log_file_over_table`).

Main statement: `failed_command_leaves_files`.
-/

namespace SatSearch

open MonadAttach (CanReturn)

/-! ## Any host -/

section
variable {m : Type → Type} [Monad m] [LawfulMonad m] [MonadAttach m] [LawfulMonadAttach m] [Host m] [Outlet m]
  {answer : Except Stop Unit} {changes : List Change}

/-- A refused invocation has asked for its log file, if it keeps one, and for nothing else. -/
theorem Invocation.changes_of_isRefusal {i : Invocation} {e : CommandError}
    (h : (i.work : Work (Recorded m) Unit).MayEnd [] (.error (.error e)) changes) (he : e.isRefusal = true) :
    changes = i.logFile.toList.map .create := by
  rcases Work.mayEnd_bind h with ⟨stop, hstop, hlog⟩ | ⟨_, changes₁, hlog, hcommand⟩
  · cases hstop
    rw [Work.Unrefusing.openLog i _ _ _ hlog] at he
    cases he
  · obtain ⟨asked, hasked, -, hall⟩ := Work.Records.openLog i _ _ _ hlog
    have hkept : id changes = id changes₁ := Command.see_eq_of_isRefusal hcommand he
    rw [← hall () rfl]
    exact hkept.trans hasked

/-- What two lists are related by relates each item of the first to some item. -/
theorem exists_of_forall₂ {α β : Type} {R : α → β → Prop} {as : List α} {bs : List β} (h : List.Forall₂ R as bs) :
    ∀ a ∈ as, ∃ b, R a b := by
  induction h with
  | nil => simp
  | cons hab _ ih => simpa using ⟨⟨_, hab⟩, ih⟩

/-- A sweep asks for changes only if it could draw an instance for each of its points. -/
theorem SweepArgs.le_of_changes {args : SweepArgs}
    (h : (args.work : Work (Recorded m) Unit).MayEnd [] answer changes) (hchanges : changes ≠ []) :
    ∃ ns, SweepPlan.sizesOf args.range (args.runs.getD SweepPlan.defaultRuns) = .ok ns ∧
      ∀ n ∈ ns, Planted.clauseWidth ≤ n := by
  rcases (args.mayEnd_work h : (_ ∧ id changes = id []) ∨ _) with ⟨-, hnone⟩ |
    ⟨_, g, g', points, jobs, _, _, _, _, -, hplan, hjobs, -, -, -⟩
  · exact absurd hnone hchanges
  cases hsizes : SweepPlan.sizesOf args.range (args.runs.getD SweepPlan.defaultRuns) with
  | error e =>
    rw [SweepPlan.plan, hsizes] at hplan
    cases hplan
  | ok ns =>
    refine ⟨ns, rfl, fun n hn => ?_⟩
    obtain ⟨⟨p, hp, rfl⟩, -⟩ := SweepPlan.exists_point hsizes hplan hn
    obtain ⟨job, hjob⟩ := exists_of_forall₂ (forall₂_of_canReturn_jobsOf hjobs) p hp
    by_contra hsmall
    rw [SweepPoint.job_of_small (Nat.lt_of_not_le hsmall)] at hjob
    cases hjob

/-- A batch asks for changes only if all of its files could be read. -/
theorem BatchArgs.exists_read_of_changes {args : BatchArgs}
    (h : (args.work : Work (Recorded m) Unit).MayEnd [] answer changes) (hchanges : changes ≠ []) :
    ∃ names, CanReturn (fileNames args.indir : Work (Recorded m) (List String)) names ∧
      ∀ name ∈ names, ∃ job, IsReadFrom (Recorded m) args.indir name job := by
  rcases (args.mayEnd_work h : (_ ∧ id changes = id []) ∨ _) with ⟨-, hnone⟩ |
    ⟨_, names, jobs, _, _, _, _, _, _, -, -, hnames, -, hjobs, -, -, -⟩
  · exact absurd hnone hchanges
  · exact ⟨names, hnames.canReturn, exists_of_forall₂ (forall₂_of_canReturn_jobsOf hjobs.canReturn)⟩

/-- A single run asks for changes only if its arguments fit together, there is a formula and the search gave a
report. -/
theorem SolveArgs.exists_report_of_changes [Host.Honest m] {args : SolveArgs}
    (h : (args.work : Work (Recorded m) Unit).MayEnd [] answer changes) (hchanges : changes ≠ []) :
    (args.clauses.isSome → args.random.isSome) ∧
    ∃ config, ∃ fresh : Nat → Generator, ∃ found report r',
      CanReturn (Work.configure args.search none : Work (Recorded m) AppConfig) config ∧
      (args.traceOut.isSome → config.search.recordTrace = true) ∧
      CanReturn (Work.formulaOf args config (fresh 0) : Work (Recorded m) (Formula × InstanceOrigin)) found ∧
      solveFormula found.1 config.search (fresh 1) .silent = .ok (.ok report, r') := by
  rcases (args.mayEnd_work h : (_ ∧ id changes = id []) ∨ _) with ⟨-, hnone⟩ |
    ⟨config, fresh, found, ⟨⟨outcome, r'⟩, seconds⟩, report, _, hclauses, hconfig, htrace, hfound, hsearched, hreport,
      -, -⟩
  · exact absurd hnone hchanges
  obtain rfl : outcome = .ok report := hreport
  refine ⟨by simpa using hclauses, config, fresh, found, report, r', hconfig, by simpa using htrace, hfound, ?_⟩
  exact Work.canReturn_timed hsearched

end

/-! ## Refusals on a machine -/

section
variable {M : Machine} {result : FileTree.Result} {e : CommandError}

/-- A refused command leaves the files and what was printed as they were. -/
theorem Command.shown_of_isRefusal {c : Command} (h : M.run c.work = .ok result) (herror : result.error = some e)
    (he : e.isRefusal = true) : result.tree = M.tree ∧ result.printed = M.printed := by
  obtain ⟨M', hends, htree, hprinted⟩ := Machine.ends_of_run h
  rw [herror] at hends
  have hshown : M'.shown = M.shown := c.see_eq_of_isRefusal (Machine.mayEnd_iff.2 hends) he
  obtain ⟨hsame, hsame'⟩ := Prod.mk.inj hshown
  exact ⟨htree.trans hsame, hprinted.trans hsame'⟩

/-- A refused invocation has made its log file, if it keeps one, and nothing else. -/
theorem Invocation.shown_of_isRefusal {i : Invocation} (h : M.run i.work = .ok result)
    (herror : result.error = some e) (he : e.isRefusal = true) : result.printed = M.printed ∧
    (i.logFile = none → result.tree = M.tree) ∧
    ∀ path, i.logFile = some path → ∃ place bytes, result.tree.find path = .ok (place, .file bytes) ∧
      ∀ other, other ≠ place → result.tree.node? other = M.tree.node? other := by
  obtain ⟨M', hends, htree, hprinted⟩ := Machine.ends_of_run h
  rw [herror, work] at hends
  -- the command is refused on the machine that the log was made on
  have hcommand : ∀ {M₁ : Machine}, M.ends i.openLog = (.ok (), M₁) → M'.shown = M₁.shown := fun hlog => by
    rw [Machine.ends_bind_of_ok hlog] at hends
    exact i.command.see_eq_of_isRefusal (Machine.mayEnd_iff.2 hends) he
  cases hpath : i.logFile with
  | none =>
    have hlog : M.ends i.openLog = (.ok (), M) := by
      rw [openLog, hpath]
      rfl
    obtain ⟨hsame, hsame'⟩ := Prod.mk.inj (hcommand hlog)
    exact ⟨hprinted.trans hsame', fun _ => htree.trans hsame, by simp⟩
  | some path =>
    have hopen : (i.openLog : Work (StateM Machine) Unit) = Work.create .document path := by
      rw [openLog, hpath]
    cases hwrite : M.tree.write path .empty with
    | error cause =>
      rw [hopen, Machine.ends_bind_of_error (Work.ends_create_of_error hwrite)] at hends
      cases hends
      cases he
    | ok tree =>
      have hlog : M.ends i.openLog = (.ok (), { M with tree }) := by rw [hopen, Work.ends_create_of_ok hwrite]
      obtain ⟨hsame, hsame'⟩ := Prod.mk.inj (hcommand hlog)
      refine ⟨hprinted.trans hsame', by simp, fun path' hpath' => ?_⟩
      cases hpath'
      obtain ⟨place, hfind, -, hother⟩ := FileTree.write_spec hwrite
      rw [htree, hsame]
      exact ⟨place, _, hfind, hother⟩

end

/-! ## Batches -/

namespace BatchArgs

variable {M : Machine} {listed : List String} {name : String} {args : BatchArgs}

/-- One unreadable file anywhere in a batch keeps it from writing. -/
theorem run_of_unreadable (hlisted : M.tree.listFiles args.indir = .ok listed) (hname : name ∈ chosen listed)
    (hunreadable : ¬ M.tree.HasFormula (pathIn args.indir name)) :
    ∃ e, M.run args.work = .ok { error := some e, printed := M.printed, tree := M.tree } ∧
      ∀ config, M.answer (Work.configure args.search none) = .ok config →
        ∃ other cause, other ∈ chosen listed ∧ ¬ M.tree.HasFormula (pathIn args.indir other) ∧
          e = .unreadable (pathIn args.indir other) (.formula cause) := by
  rcases Work.Settles.configure (M := M) args.search none with ⟨config, hconfig⟩ | ⟨e, he⟩
  · obtain ⟨other, cause, hother, hnone, hends⟩ := reads_jobsOf_of_unreadable hname hunreadable
    have hwork : Work.Reads M args.work _ := hconfig.bind ((reads_fileNames hlisted).bind hends.bind_error)
    exact ⟨_, Machine.run_of_error hwork, fun _ _ => ⟨other, cause, hother, hnone, rfl⟩⟩
  · have hwork : Work.Reads M args.work _ := he.bind_error
    refine ⟨e, Machine.run_of_error hwork, fun config hconfig => ?_⟩
    cases he.answer_eq.symm.trans hconfig

end BatchArgs

/-! ## Sweeps -/

namespace SweepArgs

variable {M : Machine} {ns : List Nat} {n : Nat} {args : SweepArgs}

/-- One number of variables below 3 anywhere in a sweep keeps it from writing. -/
theorem run_of_small (hsizes : SweepPlan.sizesOf args.range (args.runs.getD SweepPlan.defaultRuns) = .ok ns)
    (hn : n ∈ ns) (hsmall : n < Planted.clauseWidth) :
    M.run args.work = .error .endlessDraw ∨
    ∃ e, M.run args.work = .ok { error := some e, printed := M.printed, tree := M.tree } ∧
      ∀ config, M.answer (Work.configure args.search args.clausesPerVar) = .ok config →
        ∃ least, least ≤ n ∧ e = .generator (.tooFewVariables least) := by
  rcases Work.Settles.configure (M := M) args.search args.clausesPerVar with ⟨config, hconfig⟩ | ⟨e, he⟩
  · rcases SweepPlan.plan_cases hsizes (config.search.generator (M.fresh 0)) with hplan | ⟨points, g', hplan⟩
    · have hdrawn : Work.Reads M (Work.draw (SweepPlan.plan args.range (args.runs.getD SweepPlan.defaultRuns))
          (config.search.generator (M.fresh 0))) (.error (.fault .endlessDraw)) := by
        rw [Work.draw, hplan]
        rfl
      have hwork : Work.Reads M args.work _ := hconfig.bind (Work.Reads.fresh.bind hdrawn.bind_error)
      exact .inl (Machine.run_of_fault hwork)
    · obtain ⟨-, p, rest, rfl, hle⟩ := SweepPlan.exists_point hsizes hplan hn
      have hdrawn : Work.Reads M (Work.draw (SweepPlan.plan args.range (args.runs.getD SweepPlan.defaultRuns))
          (config.search.generator (M.fresh 0))) (.ok (.ok (p :: rest))) := by
        rw [Work.draw, hplan]
        rfl
      have hjobs : Work.Reads M (jobsOf config.clausesPerVar (p :: rest))
          (.error (.error (.generator (.tooFewVariables p.n)))) := by
        rw [jobsOf, SweepPoint.job_of_small (Nat.lt_of_le_of_lt hle hsmall)]
        rfl
      have hwork : Work.Reads M args.work _ :=
        hconfig.bind (Work.Reads.fresh.bind (hdrawn.bind ((Work.Reads.pure _).bind hjobs.bind_error)))
      exact .inr ⟨_, Machine.run_of_error hwork, fun _ _ => ⟨p.n, hle, rfl⟩⟩
  · have hwork : Work.Reads M args.work _ := he.bind_error
    refine .inr ⟨e, Machine.run_of_error hwork, fun config hconfig => ?_⟩
    cases he.answer_eq.symm.trans hconfig

end SweepArgs

/-! ## What a refusal leaves -/

/-- On a host, a command asks for a change only when it cannot be refused any more. -/
structure Host.ChangesLast (m : Type → Type) [Monad m] [MonadAttach m] [Host m] [Outlet m] : Prop where
  /-- A refused command has made no file, added to none and printed nothing. -/
  command : ∀ (c : Command) (asked changes : List Change) (e : CommandError),
    (c.work : Work (Recorded m) Unit).MayEnd asked (.error (.error e)) changes → e.isRefusal = true → changes = asked
  /-- A refused invocation has made its log file, if it keeps one, and nothing else. -/
  invocation : ∀ (i : Invocation) (changes : List Change) (e : CommandError),
    (i.work : Work (Recorded m) Unit).MayEnd [] (.error (.error e)) changes → e.isRefusal = true →
      changes = i.logFile.toList.map .create
  /-- All numbers of variables of a sweep that asks for changes are at least 3. -/
  sweep : ∀ (args : SweepArgs) (answer : Except Stop Unit) (changes : List Change),
    (args.work : Work (Recorded m) Unit).MayEnd [] answer changes → changes ≠ [] →
      ∃ ns, SweepPlan.sizesOf args.range (args.runs.getD SweepPlan.defaultRuns) = .ok ns ∧ ∀ n ∈ ns, 3 ≤ n
  /-- All files of a batch that asks for changes were read. -/
  batch : ∀ (args : BatchArgs) (answer : Except Stop Unit) (changes : List Change),
    (args.work : Work (Recorded m) Unit).MayEnd [] answer changes → changes ≠ [] →
      ∃ names, CanReturn (BatchArgs.fileNames args.indir : Work (Recorded m) (List String)) names ∧
        ∀ name ∈ names, ∃ job, BatchArgs.IsReadFrom (Recorded m) args.indir name job
  /-- The arguments of a single run that asks for changes fit together, and it has a formula and a report. -/
  solve : ∀ (args : SolveArgs) (answer : Except Stop Unit) (changes : List Change),
    (args.work : Work (Recorded m) Unit).MayEnd [] answer changes → changes ≠ [] →
      (args.clauses.isSome → args.random.isSome) ∧
      ∃ config, ∃ fresh : Nat → Generator, ∃ found report r',
        CanReturn (Work.configure args.search none : Work (Recorded m) AppConfig) config ∧
        (args.traceOut.isSome → config.search.recordTrace = true) ∧
        CanReturn (Work.formulaOf args config (fresh 0) : Work (Recorded m) (Formula × InstanceOrigin)) found ∧
        solveFormula found.1 config.search (fresh 1) .silent = .ok (.ok report, r')

/-- Refusals leave the files of a machine and what was printed on it alone. -/
structure Machine.KeptByRefusals (M : Machine) : Prop where
  command : ∀ (c : Command) (result : FileTree.Result) (e : CommandError), M.run c.work = .ok result →
    result.error = some e → e.isRefusal = true → result.tree = M.tree ∧ result.printed = M.printed
  /-- An invocation has made its log file, if it keeps one, and left all other places alone. -/
  invocation : ∀ (i : Invocation) (result : FileTree.Result) (e : CommandError), M.run i.work = .ok result →
    result.error = some e → e.isRefusal = true → result.printed = M.printed ∧
      (i.logFile = none → result.tree = M.tree) ∧
      ∀ path, i.logFile = some path → ∃ place bytes, result.tree.find path = .ok (place, .file bytes) ∧
        ∀ other, other ≠ place → result.tree.node? other = M.tree.node? other
  /-- One number of variables below 3 anywhere in a sweep is enough, and told of where the settings are right. -/
  sweep : ∀ (args : SweepArgs) (ns : List Nat) (n : Nat),
    SweepPlan.sizesOf args.range (args.runs.getD SweepPlan.defaultRuns) = .ok ns → n ∈ ns → n < 3 →
      M.run args.work = .error .endlessDraw ∨
      ∃ e, M.run args.work = .ok { error := some e, printed := M.printed, tree := M.tree } ∧
        ∀ config, M.answer (Work.configure args.search args.clausesPerVar) = .ok config →
          ∃ least, least ≤ n ∧ e = .generator (.tooFewVariables least)
  /-- One file without a formula anywhere in a batch is enough, and told of where the settings are right. -/
  batch : ∀ (args : BatchArgs) (listed : List String) (name : String), M.tree.listFiles args.indir = .ok listed →
    name ∈ BatchArgs.chosen listed → ¬ M.tree.HasFormula (BatchArgs.pathIn args.indir name) →
      ∃ e, M.run args.work = .ok { error := some e, printed := M.printed, tree := M.tree } ∧
        ∀ config, M.answer (Work.configure args.search none) = .ok config →
          ∃ other cause, other ∈ BatchArgs.chosen listed ∧
            ¬ M.tree.HasFormula (BatchArgs.pathIn args.indir other) ∧
            e = .unreadable (BatchArgs.pathIn args.indir other) (.formula cause)

/-- **A command that fails by an error of its own leaves all files alone.** If it ends with an error of its arguments
or settings, of an instance, of a file that it cannot understand or of the search, it has made no file, added to none
and printed nothing, on any lawful host. What an invocation has done by then is to make its log file, if it keeps one,
and nothing else. So one number of variables below 3 anywhere in a sweep, or one file anywhere in a batch that holds no
formula, leaves a machine with the files that it had. -/
theorem failed_command_leaves_files :
    (∀ (m : Type → Type) [Monad m] [LawfulMonad m] [MonadAttach m] [LawfulMonadAttach m] [Host m] [Host.Honest m]
      [Outlet m], Host.ChangesLast m) ∧
    ∀ M : Machine, M.KeptByRefusals := by
  constructor
  · intro m _ _ _ _ _ _ _
    exact
      { command := fun c asked changes e h he => (c.see_eq_of_isRefusal h he : id changes = id asked)
        invocation := fun i changes e h he => i.changes_of_isRefusal h he
        sweep := fun args answer changes h hchanges => args.le_of_changes h hchanges
        batch := fun args answer changes h hchanges => args.exists_read_of_changes h hchanges
        solve := fun args answer changes h hchanges => args.exists_report_of_changes h hchanges }
  · intro M
    exact
      { command := fun c result e h herror he => c.shown_of_isRefusal h herror he
        invocation := fun i result e h herror he => i.shown_of_isRefusal h herror he
        sweep := fun args ns n hsizes hn hsmall => args.run_of_small hsizes hn hsmall
        batch := fun args listed name hlisted hname h => args.run_of_unreadable hlisted hname h }

/-- A directory with one formula and one file that is no text, and rows of an earlier run. -/
def Machine.mixedFormulas : Machine where
  tree :=
    { entries := [(["in"], .directory), (["in", "a.cnf"], .file "1 0\n".toUTF8), (["in", "b.cnf"], .file ⟨#[0xff]⟩),
        (["rows.csv"], .file "n,m\n".toUTF8)] }

/-- A sweep from two variables up. -/
def SweepArgs.tooSmall : SweepArgs where
  range := [2, 5, 1]
  outfile := "rows.csv"
  search := { seed := some 1 }

def BatchArgs.mixed : BatchArgs where
  indir := "in"
  outfile := "rows.csv"
  search := { seed := some 1 }

/-- An invocation that keeps a log and asks for a trace that is not recorded. -/
def Invocation.traceless : Invocation where
  verbosity := 0
  quiet := true
  logFile := some "run.log"
  threads := none
  command := .solve
    { file := some "in/a.cnf", jsonOut := some "result.json", traceOut := some "trace.json"
      search := { noTrace := true } }

/-- Whether a command was refused. -/
def FileTree.wasRefused : Except Fault FileTree.Result → Bool
  | .ok result => result.error.any (·.isRefusal)
  | .error _ => false

theorem FileTree.exists_refusal {a : Except Fault FileTree.Result} (h : wasRefused a = true) :
    ∃ result e, a = .ok result ∧ result.error = some e ∧ e.isRefusal = true := by
  cases a with
  | error fault => cases h
  | ok result =>
    obtain ⟨e, he, hrefusal⟩ := (Option.any_eq_true _ _).1 h
    exact ⟨result, e, rfl, he, hrefusal⟩

theorem failed_command_leaves_files_mixed :
    (∃ ns, SweepPlan.sizesOf [3, 5, 1] 1 = .ok ns ∧ ∀ n ∈ ns, 3 ≤ n) ∧
    (∃ names, CanReturn (BatchArgs.fileNames "in" : Work (Recorded (StateM Machine)) (List String)) names ∧
      ∀ name ∈ names, ∃ job, BatchArgs.IsReadFrom (Recorded (StateM Machine)) "in" name job) ∧
    (∃ config, ∃ fresh : Nat → Generator, ∃ found report r', CanReturn (Work.formulaOf .brief config (fresh 0) :
        Work (Recorded (StateM Machine)) (Formula × InstanceOrigin)) found ∧
      solveFormula found.1 config.search (fresh 1) .silent = .ok (.ok report, r')) ∧
    (∃ result, Machine.mixedFormulas.run (Command.work (.sweep .tooSmall)) = .ok result ∧
      result.tree = Machine.mixedFormulas.tree ∧ result.printed = "") ∧
    (∃ result place bytes, Machine.mixedFormulas.run Invocation.traceless.work = .ok result ∧
      result.tree.find "run.log" = .ok (place, .file bytes) ∧
      ∀ other, other ≠ place → result.tree.node? other = Machine.mixedFormulas.tree.node? other) ∧
    (∃ least, Machine.mixedFormulas.run SweepArgs.tooSmall.work =
      .ok { error := some (.generator (.tooFewVariables least)), tree := Machine.mixedFormulas.tree }) ∧
    ∃ other cause, Machine.mixedFormulas.run BatchArgs.mixed.work =
      .ok { error := some (.unreadable (BatchArgs.pathIn "in" other) (.formula cause))
            tree := Machine.mixedFormulas.tree } := by
  obtain ⟨hhosts, hmachines⟩ := failed_command_leaves_files
  have hlast := hhosts (StateM Machine)
  have hkept := hmachines .mixedFormulas
  have hsettled : ∃ config,
      Machine.mixedFormulas.answer (Work.configure SweepArgs.tooSmall.search none) = .ok config :=
    exists_eq_ok_of_isOk (by decide +kernel)
  obtain ⟨config, hconfig⟩ := hsettled
  refine ⟨?_, ?_, ?_, ?_, ?_, ?_, ?_⟩
  · have hok : (Recorded.on {} SweepArgs.brief.work).1.1.isOk = true := by decide +kernel
    exact hlast.sweep .brief _ _ (Recorded.mayEnd_of_on hok) (by decide +kernel)
  · have hok : (Recorded.on .oneFormula BatchArgs.brief.work).1.1.isOk = true := by decide +kernel
    exact hlast.batch .brief _ _ (Recorded.mayEnd_of_on hok) (by decide +kernel)
  · have hok : (Recorded.on {} SolveArgs.brief.work).1.1.isOk = true := by decide +kernel
    obtain ⟨-, config, fresh, found, report, r', -, -, hfound, hreport⟩ :=
      hlast.solve .brief _ _ (Recorded.mayEnd_of_on hok) (by decide +kernel)
    exact ⟨config, fresh, found, report, r', hfound, hreport⟩
  · obtain ⟨result, e, hrun, herror, hrefusal⟩ := FileTree.exists_refusal
      (a := Machine.mixedFormulas.run (Command.work (.sweep .tooSmall))) (by decide +kernel)
    exact ⟨result, hrun, hkept.command _ result e hrun herror hrefusal⟩
  · obtain ⟨result, e, hrun, herror, hrefusal⟩ := FileTree.exists_refusal
      (a := Machine.mixedFormulas.run Invocation.traceless.work) (by decide +kernel)
    obtain ⟨-, -, hlog⟩ := hkept.invocation _ result e hrun herror hrefusal
    obtain ⟨place, bytes, hfind, hother⟩ := hlog "run.log" rfl
    exact ⟨result, place, bytes, hrun, hfind, hother⟩
  · have hsizes : SweepPlan.sizesOf [2, 5, 1] 3 = .ok [2, 2, 2, 3, 3, 3, 4, 4, 4] := rfl
    rcases hkept.sweep .tooSmall _ 2 hsizes (by decide) (by decide) with hendless | ⟨e, hrun, he⟩
    · have hok : (Machine.mixedFormulas.run SweepArgs.tooSmall.work).isOk = true := by decide +kernel
      rw [hendless] at hok
      cases hok
    · obtain ⟨least, -, rfl⟩ := he config hconfig
      exact ⟨least, hrun⟩
  · have hcontents : Machine.mixedFormulas.tree.contents (BatchArgs.pathIn "in" "b.cnf") = .ok ⟨#[0xff]⟩ := by cbv
    have hunreadable : ¬ Machine.mixedFormulas.tree.HasFormula (BatchArgs.pathIn "in" "b.cnf") := by
      rintro ⟨bytes, file, hbytes, hread⟩
      cases hcontents.symm.trans hbytes
      have hnone : (Dimacs.read ⟨#[0xff]⟩).isOk = false := by decide +kernel
      rw [hread] at hnone
      cases hnone
    have hlisted : Machine.mixedFormulas.tree.listFiles BatchArgs.mixed.indir = .ok ["a.cnf", "b.cnf"] := by cbv
    have hchosen : "b.cnf" ∈ BatchArgs.chosen ["a.cnf", "b.cnf"] := BatchArgs.mem_chosen.2 ⟨by decide, by decide⟩
    obtain ⟨e, hrun, he⟩ := hkept.batch .mixed _ _ hlisted hchosen hunreadable
    obtain ⟨other, cause, -, -, rfl⟩ := he config hconfig
    exact ⟨other, cause, hrun⟩

/-! ## A log in the place of a table -/

/-- The files of its results that a command's arguments name. -/
def Command.outputs : Command → List String
  | .solve args => args.jsonOut.toList ++ args.traceOut.toList
  | .batch args => [args.outfile]
  | .sweep args => [args.outfile]
  | .analyse _ => []

/-- A sweep that is refused for its sizes, with its table's place for the log. -/
def Invocation.loggedOverTable : Invocation where
  verbosity := 0
  quiet := true
  logFile := some "rows.csv"
  threads := none
  command := .sweep .tooSmall

/-- The log is made before the sweep is refused, and the rows of an earlier run are lost. -/
theorem log_file_over_table : ¬ ∀ (i : Invocation) (t : FileTree) (result : FileTree.Result) (e : CommandError),
    t.execute i = .ok result → result.error = some e → e.isRefusal = true →
      ∀ path ∈ i.command.outputs, result.tree.contents path = t.contents path := by
  intro h
  obtain ⟨result, e, hrun, herror, hrefusal⟩ := FileTree.exists_refusal
    (a := Machine.mixedFormulas.tree.execute .loggedOverTable) (by decide +kernel)
  have hkept : result.tree.contents "rows.csv" = Machine.mixedFormulas.tree.contents "rows.csv" :=
    h _ _ result e hrun herror hrefusal "rows.csv" (by decide)
  have hsizes : (Machine.mixedFormulas.tree.execute .loggedOverTable).toOption.map
      (fun result => (result.tree.contents "rows.csv").toOption.map ByteArray.size) = some (some 0) := by decide +kernel
  rw [hrun] at hsizes
  have hbefore : (Machine.mixedFormulas.tree.contents "rows.csv").toOption.map ByteArray.size = some 4 := by
    decide +kernel
  rw [← hkept] at hbefore
  cases (Option.some.inj hsizes).symm.trans hbefore

end SatSearch
