import SatSearch.Command.Program
import SatSearch.Proofs.Command.Answers
/-!
# What commands ask to be changed

On any host at all the changes that a command asks for can be recorded (`Recorded`). What only reads leaves alone
whatever reading on the host leaves alone (`Work.Keeps`), the record among it. What makes files, adds to them and prints
is stopped by nothing but files that cannot be used (`Work.Unrefusing`), and asks for certain changes in order
(`Work.Records`). A command does all of the one before the first of the other (`SolveArgs.mayEnd_work` and the like), so
one that is refused leaves alone what reading does (`Command.see_eq_of_isRefusal`).
-/

namespace SatSearch

open MonadAttach (CanReturn)
open LawfulMonadAttach (canReturn_bind_imp' canReturn_map_imp' eq_of_canReturn_pure)

/-- Whether an error is about what the command was asked to do: its arguments and settings, a file that cannot be
understood, an instance or a search. All others are about files that cannot be used. -/
def CommandError.isRefusal : CommandError → Bool
  | .search _ | .generator _ | .settings _ | .unreadable _ _ | .argument _ => true
  | .file _ | .table _ => false

theorem OutputKind.isRefusal_failure (kind : OutputKind) (e : FileError) : (kind.failure e).isRefusal = false := by
  cases kind <;> rfl

/-! ## A record of changes -/

/-- Something that a command asks to be changed. -/
inductive Change where
  | create (path : String)
  | append (path text : String)
  | print (text : String)
  deriving DecidableEq, Repr

/-- What a single run asks for: its result comes into a file or is printed, and its trace into a file of its own. -/
def SolveArgs.asked (args : SolveArgs) (result trace : String) : List Change :=
  (args.jsonOut.elim [.print (result ++ "\n")] fun path => [.create path, .append path result]) ++
    args.traceOut.elim [] fun path => [.create path, .append path trace]

/-- A host with a record of all changes that it was asked for, whether they could be made or not. -/
abbrev Recorded (m : Type → Type) := StateT (List Change) m

namespace Recorded

variable {m : Type → Type} [Monad m]

instance [Host m] : Host (Recorded m) where
  contents path := StateT.lift (Host.contents path)
  isDirectory path := StateT.lift (Host.isDirectory path)
  listFiles path := StateT.lift (Host.listFiles path)
  timed find := StateT.lift (Host.timed find)
  fresh := StateT.lift Host.fresh

/-- Notes a change and then asks for it. -/
def note {α : Type} (change : Change) (ask : m α) : Recorded m α := fun changes => do
  let a ← ask
  pure (a, changes ++ [change])

instance [Outlet m] : Outlet (Recorded m) where
  create path := note (.create path) (Outlet.create path)
  append path text := note (.append path text) (Outlet.append path text)
  print text := note (.print text) (Outlet.print text)

variable [LawfulMonad m] [MonadAttach m] [LawfulMonadAttach m] {α : Type} {ask : m α} {a : α}
  {change : Change} {changes changes' : List Change}

theorem canReturn_lift (h : CanReturn ((StateT.lift ask : Recorded m α).run changes) (a, changes')) :
    CanReturn ask a ∧ changes' = changes := by
  have h' : CanReturn (ask >>= fun a => pure (a, changes)) (a, changes') := h
  obtain ⟨b, hb, h'⟩ := canReturn_bind_imp' h'
  cases eq_of_canReturn_pure h'
  exact ⟨hb, rfl⟩

theorem canReturn_note (h : CanReturn ((note change ask).run changes) (a, changes')) :
    CanReturn ask a ∧ changes' = changes ++ [change] := by
  have h' : CanReturn (ask >>= fun a => pure (a, changes ++ [change])) (a, changes') := h
  obtain ⟨b, hb, h'⟩ := canReturn_bind_imp' h'
  cases eq_of_canReturn_pure h'
  exact ⟨hb, rfl⟩

instance [Host m] [Host.Honest m] : Host.Honest (Recorded m) where
  timed h := by
    obtain ⟨changes, changes', h⟩ := h
    exact Host.Honest.timed (canReturn_lift h).1

end Recorded

/-! ## Reading -/

/-- What `see` shows of the state of a host is left alone by reading on it. -/
class Host.Leaves (m : Type → Type) [Monad m] [MonadAttach m] {σ ω : Type} [Host (StateT σ m)]
    (see : outParam (σ → ω)) : Prop where
  contents : ∀ {path : String} {s s' : σ} {answer},
    CanReturn ((Host.contents path : StateT σ m _).run s) (answer, s') → see s' = see s
  isDirectory : ∀ {path : String} {s s' : σ} {answer},
    CanReturn ((Host.isDirectory path : StateT σ m _).run s) (answer, s') → see s' = see s
  listFiles : ∀ {path : String} {s s' : σ} {answer},
    CanReturn ((Host.listFiles path : StateT σ m _).run s) (answer, s') → see s' = see s
  timed : ∀ {α : Type} {find : Unit → α} {s s' : σ} {answer},
    CanReturn ((Host.timed find : StateT σ m _).run s) (answer, s') → see s' = see s
  fresh : ∀ {s s' : σ} {answer}, CanReturn ((Host.fresh : StateT σ m _).run s) (answer, s') → see s' = see s

instance {m : Type → Type} [Monad m] [LawfulMonad m] [MonadAttach m] [LawfulMonadAttach m] [Host m] :
    Host.Leaves m (σ := List Change) id where
  contents h := (Recorded.canReturn_lift h).2
  isDirectory h := (Recorded.canReturn_lift h).2
  listFiles h := (Recorded.canReturn_lift h).2
  timed h := (Recorded.canReturn_lift h).2
  fresh h := (Recorded.canReturn_lift h).2

/-- What commands change on a machine: its files, and what is printed. -/
def Machine.shown (M : Machine) : FileTree × String := (M.tree, M.printed)

instance : Host.Leaves Id Machine.shown where
  contents h := by cases h; rfl
  isDirectory h := by cases h; rfl
  listFiles h := by cases h; rfl
  timed h := by cases h; rfl
  fresh h := by cases h; rfl

namespace Work

variable {m : Type → Type} [Monad m] [LawfulMonad m] [MonadAttach m] [LawfulMonadAttach m] {σ ω α β ε : Type}
  {see : σ → ω} {work : Work (StateT σ m) α} {f : α → Work (StateT σ m) β}

/-- The work leaves alone what `see` shows, however it ends. -/
def Keeps (see : σ → ω) (work : Work (StateT σ m) α) : Prop :=
  ∀ s answer s', work.MayEnd s answer s' → see s' = see s

namespace Keeps

theorem pure (a : α) : Keeps see (pure a : Work (StateT σ m) α) := fun _ _ _ h => by rw [(mayEnd_pure h).2]

theorem throw (stop : Stop) : Keeps see (throw stop : Work (StateT σ m) α) := fun _ _ _ h => by
  rw [(mayEnd_throw h).2]

theorem bind (h : Keeps see work) (hf : ∀ a, Keeps see (f a)) : Keeps see (work >>= f) := fun s _ s' hend => by
  rcases mayEnd_bind hend with ⟨stop, -, hfirst⟩ | ⟨a, s₁, hfirst, hrest⟩
  · exact h _ _ _ hfirst
  · exact (hf a _ _ _ hrest).trans (h _ _ _ hfirst)

theorem ofHost {ask : StateT σ m α} (h : ∀ {s s' a}, CanReturn (ask.run s) (a, s') → see s' = see s) :
    Keeps see (ofHost ask) := fun _ _ _ hend => by
  obtain ⟨a, -, ha⟩ := mayEnd_ofHost hend
  exact h ha

theorem orFail (g : ε → CommandError) (x : Except ε α) : Keeps see (orFail g x : Work (StateT σ m) α) := by
  cases x with
  | ok a => exact pure a
  | error e => exact throw _

theorem orFault (x : Except Fault α) : Keeps see (orFault x : Work (StateT σ m) α) := by
  cases x with
  | ok a => exact pure a
  | error fault => exact throw _

theorem refuseIf (condition : Bool) (e : ArgumentError) :
    Keeps see (refuseIf condition e : Work (StateT σ m) Unit) := by
  cases condition with
  | false => exact pure ()
  | true => exact throw _

theorem draw (d : Draw α) (g : Generator) : Keeps see (draw d g : Work (StateT σ m) α) :=
  (orFault _).bind fun _ => pure _

theorem jobsOf (ratio : Float) (points : List SweepPoint) :
    Keeps see (SweepArgs.jobsOf ratio points : Work (StateT σ m) (List BatchJob)) := by
  induction points with
  | nil => exact pure []
  | cons p points ih =>
    exact (orFault _).bind fun answer => (orFail _ answer).bind fun job => ih.bind fun jobs => pure _

theorem plantedFormula (config : AppConfig) (numVars : Nat) (numClauses : Option Nat) (fresh : Generator) :
    Keeps see (plantedFormula config numVars numClauses fresh : Work (StateT σ m) Formula) :=
  (draw _ _).bind fun answer => (orFail _ answer).bind fun _ => pure _

variable [Host (StateT σ m)] [Host.Leaves m see]

theorem bytes (failure : FileError → CommandError) (path : String) :
    Keeps see (bytes failure path : Work (StateT σ m) ByteArray) :=
  (ofHost Host.Leaves.contents).bind fun answer => orFail failure answer

theorem settingsFile (path : String) : Keeps see (settingsFile path : Work (StateT σ m) SettingsFile) := by
  refine (bytes _ path).bind fun content => ?_
  split
  · exact throw _
  · split
    · exact throw _
    · exact pure _

theorem configure (args : SearchArgs) (ratio : Option Float) :
    Keeps see (configure args ratio : Work (StateT σ m) AppConfig) := by
  unfold Work.configure
  cases args.config with
  | none => exact (pure _).bind fun file => orFail _ _
  | some path => exact (settingsFile path).bind fun file => orFail _ _

theorem formulaFile (path : String) : Keeps see (formulaFile path : Work (StateT σ m) Formula) := by
  refine (bytes _ path).bind fun content => ?_
  split
  · exact throw _
  · exact pure _

theorem formulaOf (args : SolveArgs) (config : AppConfig) (fresh : Generator) :
    Keeps see (formulaOf args config fresh : Work (StateT σ m) (Formula × InstanceOrigin)) := by
  unfold Work.formulaOf
  split
  · exact (plantedFormula _ _ _ _).bind fun formula => pure _
  · exact (formulaFile _).bind fun formula => pure _
  · exact throw _

theorem fresh : Keeps see (Work.ofHost Host.fresh : Work (StateT σ m) (Nat → Generator)) := ofHost Host.Leaves.fresh

theorem timed (find : Unit → Except Fault α) : Keeps see (timed find : Work (StateT σ m) (α × Float)) :=
  (ofHost Host.Leaves.timed).bind fun found => (orFault found.1).bind fun _ => pure _

theorem solveJobs (config : SearchConfig) (fresh : Nat → Generator) (position : Nat) (jobs : List BatchJob) :
    Keeps see (solveJobs config fresh position jobs : Work (StateT σ m) (List BatchRecord)) := by
  induction jobs generalizing position with
  | nil => exact pure []
  | cons job jobs ih => exact (timed _).bind fun found => (ih (position + 1)).bind fun records => pure _

theorem fileNames (indir : String) : Keeps see (BatchArgs.fileNames indir : Work (StateT σ m) (List String)) :=
  (ofHost Host.Leaves.isDirectory).bind fun _ => (refuseIf _ _).bind fun _ =>
    (ofHost Host.Leaves.listFiles).bind fun answer => (orFail _ answer).bind fun _ => pure _

theorem filesOf (indir : String) (names : List String) :
    Keeps see (BatchArgs.jobsOf indir names : Work (StateT σ m) (List BatchJob)) := by
  induction names with
  | nil => exact pure []
  | cons name names ih => exact (formulaFile _).bind fun formula => ih.bind fun jobs => pure _

theorem tableBytes (path : String) : Keeps see (AnalyseArgs.tableBytes path : Work (StateT σ m) (List UInt8)) := by
  refine (ofHost Host.Leaves.contents).bind fun answer => ?_
  split
  · exact pure _
  · exact pure _
  · exact throw _

end Keeps

/-! ## Results -/

/-- The work is not stopped by a refusal. -/
def Unrefusing (work : Work (StateT σ m) α) : Prop :=
  ∀ s e s', work.MayEnd s (.error (.error e)) s' → e.isRefusal = false

namespace Unrefusing

theorem pure (a : α) : Unrefusing (pure a : Work (StateT σ m) α) := fun _ _ _ h => by cases (mayEnd_pure h).1

theorem ofHost (ask : StateT σ m α) : Unrefusing (ofHost ask) := fun _ _ _ h => by
  obtain ⟨a, ha, -⟩ := mayEnd_ofHost h
  cases ha

theorem bind (h : Unrefusing work) (hf : ∀ a, Unrefusing (f a)) : Unrefusing (work >>= f) := fun _ _ _ hend => by
  rcases mayEnd_bind hend with ⟨stop, hstop, hfirst⟩ | ⟨a, s₁, -, hrest⟩
  · cases hstop
    exact h _ _ _ hfirst
  · exact hf a _ _ _ hrest

theorem orFail (kind : OutputKind) (x : Except FileError α) :
    Unrefusing (orFail kind.failure x : Work (StateT σ m) α) := fun _ _ _ h => by
  rcases (mayEnd_orFail h).2 with ⟨a, -, ha⟩ | ⟨e, -, he⟩
  · cases ha
  · cases he
    exact kind.isRefusal_failure e

variable [Outlet (StateT σ m)]

theorem create (kind : OutputKind) (path : String) : Unrefusing (create kind path : Work (StateT σ m) Unit) :=
  (ofHost _).bind fun answer => orFail kind answer

theorem append (kind : OutputKind) (path text : String) :
    Unrefusing (append kind path text : Work (StateT σ m) Unit) := (ofHost _).bind fun answer => orFail kind answer

theorem write (kind : OutputKind) (path text : String) : Unrefusing (write kind path text : Work (StateT σ m) Unit) :=
  (create kind path).bind fun _ => append kind path text

theorem print (text : String) : Unrefusing (print text : Work (StateT σ m) Unit) := ofHost _

theorem tellRuns (path : String) (columns : List String) (rows : List Fields) (runs : List Told) :
    Unrefusing (tellRuns path columns rows runs : Work (StateT σ m) Unit) := by
  induction runs generalizing rows with
  | nil => exact append _ _ _
  | cons run runs ih => exact (print _).bind fun _ => ih _

theorem tellTable (path : String) (columns : List String) (runs : List Told) :
    Unrefusing (tellTable path columns runs : Work (StateT σ m) Unit) :=
  (create _ _).bind fun _ => tellRuns _ _ _ _

theorem tell (args : SolveArgs) (output : SolveOutput) (trace : Option (Array Float)) :
    Unrefusing (args.tell output trace : Work (StateT σ m) Unit) := by
  refine bind ?_ fun _ => ?_
  · unfold SolveArgs.tellResult
    cases args.jsonOut with
    | none => exact print _
    | some path => exact write _ _ _
  · unfold SolveArgs.tellTrace
    cases args.traceOut with
    | none => exact pure ()
    | some path => exact write _ _ _

theorem openLog (i : Invocation) : Unrefusing (i.openLog : Work (StateT σ m) Unit) := by
  unfold Invocation.openLog
  cases i.logFile with
  | none => exact pure ()
  | some path => exact create _ _

end Unrefusing

/-! ## What is asked for -/

/-- The changes that the work asks for, in order: the first of them if it is stopped, and all if it is not. -/
def Records (work : Work (Recorded m) α) (asked : List Change) : Prop :=
  ∀ changes answer changes', work.MayEnd changes answer changes' →
    ∃ done, changes' = changes ++ done ∧ done <+: asked ∧ ∀ a, answer = .ok a → done = asked

theorem Told.append_rows_cons (rows : List Fields) (run : Told) (runs : List Told) :
    rows ++ (run :: runs).filterMap (·.row) = rows ++ run.row.toList ++ runs.filterMap (·.row) := by
  rw [List.filterMap_cons, List.append_assoc]
  cases run.row <;> rfl

namespace Records

variable {work : Work (Recorded m) α} {f : α → Work (Recorded m) β} {asked more : List Change}

omit [Monad m] [LawfulMonad m] [LawfulMonadAttach m] in
theorem of_keeps (h : Keeps id work) : Records work [] := fun changes answer changes' hend =>
  ⟨[], by rw [List.append_nil]; exact h _ _ _ hend, List.nil_prefix, fun _ _ => rfl⟩

theorem note (change : Change) (ask : m α) : Records (ofHost (Recorded.note change ask)) [change] :=
  fun _ _ _ hend => by
    obtain ⟨a, -, hnote⟩ := mayEnd_ofHost hend
    exact ⟨[change], (Recorded.canReturn_note hnote).2, List.prefix_rfl, fun _ _ => rfl⟩

theorem bind (h : Records work asked) (hf : ∀ a, Records (f a) more) : Records (work >>= f) (asked ++ more) :=
  fun _ _ _ hend => by
    rcases mayEnd_bind hend with ⟨stop, rfl, hfirst⟩ | ⟨a, changes₁, hfirst, hrest⟩
    · obtain ⟨done, hdone, hprefix, -⟩ := h _ _ _ hfirst
      exact ⟨done, hdone, hprefix.trans (List.prefix_append _ _), fun a ha => by cases ha⟩
    · obtain ⟨done, rfl, -, hall⟩ := h _ _ _ hfirst
      obtain ⟨done', rfl, hprefix, hall'⟩ := hf a _ _ _ hrest
      obtain rfl := hall a rfl
      refine ⟨done ++ done', List.append_assoc .., (List.prefix_append_right_inj done).2 hprefix, fun b hb => ?_⟩
      rw [hall' b hb]

/-- A change that may be impossible. -/
theorem orFail (change : Change) (ask : m (Except ε α)) (g : ε → CommandError) :
    Records (ofHost (Recorded.note change ask) >>= Work.orFail g) [change] :=
  (note change ask).bind fun answer => of_keeps (.orFail g answer)

variable [Outlet m]

theorem create (kind : OutputKind) (path : String) :
    Records (create kind path : Work (Recorded m) Unit) [.create path] := orFail _ _ _

theorem append (kind : OutputKind) (path text : String) :
    Records (append kind path text : Work (Recorded m) Unit) [.append path text] := orFail _ _ _

theorem write (kind : OutputKind) (path text : String) :
    Records (write kind path text : Work (Recorded m) Unit) [.create path, .append path text] :=
  (create kind path).bind fun _ => append kind path text

theorem print (text : String) : Records (print text : Work (Recorded m) Unit) [.print text] := note _ _

theorem tellRuns (path : String) (columns : List String) (rows : List Fields) (runs : List Told) :
    Records (tellRuns path columns rows runs : Work (Recorded m) Unit)
      (runs.map (fun run => .print (run.line ++ "\n")) ++
        [.append path (tableText columns (rows ++ runs.filterMap (·.row)))]) := by
  induction runs generalizing rows with
  | nil =>
    rw [List.filterMap_nil, List.append_nil]
    exact append _ _ _
  | cons run runs ih =>
    rw [Told.append_rows_cons, List.map_cons, List.cons_append]
    exact (print (run.line ++ "\n")).bind fun _ => ih (rows ++ run.row.toList)

theorem tellTable (path : String) (columns : List String) (runs : List Told) :
    Records (tellTable path columns runs : Work (Recorded m) Unit)
      (.create path :: runs.map (fun run => .print (run.line ++ "\n")) ++
        [.append path (tableText columns (runs.filterMap (·.row)))]) :=
  (create _ _).bind fun _ => tellRuns path columns [] runs

theorem tell (args : SolveArgs) (output : SolveOutput) (trace : Option (Array Float)) :
    Records (args.tell output trace : Work (Recorded m) Unit)
      (args.asked output.toJson.indentedText (traceText (trace.getD #[]))) := by
  refine bind ?_ fun _ => ?_
  · unfold SolveArgs.tellResult
    cases args.jsonOut with
    | none => exact print _
    | some path => exact write _ _ _
  · unfold SolveArgs.tellTrace
    cases args.traceOut with
    | none => exact of_keeps (.pure ())
    | some path => exact write _ _ _

theorem openLog (i : Invocation) :
    Records (i.openLog : Work (Recorded m) Unit) (i.logFile.toList.map .create) := by
  unfold Invocation.openLog
  cases i.logFile with
  | none => exact of_keeps (.pure ())
  | some path => exact create _ _

end Records

/-! ## Reading before the rest -/

/-- Work that begins with reading is stopped there, or goes on with what was read. -/
theorem Keeps.mayEnd_bind {s₀ s s' : σ} {answer : Except Stop β} (h : Keeps see work) (hs : see s = see s₀)
    (hend : (work >>= f).MayEnd s answer s') : ((∃ stop, answer = .error stop) ∧ see s' = see s₀) ∨
      ∃ a s₁, work.MayEnd s (.ok a) s₁ ∧ see s₁ = see s₀ ∧ (f a).MayEnd s₁ answer s' := by
  rcases Work.mayEnd_bind hend with ⟨stop, hstop, hfirst⟩ | ⟨a, s₁, hfirst, hrest⟩
  · exact .inl ⟨⟨stop, hstop⟩, (h _ _ _ hfirst).trans hs⟩
  · exact .inr ⟨a, s₁, hfirst, (h _ _ _ hfirst).trans hs, hrest⟩

end Work

section
variable {m : Type → Type} [Monad m] [LawfulMonad m] [MonadAttach m] [LawfulMonadAttach m] {σ ω : Type} {see : σ → ω}
  [Host (StateT σ m)] [Host.Leaves m see] [Outlet (StateT σ m)] {s₀ s' : σ} {answer : Except Stop Unit}

open Work (Keeps Unrefusing)

/-- A single run is stopped while it reads, or tells of a search. -/
theorem SolveArgs.mayEnd_work {args : SolveArgs} (h : (args.work : Work (StateT σ m) Unit).MayEnd s₀ answer s') :
    ((∃ stop, answer = .error stop) ∧ see s' = see s₀) ∨
    ∃ config, ∃ fresh : Nat → Generator, ∃ found searched report s,
      (args.clauses.isSome && args.random.isNone) = false ∧
      CanReturn (Work.configure args.search none : Work (StateT σ m) AppConfig) config ∧
      (args.traceOut.isSome && !config.search.recordTrace) = false ∧
      CanReturn (Work.formulaOf args config (fresh 0) : Work (StateT σ m) (Formula × InstanceOrigin)) found ∧
      CanReturn (Work.timed fun _ => solveFormula found.1 config.search (fresh 1) .silent :
        Work (StateT σ m) ((Except SearchError SolveReport × Reporter) × Float)) searched ∧
      searched.1.1 = .ok report ∧ see s = see s₀ ∧
      (args.tell (.ofReport found.2 report searched.2) report.result.trace : Work (StateT σ m) Unit).MayEnd
        s answer s' := by
  have hs : see s₀ = see s₀ := rfl
  rcases (Keeps.refuseIf _ _).mayEnd_bind hs h with hstop | ⟨_, s, hclauses, hs, h⟩
  · exact .inl hstop
  rcases (Keeps.configure _ _).mayEnd_bind hs h with hstop | ⟨config, s, hconfig, hs, h⟩
  · exact .inl hstop
  rcases (Keeps.refuseIf _ _).mayEnd_bind hs h with hstop | ⟨_, s, htrace, hs, h⟩
  · exact .inl hstop
  rcases Keeps.fresh.mayEnd_bind hs h with hstop | ⟨fresh, s, -, hs, h⟩
  · exact .inl hstop
  rcases (Keeps.formulaOf _ _ _).mayEnd_bind hs h with hstop | ⟨found, s, hfound, hs, h⟩
  · exact .inl hstop
  rcases (Keeps.timed _).mayEnd_bind hs h with hstop | ⟨searched, s, hsearched, hs, h⟩
  · exact .inl hstop
  rcases (Keeps.orFail _ _).mayEnd_bind hs h with hstop | ⟨report, s, hreport, hs, h⟩
  · exact .inl hstop
  exact .inr ⟨config, fresh, found, searched, report, s, Work.canReturn_refuseIf hclauses.canReturn, hconfig.canReturn,
    Work.canReturn_refuseIf htrace.canReturn, hfound.canReturn, hsearched.canReturn,
    Work.canReturn_orFail hreport.canReturn, hs, h⟩

/-- A batch is stopped while it reads, or tells of its records. -/
theorem BatchArgs.mayEnd_work {args : BatchArgs} (h : (args.work : Work (StateT σ m) Unit).MayEnd s₀ answer s') :
    ((∃ stop, answer = .error stop) ∧ see s' = see s₀) ∨
    ∃ config names jobs fresh records s₁ s₂ s₃ s,
      (Work.configure args.search none : Work (StateT σ m) AppConfig).MayEnd s₀ (.ok config) s₁ ∧ see s₁ = see s₀ ∧
      (fileNames args.indir : Work (StateT σ m) (List String)).MayEnd s₁ (.ok names) s₂ ∧ see s₂ = see s₀ ∧
      (jobsOf args.indir names : Work (StateT σ m) (List BatchJob)).MayEnd s₂ (.ok jobs) s₃ ∧
      CanReturn (Work.solveJobs config.search fresh 0 jobs : Work (StateT σ m) (List BatchRecord)) records ∧
      see s = see s₀ ∧ (Work.tellTable args.outfile BatchTable.columns ((byName records).map told) :
        Work (StateT σ m) Unit).MayEnd s answer s' := by
  have hs : see s₀ = see s₀ := rfl
  rcases (Keeps.configure _ _).mayEnd_bind hs h with hstop | ⟨config, s₁, hconfig, hs₁, h⟩
  · exact .inl hstop
  rcases (Keeps.fileNames _).mayEnd_bind hs₁ h with hstop | ⟨names, s₂, hnames, hs₂, h⟩
  · exact .inl hstop
  rcases (Keeps.filesOf _ _).mayEnd_bind hs₂ h with hstop | ⟨jobs, s₃, hjobs, hs, h⟩
  · exact .inl hstop
  rcases Keeps.fresh.mayEnd_bind hs h with hstop | ⟨fresh, s, -, hs, h⟩
  · exact .inl hstop
  rcases (Keeps.solveJobs _ _ _ _).mayEnd_bind hs h with hstop | ⟨records, s, hrecords, hs, h⟩
  · exact .inl hstop
  exact .inr ⟨config, names, jobs, fresh, records, s₁, s₂, s₃, s, hconfig, hs₁, hnames, hs₂, hjobs,
    hrecords.canReturn, hs, h⟩

/-- A sweep is stopped while it reads, or tells of its points. -/
theorem SweepArgs.mayEnd_work {args : SweepArgs} (h : (args.work : Work (StateT σ m) Unit).MayEnd s₀ answer s') :
    ((∃ stop, answer = .error stop) ∧ see s' = see s₀) ∨
    ∃ config g g' points jobs fresh records s₁ s,
      (Work.configure args.search args.clausesPerVar : Work (StateT σ m) AppConfig).MayEnd s₀ (.ok config) s₁ ∧
      SweepPlan.plan args.range (args.runs.getD SweepPlan.defaultRuns) g = .ok (.ok points, g') ∧
      CanReturn (jobsOf config.clausesPerVar points : Work (StateT σ m) (List BatchJob)) jobs ∧
      CanReturn (Work.solveJobs config.search fresh 0 jobs : Work (StateT σ m) (List BatchRecord)) records ∧
      see s = see s₀ ∧ (Work.tellTable args.outfile SweepTable.columns ((points.zip records).map told) :
        Work (StateT σ m) Unit).MayEnd s answer s' := by
  have hs : see s₀ = see s₀ := rfl
  rcases (Keeps.configure _ _).mayEnd_bind hs h with hstop | ⟨config, s₁, hconfig, hs, h⟩
  · exact .inl hstop
  rcases Keeps.fresh.mayEnd_bind hs h with hstop | ⟨fresh, s, -, hs, h⟩
  · exact .inl hstop
  rcases (Keeps.draw _ _).mayEnd_bind hs h with hstop | ⟨planned, s, hplanned, hs, h⟩
  · exact .inl hstop
  rcases (Keeps.orFail _ _).mayEnd_bind hs h with hstop | ⟨points, s, hpoints, hs, h⟩
  · exact .inl hstop
  rcases (Keeps.jobsOf _ _).mayEnd_bind hs h with hstop | ⟨jobs, s, hjobs, hs, h⟩
  · exact .inl hstop
  rcases (Keeps.solveJobs _ _ _ _).mayEnd_bind hs h with hstop | ⟨records, s, hrecords, hs, h⟩
  · exact .inl hstop
  obtain ⟨g', hplan⟩ := Work.canReturn_draw hplanned.canReturn
  rw [Work.canReturn_orFail hpoints.canReturn] at hplan
  exact .inr ⟨config, _, g', points, jobs, fresh, records, s₁, s, hconfig, hplan, hjobs.canReturn,
    hrecords.canReturn, hs, h⟩

/-- Analyse is stopped while it reads, or prints. -/
theorem AnalyseArgs.mayEnd_work {args : AnalyseArgs} (h : (args.work : Work (StateT σ m) Unit).MayEnd s₀ answer s') :
    ((∃ stop, answer = .error stop) ∧ see s' = see s₀) ∨
    ∃ text s, see s = see s₀ ∧ (Work.print text : Work (StateT σ m) Unit).MayEnd s answer s' := by
  have hstopped : ∀ {s e}, see s = see s₀ → (Work.fail e : Work (StateT σ m) Unit).MayEnd s answer s' →
      (∃ stop, answer = .error stop) ∧ see s' = see s₀ := fun hs hend => by
    obtain ⟨rfl, rfl⟩ := Work.mayEnd_throw hend
    exact ⟨⟨_, rfl⟩, hs⟩
  have hs : see s₀ = see s₀ := rfl
  rcases (Keeps.tableBytes _).mayEnd_bind hs h with hstop | ⟨bytes, s, -, hs, h⟩
  · exact .inl hstop
  split at h
  · exact .inl (hstopped hs h)
  · split at h
    · exact .inl (hstopped hs h)
    · exact .inr ⟨_, s, hs, h⟩

/-- A command that is refused has made no file, added to none and printed nothing. -/
theorem Command.see_eq_of_isRefusal {c : Command} {e : CommandError}
    (h : (c.work : Work (StateT σ m) Unit).MayEnd s₀ (.error (.error e)) s') (he : e.isRefusal = true) :
    see s' = see s₀ := by
  have hrefused : ∀ {work : Work (StateT σ m) Unit} {s}, Unrefusing work → ¬ work.MayEnd s (.error (.error e)) s' :=
    fun hwork hend => by
      rw [hwork _ _ _ hend] at he
      cases he
  cases c with
  | solve args =>
    rcases (args.mayEnd_work h : (_ ∧ see s' = see s₀) ∨ _) with ⟨-, hsee⟩ |
      ⟨_, _, _, _, _, _, -, -, -, -, -, -, -, hend⟩
    · exact hsee
    · exact absurd hend (hrefused (.tell _ _ _))
  | batch args =>
    rcases (args.mayEnd_work h : (_ ∧ see s' = see s₀) ∨ _) with ⟨-, hsee⟩ |
      ⟨_, _, _, _, _, _, _, _, _, -, -, -, -, -, -, -, hend⟩
    · exact hsee
    · exact absurd hend (hrefused (.tellTable _ _ _))
  | sweep args =>
    rcases (args.mayEnd_work h : (_ ∧ see s' = see s₀) ∨ _) with ⟨-, hsee⟩ |
      ⟨_, _, _, _, _, _, _, _, _, -, -, -, -, -, hend⟩
    · exact hsee
    · exact absurd hend (hrefused (.tellTable _ _ _))
  | analyse args =>
    rcases (args.mayEnd_work h : (_ ∧ see s' = see s₀) ∨ _) with ⟨-, hsee⟩ | ⟨_, _, -, hend⟩
    · exact hsee
    · exact absurd hend (hrefused (.print _))

end

end SatSearch
