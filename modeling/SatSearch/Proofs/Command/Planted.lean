import SatSearch.Proofs.Command.Changes
import SatSearch.Proofs.Command.Jobs
import SatSearch.Proofs.Run.Planted
import SatSearch.Proofs.Run.ResultTables
/-!
# Commands on planted instances

A sweep draws each instance from the seed that it then searches it with, and so does the solving of
one planted instance under a given seed. No such search takes a step, whatever the sizes, the ratio
and the settings are, and so the rows, the lines and the text that tell of it are known but for the
sizes and the time (`SweepPoint.ToldAtOnce`, `SolveOutput.atOnceText`).

Main statement: `planted_solved_at_once`.
-/

namespace SatSearch

open Json (Value)
open MonadAttach (CanReturn)
open LawfulMonadAttach (canReturn_bind_imp' eq_of_canReturn_pure)

/-! ## What is told of a search without steps -/

/-- What a sweep tells of a point and its formula: a line that is printed and a row of the table, both of a solution in
0 steps, or, where the search does not take the formula, a line with the reason and no row. -/
inductive SweepPoint.ToldAtOnce (p : SweepPoint) (f : Formula) : Work.Told → Prop
  | solved (seconds : Float) : ToldAtOnce p f
    { line := "n=" ++ toString p.n ++ " m=" ++ toString f.numClauses ++ " seed=" ++ toString p.seed.toNat ++
        " solved=true valence=1.000 steps=0 time=" ++ Decimal.fixed 2 seconds ++ "s"
      row := some ([toString p.n, toString f.numClauses, toString p.seed.toNat, "true", "1.0", "0",
        Decimal.number seconds].map String.toList) }
  | refused (reason : String) : ¬ (0 < f.numLiterals ∧ f.numVars ≤ Occurrences.maxVariables) → ToldAtOnce p f
    { line := "n=" ++ toString p.n ++ " seed=" ++ toString p.seed.toNat ++ ": skipped (" ++ reason ++ ")"
      row := none }

/-- What is told of a planted instance that was solved in 0 steps. -/
def SolveOutput.atOnceText (numVars numClauses : Nat) (seconds : String) : String :=
  "\x7b\n  \"instance\": \x7b\n    \"type\": \"random\",\n    \"n\": " ++ toString numVars ++ ",\n    \"m\": " ++
    toString numClauses ++ "\n  \x7d,\n  \"best_valence\": " ++ "1.0" ++ ",\n  \"steps\": " ++ "0" ++
    ",\n  \"runtime_sec\": " ++ seconds ++ ",\n  \"solved\": " ++ "true" ++ "\n\x7d"

theorem Json.renderIndented_ofFloat (depth : Nat) (x : Float) :
    renderIndented depth (.ofFloat x) = render (.ofFloat x) := by
  unfold Value.ofFloat
  split <;> simp [renderIndented]

theorem Json.text_ofFloat_one : (Value.ofFloat 1.0).text = "1.0" := by decide +kernel

theorem Decimal.number_one : number 1.0 = "1.0" := by decide +kernel

theorem Decimal.fixed_three_one : fixed 3 1.0 = "1.000" := by decide +kernel

namespace SolveOutput

/-- The indented form of what is told about a planted instance, with any values in it. -/
theorem renderIndented_members (n m valence steps seconds solved : Value) :
    Json.renderIndented 0 (.ofMembers [("instance", .ofMembers [("type", .ofText "random"), ("n", n), ("m", m)]),
      ("best_valence", valence), ("steps", steps), ("runtime_sec", seconds), ("solved", solved)]) =
    "\x7b\n  \"instance\": \x7b\n    \"type\": \"random\",\n    \"n\": ".toList ++ Json.renderIndented 2 n ++
      ",\n    \"m\": ".toList ++ Json.renderIndented 2 m ++
      "\n  \x7d,\n  \"best_valence\": ".toList ++ Json.renderIndented 1 valence ++
      ",\n  \"steps\": ".toList ++ Json.renderIndented 1 steps ++
      ",\n  \"runtime_sec\": ".toList ++ Json.renderIndented 1 seconds ++
      ",\n  \"solved\": ".toList ++ Json.renderIndented 1 solved ++ "\n\x7d".toList := by
  simp only [Value.ofMembers, List.map_cons, List.map_nil, Json.renderIndented, Json.renderIndentedMembers,
    List.append_assoc, List.cons_append]
  rfl

theorem indentedText_random (numVars numClauses steps : Nat) (valence seconds : Float) (solved : Bool) :
    (toJson ⟨.random numVars numClauses, valence, steps, seconds, solved⟩).indentedText =
    "\x7b\n  \"instance\": \x7b\n    \"type\": \"random\",\n    \"n\": " ++ toString numVars ++ ",\n    \"m\": " ++
      toString numClauses ++ "\n  \x7d,\n  \"best_valence\": " ++ (Value.ofFloat valence).text ++ ",\n  \"steps\": " ++
      toString steps ++ ",\n  \"runtime_sec\": " ++ (Value.ofFloat seconds).text ++ ",\n  \"solved\": " ++
      boolText solved ++ "\n\x7d" := by
  have hcount : ∀ depth n, Json.renderIndented depth (.ofNat n) = (toString n).toList := fun depth n => by
    simp [Value.ofNat, Json.renderIndented, Json.render]
  have hbool : Json.renderIndented 1 (.bool solved) = (boolText solved).toList := by
    cases solved <;> rfl
  refine String.toList_injective ?_
  rw [Value.indentedText, String.toList_ofList, toJson, InstanceOrigin.toJson, renderIndented_members, hcount, hcount,
    hcount, hbool, Json.renderIndented_ofFloat, Json.renderIndented_ofFloat]
  simp only [String.toList_append, Value.text, String.toList_ofList]

theorem indentedText_atOnce (numVars numClauses : Nat) {valence : Float} (h : valence = 1.0) (seconds : Float) :
    (toJson ⟨.random numVars numClauses, valence, 0, seconds, true⟩).indentedText =
      atOnceText numVars numClauses (Value.ofFloat seconds).text := by
  have hone : (Value.ofFloat valence).text = "1.0" := by
    rw [h]
    exact Json.text_ofFloat_one
  have hzero : toString 0 = "0" := by decide
  rw [indentedText_random, hone, hzero]
  rfl

end SolveOutput

variable {m : Type → Type} [Monad m] [LawfulMonad m] [MonadAttach m] [LawfulMonadAttach m]

theorem BatchRecord.SolvedAtOnce.withRuntime {r : BatchRecord} (h : r.SolvedAtOnce) (seconds : Float) :
    (r.withRuntime seconds).SolvedAtOnce := by
  unfold BatchRecord.withRuntime
  split
  · exact h
  · exact h

/-- The end of the line on a search that was solved at once. -/
theorem outcomeText_of_atOnce {r : BatchRecord} (hsolved : r.solved = true) (hsteps : r.steps = 0)
    (hvalence : r.bestValence = 1.0) :
    outcomeText r = "solved=true valence=1.000 steps=0 time=" ++ Decimal.fixed 2 r.runtime ++ "s" := by
  have hstart : "solved=" ++ boolText true ++ " valence=" ++ "1.000" ++ " steps=" ++ toString 0 ++ " time=" =
      "solved=true valence=1.000 steps=0 time=" := by decide +kernel
  rw [outcomeText, hsolved, hsteps, hvalence, Decimal.fixed_three_one, hstart]

theorem outcomeFields_of_atOnce {r : BatchRecord} (hsolved : r.solved = true) (hsteps : r.steps = 0)
    (hvalence : r.bestValence = 1.0) :
    outcomeFields r = ["true", "1.0", "0", Decimal.number r.runtime].map String.toList := by
  rw [outcomeFields, hsolved, hsteps, hvalence, floatField, Decimal.number_one]
  rfl

namespace SweepPoint

variable {p : SweepPoint} {f : Formula} {r : BatchRecord}

theorem toldAtOnce_of_error {reason : String} (herror : r.error = some reason)
    (hrefused : ¬ (0 < f.numLiterals ∧ f.numVars ≤ Occurrences.maxVariables)) :
    p.ToldAtOnce f (SweepArgs.told (p, r)) := by
  have hword : ": " ++ "skipped (" = ": skipped (" := by decide
  have hline : SweepArgs.line p r =
      "n=" ++ toString p.n ++ " seed=" ++ toString p.seed.toNat ++ ": skipped (" ++ reason ++ ")" := by
    rw [SweepArgs.line, herror, ← hword]
    simp only [skippedText, String.append_assoc]
  rw [SweepArgs.told, hline, herror]
  exact .refused reason hrefused

theorem toldAtOnce_of_solved (herror : r.error = none) (h : r.SolvedAtOnce) (hm : r.m = f.numClauses) :
    p.ToldAtOnce f (SweepArgs.told (p, r)) := by
  obtain ⟨hsolved, hsteps, hvalence⟩ := h herror
  have hword : " " ++ "solved=true valence=1.000 steps=0 time=" = " solved=true valence=1.000 steps=0 time=" := by
    decide +kernel
  have hline : SweepArgs.line p r = "n=" ++ toString p.n ++ " m=" ++ toString f.numClauses ++ " seed=" ++
      toString p.seed.toNat ++ " solved=true valence=1.000 steps=0 time=" ++ Decimal.fixed 2 r.runtime ++ "s" := by
    rw [SweepArgs.line, herror, ← hword, ← hm]
    simp only [outcomeText_of_atOnce hsolved hsteps hvalence, String.append_assoc]
  have hrow : SweepTable.fields p r = [toString p.n, toString f.numClauses, toString p.seed.toNat, "true", "1.0", "0",
      Decimal.number r.runtime].map String.toList := by
    rw [SweepTable.fields, outcomeFields_of_atOnce hsolved hsteps hvalence, hm]
    rfl
  rw [SweepArgs.told, hline, hrow, herror]
  exact .solved r.runtime

/-- What a sweep tells of a point is that it was solved at once, unless its formula was refused. -/
theorem toldAtOnce {ratio : Float} {job : BatchJob} {config : SearchConfig} {i : Nat}
    (hjob : p.job ratio = .ok (.ok job)) (hvalid : config.validate = .ok ())
    (h : Batch.IsTimedRecordOf config i job r) : p.ToldAtOnce job.formula (SweepArgs.told (p, r)) := by
  have hseed : job.seed ≠ none := by
    rw [(job_eq_ok hjob).2]
    exact Option.some_ne_none _
  have hrecord := h.isRecordOf (.inl hseed)
  obtain ⟨fresh, seconds, found, hfound, rfl⟩ := h
  cases herror : (found.withRuntime seconds).error with
  | some reason =>
    refine toldAtOnce_of_error herror fun hfits => ?_
    cases herror.symm.trans ((hrecord.error_eq_none_iff hvalid).2 hfits)
  | none =>
    have hsolved := Batch.solvedAtOnce_solveJob (isPlanted_job hjob) hfound
    exact toldAtOnce_of_solved herror (hsolved.withRuntime seconds) hrecord.m_eq

end SweepPoint

/-! ## Sweeps -/

namespace SweepArgs

/-- What a sweep asks for whose points are all solved at once: its file, a line for each point, and the table of the
rows. -/
def AsksAtOnce (args : SweepArgs) (asked : List Change) : Prop :=
  ∃ (g g' : Generator) (points : List SweepPoint) (ratio : Float) (runs : List Work.Told) (table : String),
    SweepPlan.plan args.range (args.runs.getD SweepPlan.defaultRuns) g = .ok (.ok points, g') ∧
    List.Forall₂ (fun p run => ∃ job, p.job ratio = .ok (.ok job) ∧ p.ToldAtOnce job.formula run) points runs ∧
    Csv.rows Csv.charSymbols table.toList = (if runs.filterMap (·.row) = [] then [] else
      ["n", "m", "seed", "solved", "best_valence", "steps", "runtime_sec"].map String.toList ::
        runs.filterMap (·.row)) ∧
    asked = .create args.outfile :: runs.map (fun run => .print (run.line ++ "\n")) ++ [.append args.outfile table]

theorem length_row_of_told {runs : List (SweepPoint × BatchRecord)} :
    ∀ row ∈ (runs.map told).filterMap (·.row), 2 ≤ row.length := by
  intro row hrow
  rw [List.filterMap_map] at hrow
  obtain ⟨run, -, hrow⟩ := List.mem_filterMap.1 hrow
  obtain ⟨-, hfields⟩ := Option.ite_none_right_eq_some.1 hrow
  cases hfields
  simp [SweepTable.fields, outcomeFields]

theorem forall₂_toldAtOnce {config : SearchConfig} {ratio : Float} {points : List SweepPoint}
    {records : List BatchRecord} (hvalid : config.validate = .ok ())
    (h : List.Forall₂ (fun p r => ∃ i job, p.job ratio = .ok (.ok job) ∧ Batch.IsTimedRecordOf config i job r)
      points records) :
    List.Forall₂ (fun p run => ∃ job, p.job ratio = .ok (.ok job) ∧ p.ToldAtOnce job.formula run) points
      ((points.zip records).map told) := by
  induction h with
  | nil => exact .nil
  | cons hrecord _ ih =>
    obtain ⟨i, job, hjob, hrecord⟩ := hrecord
    exact .cons ⟨job, hjob, SweepPoint.toldAtOnce hjob hvalid hrecord⟩ ih

variable [Host m] [Host.Honest m] [Outlet m]

/-- A sweep asks for nothing before it has solved its points, and then tells of them. -/
theorem asks_of_mayEnd_work {args : SweepArgs} {answer : Except Stop Unit} {changes : List Change}
    (h : (args.work : Work (Recorded m) Unit).MayEnd [] answer changes) :
    ((∃ stop, answer = .error stop) ∧ changes = []) ∨
    ∃ asked, args.AsksAtOnce asked ∧ changes <+: asked ∧ (answer = .ok () → changes = asked) := by
  rcases (args.mayEnd_work h : (_ ∧ id changes = id []) ∨ _) with hstop |
    ⟨config, g, g', points, jobs, _, records, _, _, hconfig, hplan, hjobs, hrecords, rfl, hend⟩
  · exact .inl hstop
  have hvalid := Work.validate_of_canReturn_configure hconfig.canReturn
  have hpoints := SweepPoint.forall₂_records (forall₂_of_canReturn_jobsOf hjobs)
    (Work.forall₂_of_canReturn_solveJobs hrecords)
  obtain ⟨done, rfl, hprefix, hall⟩ := Work.Records.tellTable _ _ _ _ _ _ hend
  refine .inr ⟨_, ⟨g, g', points, _, _, _, hplan, forall₂_toldAtOnce hvalid hpoints, ?_, rfl⟩, hprefix, hall ()⟩
  exact rows_tableText (by decide) length_row_of_told

end SweepArgs

/-! ## One instance -/

namespace SolveArgs

theorem exists_planted_of_canReturn {config : AppConfig} {numVars : Nat} {numClauses : Option Nat}
    {fresh : Generator} {f : Formula}
    (h : CanReturn (Work.plantedFormula config numVars numClauses fresh : Work m Formula) f) :
    ∃ count planted g', f = planted.formula ∧
      Planted.generate numVars (some count) (config.search.generator fresh) = .ok (.ok planted, g') := by
  obtain ⟨answer, hanswer, h⟩ := canReturn_bind_imp' h
  obtain ⟨planted, hplanted, h⟩ := canReturn_bind_imp' h
  cases eq_of_canReturn_pure h
  obtain ⟨g', hdrawn⟩ := Work.canReturn_draw hanswer
  rw [Work.canReturn_orFail hplanted] at hdrawn
  exact ⟨_, planted, g', rfl, hdrawn⟩

variable [Host m] [Host.Honest m] [Outlet m]

/-- A single run on a planted instance under a given seed asks for nothing before it has solved it, and then tells of
it. -/
theorem asks_of_mayEnd_work {args : SolveArgs} {numVars : Nat} (hrandom : args.random = some numVars)
    (hseeded : ∀ config, CanReturn (Work.configure args.search none : Work (Recorded m) AppConfig) config →
      config.search.seed.isSome)
    {answer : Except Stop Unit} {changes : List Change}
    (h : (args.work : Work (Recorded m) Unit).MayEnd [] answer changes) :
    ((∃ stop, answer = .error stop) ∧ changes = []) ∨
    ∃ numClauses seconds trace,
      changes <+: args.asked (SolveOutput.atOnceText numVars numClauses seconds) trace ∧
      (answer = .ok () → changes = args.asked (SolveOutput.atOnceText numVars numClauses seconds) trace) := by
  rcases (args.mayEnd_work h : (_ ∧ id changes = id []) ∨ _) with hstop |
    ⟨config, fresh, ⟨f, origin⟩, ⟨⟨outcome, r⟩, seconds⟩, report, _, -, hconfig, -, hformula, hsearched,
      hreport, rfl, hend⟩
  · exact .inl hstop
  obtain ⟨seed, hseed⟩ := Option.isSome_iff_exists.1 (hseeded config hconfig)
  obtain rfl : outcome = .ok report := hreport
  have hfound := Work.canReturn_timed hsearched
  unfold Work.formulaOf at hformula
  rw [hrandom] at hformula
  obtain ⟨f', hf', hformula⟩ := canReturn_bind_imp' hformula
  cases eq_of_canReturn_pure hformula
  obtain ⟨count, planted, g', rfl, hplanted⟩ := exists_planted_of_canReturn hf'
  rw [SearchConfig.generator, hseed] at hplanted
  obtain ⟨hsolved, hsteps, hvalence⟩ := report_planted hseed hplanted hfound
  have htext : (SolveOutput.ofReport (.random numVars planted.formula.numClauses) report seconds).toJson.indentedText =
      SolveOutput.atOnceText numVars planted.formula.numClauses (Value.ofFloat seconds).text := by
    rw [SolveOutput.ofReport, hsolved, hsteps]
    exact SolveOutput.indentedText_atOnce _ _ hvalence _
  obtain ⟨done, rfl, hprefix, hall⟩ := Work.Records.tell _ _ _ _ _ _ hend
  rw [htext] at hprefix hall
  exact .inr ⟨_, _, _, hprefix, hall ()⟩

end SolveArgs

/-! ## One seed for drawing and for searching -/

/-- **A planted instance is solved at once by a search with its own seed.** The search starts from the
hidden assignment, cut to the variables that the formula counts, and ends there. So every row that a
sweep writes, and everything that is told about one planted instance under a given seed, is
a solution in 0 steps, in every lawful host whose clock leaves alone what it times: a sweep that gets
to its table asks for its file, for a line on each of its points and for the table, and a single run
for its text and its trace, each of them in full if it comes to its end without an error. -/
theorem planted_solved_at_once :
    (∀ (n : Nat) (numClauses : Option Nat) (seed : UInt64) (config : SearchConfig)
      (planted : Planted.Instance) (g' : Generator) (o : Occurrences),
      config.seed = some seed → config.validate = .ok () →
      Planted.generate n numClauses (.ofSeed seed) = .ok (.ok planted, g') →
      Occurrences.build planted.formula = .ok o → ∀ (fresh : Generator) (r : Reporter),
        planted.hidden.size = n ∧ planted.formula.numVars ≤ n ∧
        (∃ S s g₁, Solver.new planted.formula config = .ok S ∧
          S.start (config.generator fresh) = .ok (s, g₁) ∧
          s.assignment = planted.hidden.firstValues planted.formula.numVars) ∧
        ∃ report r', solveFormula planted.formula config fresh r = .ok (.ok report, r') ∧
          report.result.termination = .satisfied ∧ report.result.steps = 0 ∧
          report.result.valence = 1.0 ∧
          report.result.assignment = planted.hidden.firstValues planted.formula.numVars) ∧
    ∀ (m : Type → Type) [Monad m] [LawfulMonad m] [MonadAttach m] [LawfulMonadAttach m] [Host m]
      [Host.Honest m] [Outlet m],
      (∀ (args : SweepArgs) (answer : Except Stop Unit) (changes : List Change),
        (args.work : Work (Recorded m) Unit).MayEnd [] answer changes →
          ((∃ stop, answer = .error stop) ∧ changes = []) ∨
          ∃ asked, args.AsksAtOnce asked ∧ changes <+: asked ∧ (answer = .ok () → changes = asked)) ∧
      ∀ (args : SolveArgs) (numVars : Nat) (answer : Except Stop Unit) (changes : List Change),
        args.random = some numVars →
        (∀ config, CanReturn (Work.configure args.search none : Work (Recorded m) AppConfig) config →
          config.search.seed.isSome) →
        (args.work : Work (Recorded m) Unit).MayEnd [] answer changes →
          ((∃ stop, answer = .error stop) ∧ changes = []) ∨
          ∃ numClauses seconds trace,
            changes <+: args.asked (SolveOutput.atOnceText numVars numClauses seconds) trace ∧
            (answer = .ok () →
              changes = args.asked (SolveOutput.atOnceText numVars numClauses seconds) trace) := by
  constructor
  · intro n numClauses seed config planted g' o hseed hv hplanted hb fresh r
    have hS := Solver.new_of_ok hb hv
    obtain ⟨-, hsize, hagrees⟩ := Planted.generate_eq_ok hplanted
    obtain ⟨s, g₁, hs, hassignment, -⟩ := Solver.start_planted hseed hplanted hS fresh
    refine ⟨hsize, ?_, ⟨_, s, g₁, hS, hs, hassignment⟩, solveFormula_planted hseed hplanted hS fresh r⟩
    rw [← hsize]
    exact Planted.numVars_le hagrees
  · intro m _ _ _ _ _ _ _
    constructor
    · intro args answer changes h
      exact SweepArgs.asks_of_mayEnd_work h
    · intro args numVars answer changes hrandom hseeded h
      exact SolveArgs.asks_of_mayEnd_work hrandom hseeded h

/-- Two instances of three and four variables. -/
def SweepArgs.brief : SweepArgs where
  range := [3, 5, 1]
  runs := some 1
  clausesPerVar := some 2.0
  outfile := "rows.csv"
  search := { seed := some 1 }

/-- An instance of five variables, only three of which occur. -/
def SolveArgs.brief : SolveArgs where
  random := some 5
  clauses := some 2
  search := { seed := some 3 }

/-- What work does on a tree while the changes it asks for are recorded. -/
def Recorded.on (t : FileTree) (work : Work (Recorded (StateM Machine)) Unit) :
    (Except Stop Unit × List Change) × Machine :=
  (work.run.run []).run { tree := t }

theorem Recorded.mayEnd_of_on {t : FileTree} {work : Work (Recorded (StateM Machine)) Unit}
    (h : (on t work).1.1.isOk = true) : work.MayEnd [] (.ok ()) (on t work).1.2 := by
  obtain ⟨_, hok⟩ := exists_eq_ok_of_isOk h
  refine ⟨{ tree := t }, (on t work).2, ?_⟩
  rw [← hok]
  rfl

theorem planted_solved_at_once_brief :
    (∃ planted g' report r', Planted.generate 5 (some 2) (.ofSeed 3) = .ok (.ok planted, g') ∧
      planted.formula.numVars = 3 ∧ planted.hidden.size = 5 ∧
      solveFormula planted.formula { seed := some 3 } (.ofSeed 0) .silent = .ok (.ok report, r') ∧
      report.result.steps = 0 ∧ report.result.assignment = planted.hidden.firstValues 3) ∧
    (Recorded.on {} SweepArgs.brief.work).1.1.isOk = true ∧
    SweepArgs.brief.AsksAtOnce (Recorded.on {} SweepArgs.brief.work).1.2 ∧
    (Recorded.on {} SolveArgs.brief.work).1.1.isOk = true ∧
    ∃ numClauses seconds, (Recorded.on {} SolveArgs.brief.work).1.2 =
      [.print (SolveOutput.atOnceText 5 numClauses seconds ++ "\n")] := by
  obtain ⟨hsearch, hhosts⟩ := planted_solved_at_once
  obtain ⟨hsweeps, hsolves⟩ := hhosts (StateM Machine)
  have hsweep : (Recorded.on {} SweepArgs.brief.work).1.1.isOk = true := by decide +kernel
  have hsolve : (Recorded.on {} SolveArgs.brief.work).1.1.isOk = true := by decide +kernel
  refine ⟨?_, hsweep, ?_, hsolve, ?_⟩
  · have hdrawn : (Planted.generate 5 (some 2) (.ofSeed 3)).toOption.bind (fun q => q.1.toOption.map
        fun planted => (planted.formula.numVars, (Occurrences.build planted.formula).isOk)) =
          some (3, true) := by decide +kernel
    cases hgenerate : Planted.generate 5 (some 2) (.ofSeed 3) with
    | error e =>
      rw [hgenerate] at hdrawn
      cases hdrawn
    | ok q =>
      obtain ⟨drawn, g'⟩ := q
      rw [hgenerate] at hdrawn
      cases drawn with
      | error e => cases hdrawn
      | ok planted =>
        obtain ⟨hnumVars, hbuild⟩ := Prod.mk.inj (Option.some.inj hdrawn)
        obtain ⟨o, hb⟩ := exists_eq_ok_of_isOk hbuild
        obtain ⟨hsize, -, -, report, r', hreport, -, hsteps, -, hassignment⟩ :=
          hsearch 5 (some 2) 3 { seed := some 3 } planted g' o rfl rfl hgenerate hb (.ofSeed 0) .silent
        rw [hnumVars] at hassignment
        exact ⟨planted, g', report, r', rfl, hnumVars, hsize, hreport, hsteps, hassignment⟩
  · rcases hsweeps .brief _ _ (Recorded.mayEnd_of_on hsweep) with ⟨⟨stop, hstop⟩, -⟩ | ⟨asked, hasked, -, hall⟩
    · cases hstop
    · rw [hall rfl]
      exact hasked
  · have hseeded : ∀ config, CanReturn (Work.configure SolveArgs.brief.search none :
        Work (Recorded (StateM Machine)) AppConfig) config → config.search.seed.isSome := by
      intro config h
      obtain ⟨file, hfile, h⟩ := canReturn_bind_imp' h
      cases eq_of_canReturn_pure hfile
      cases Work.canReturn_orFail h
      rfl
    rcases hsolves .brief 5 _ _ rfl hseeded (Recorded.mayEnd_of_on hsolve) with
      ⟨⟨stop, hstop⟩, -⟩ | ⟨numClauses, seconds, trace, -, hall⟩
    · cases hstop
    · exact ⟨numClauses, seconds, hall rfl⟩

end SatSearch
