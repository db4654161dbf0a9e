import SatSearch.Proofs.Command.Listings
import SatSearch.Proofs.Command.Planted
/-!
# Tables of results read back from a tree

A table that batch or sweep has written is found by its path, and its rows are those of the records without an error
(`BatchTable.readAll?_text`, `SweepTable.readAll?_text`). So what analyse prints rests on the summary of the records
themselves, and where they all have an error it refuses the table (`ReadBack.of_rows`). The records are those of the
files that the directory of the batch lists, and of the points that the sweep has planned.

Main statement: `tables_read_back`.
-/

namespace SatSearch

variable {t t' : FileTree} {path table : String} {bytes : ByteArray} {rows : List ResultRow}
  {records : List BatchRecord}

/-! ## Analyse on a tree -/

namespace AnalyseArgs

variable {M : Machine} (hcontents : M.tree.contents path = .ok bytes)
  (hrows : ResultRow.readAll? bytes.toList = some rows)
include hcontents hrows

theorem ends_work : M.ends (work ⟨path⟩) = match Report.render? rows with
    | none => (.error (.error (.argument .noRows)), M)
    | some text => (.ok (), { M with printed := M.printed ++ text }) := by
  have hbytes : M.ends (tableBytes path) = (.ok bytes.toList, M) := by
    rw [tableBytes, Machine.ends_bind_of_ok (Work.Reads.contents path), hcontents]
    rfl
  rw [work, Machine.ends_bind_of_ok hbytes, hrows]
  dsimp only
  cases Report.render? rows <;> rfl

end AnalyseArgs

/-- What comes back of records from a table of them: the rows, a summary of the rows that is the one of the records,
and, wherever the table is written to, the report of analyse on that path, or its refusal where all records have an
error. -/
structure ReadBack (table : String) (records : List BatchRecord) (rows : List ResultRow) : Prop where
  rows_eq : ResultRow.readAll? table.toUTF8.toList = some rows
  summary_eq : summarize (rows.map ResultRow.toRecord) = summarize records
  report : ∀ (t t' : FileTree) (path : String), t.write path table.toUTF8 = .ok t' →
    ∀ s, summarize records = some s → t'.run (AnalyseArgs.work ⟨path⟩) =
      .ok { printed := String.join ((Report.lines rows s).map (· ++ "\n")), tree := t' }
  refusal : ∀ (t t' : FileTree) (path : String), t.write path table.toUTF8 = .ok t' →
    (∀ r ∈ records, r.error ≠ none) → t'.run (AnalyseArgs.work ⟨path⟩) =
      .ok { error := some (.argument .noRows), tree := t' }

theorem ReadBack.of_rows (hrows : ResultRow.readAll? table.toUTF8.toList = some rows)
    (hsummary : summarize (rows.map ResultRow.toRecord) = summarize records) : ReadBack table records rows := by
  refine ⟨hrows, hsummary, fun t t' path hwrite s hs => ?_, fun t t' path hwrite herrors => ?_⟩
  · have hends := AnalyseArgs.ends_work (M := { tree := t' }) (FileTree.contents_of_write hwrite) hrows
    rw [Report.render?, hsummary, hs, Option.map_some] at hends
    rw [FileTree.run, Machine.run_of_ok hends, String.empty_append]
  · have hends := AnalyseArgs.ends_work (M := { tree := t' }) (FileTree.contents_of_write hwrite) hrows
    rw [Report.render?, hsummary, summarize_eq_none_iff.2 herrors, Option.map_none] at hends
    exact Machine.run_of_error hends

theorem BatchTable.readBack (h : ∀ r ∈ records, r.error = none → r.Printable) :
    ReadBack (text records) records ((records.filter (·.error.isNone)).map row) := by
  refine .of_rows (readAll?_text fun r hr => ?_) (summarize_rows records)
  obtain ⟨hmem, hnone⟩ := Summary.mem_valid.1 hr
  exact h r hmem hnone

theorem SweepTable.readBack {runs : List (SweepPoint × BatchRecord)}
    (h : ∀ run ∈ runs, run.2.error = none → run.1.n < Numeral.countLimit ∧ run.2.Printable) :
    ReadBack (text runs) (runs.map Prod.snd) ((runs.filter (·.2.error.isNone)).map fun run => row run.1 run.2) :=
  .of_rows (readAll?_text h) (summarize_rows runs)

/-! ## The tables of batch and sweep -/

/-- A table that was told is written as a whole, and its lines are printed. -/
theorem Machine.write_of_ends_tellTable {M M' : Machine} {columns : List String} {runs : List Work.Told}
    {fields : List Fields} (hrows : runs.filterMap (·.row) = fields)
    (h : M.ends (Work.tellTable path columns runs) = (.ok (), M')) :
    M.tree.write path (tableText columns fields).toUTF8 = .ok M'.tree ∧
      M'.printed = M.printed ++ String.join (runs.map fun run => run.line ++ "\n") := by
  cases hcreate : M.tree.write path .empty with
  | error e => cases h.symm.trans (Work.ends_tellTable_of_error hcreate)
  | ok tree =>
    obtain ⟨place, -, -, hwrite, -⟩ := FileTree.exists_place_of_write hcreate
    cases h.symm.trans (Work.ends_tellTable_of_ok hrows (hwrite _))
    exact ⟨hwrite _, rfl⟩

theorem BatchArgs.exists_records_of_run {args : BatchArgs} {result : FileTree.Result}
    (h : t.run args.work = .ok result) (hnone : result.error = none) :
    ∃ (config : AppConfig) (listed : List String) (jobs : List BatchJob) (records : List BatchRecord),
      Machine.answer { tree := t } (Work.configure args.search none) = .ok config ∧
      t.listFiles args.indir = .ok listed ∧ List.Forall₂ (IsReadIn t args.indir) (chosen listed) jobs ∧
      List.Forall₂ (fun p r => Batch.IsTimedRecordOf config.search p.2 p.1 r) jobs.zipIdx records ∧
      (∀ r ∈ records, r.name ≠ "") ∧ t.write args.outfile (BatchTable.text records).toUTF8 = .ok result.tree ∧
      result.printed = String.join ((records.map line).map (· ++ "\n")) := by
  obtain ⟨M', hends, htree, hprinted⟩ := Machine.ends_of_run h
  rw [hnone] at hends
  rcases (args.mayEnd_work (Machine.mayEnd_iff.2 hends) : (_ ∧ M'.shown = _) ∨ _) with
    ⟨⟨stop, hstop⟩, -⟩ | ⟨config, names, jobs, _, records, M₁, M₂, _, M₄, hconfig, hsee₁, hnames, hsee₂, hjobs,
      hrecords, hsee, htell⟩
  · cases hstop
  obtain ⟨htree₁, -⟩ := Prod.mk.inj hsee₁
  obtain ⟨htree₂, -⟩ := Prod.mk.inj hsee₂
  obtain ⟨htree₄, hprinted₄⟩ := Prod.mk.inj hsee
  dsimp only at htree₁ htree₂ htree₄ hprinted₄
  have hanswer : Machine.answer { tree := t } (Work.configure args.search none) = .ok config := by
    rw [Machine.answer, Machine.mayEnd_iff.1 hconfig]
  obtain ⟨-, listed, hlisted, rfl⟩ := exists_listed_of_ends_fileNames (Machine.mayEnd_iff.1 hnames)
  obtain ⟨-, hread⟩ := forall₂_of_ends_jobsOf (Machine.mayEnd_iff.1 hjobs)
  rw [htree₁] at hlisted
  rw [htree₂] at hread
  have hsolved := Work.forall₂_of_canReturn_solveJobs hrecords
  have hmap : records.map (·.name) = chosen listed := by
    rw [Batch.map_name_of_forall₂ hsolved, map_name_of_forall₂ IsReadIn.name_eq hread]
  have hsorted : (records.map (·.name)).Pairwise (· ≤ ·) := by
    rw [hmap]
    exact pairwise_le_chosen listed
  rw [byName_eq hsorted] at htell
  obtain ⟨hwrite, hlines⟩ := Machine.write_of_ends_tellTable (filterMap_row_told records) (Machine.mayEnd_iff.1 htell)
  rw [htree₄] at hwrite
  refine ⟨config, listed, jobs, records, hanswer, hlisted, hread, hsolved, fun r hr => ?_, ?_, ?_⟩
  · have hname : r.name ∈ chosen listed := by
      rw [← hmap]
      exact List.mem_map_of_mem hr
    exact (FileTree.ne_of_isTaken (mem_chosen.1 hname).2).1
  · rw [htree]
    exact hwrite
  · rw [hprinted, hlines, hprinted₄, String.empty_append, List.map_map, List.map_map]
    rfl

theorem SweepArgs.filterMap_row_told (runs : List (SweepPoint × BatchRecord)) :
    (runs.map told).filterMap (·.row) =
      (runs.filter (·.2.error.isNone)).map fun run => SweepTable.fields run.1 run.2 := by
  induction runs with
  | nil => rfl
  | cons run runs ih =>
    rw [List.map_cons, List.filterMap_cons, ih]
    cases herror : run.2.error <;> simp [told, herror]

theorem SweepArgs.exists_runs_of_run {args : SweepArgs} {result : FileTree.Result}
    (h : t.run args.work = .ok result) (hnone : result.error = none) :
    ∃ (config : AppConfig) (points : List SweepPoint) (records : List BatchRecord) (g g' : Generator),
      Machine.answer { tree := t } (Work.configure args.search args.clausesPerVar) = .ok config ∧
      SweepPlan.plan args.range (args.runs.getD SweepPlan.defaultRuns) g = .ok (.ok points, g') ∧
      List.Forall₂ (fun p r => ∃ i job, p.job config.clausesPerVar = .ok (.ok job) ∧
        Batch.IsTimedRecordOf config.search i job r) points records ∧
      List.Forall₂ (fun p r => r.name = p.name ∧ r.seed = some p.seed) points records ∧
      t.write args.outfile (SweepTable.text (points.zip records)).toUTF8 = .ok result.tree ∧
      result.printed = String.join (((points.zip records).map fun run => line run.1 run.2).map (· ++ "\n")) := by
  obtain ⟨M', hends, htree, hprinted⟩ := Machine.ends_of_run h
  rw [hnone] at hends
  rcases (args.mayEnd_work (Machine.mayEnd_iff.2 hends) : (_ ∧ M'.shown = _) ∨ _) with
    ⟨⟨stop, hstop⟩, -⟩ | ⟨config, g, g', points, jobs, _, records, M₁, M₂, hconfig, hplan, hjobs, hrecords, hsee,
      htell⟩
  · cases hstop
  obtain ⟨htree₂, hprinted₂⟩ := Prod.mk.inj hsee
  dsimp only at htree₂ hprinted₂
  have hanswer : Machine.answer { tree := t } (Work.configure args.search args.clausesPerVar) = .ok config := by
    rw [Machine.answer, Machine.mayEnd_iff.1 hconfig]
  have hsolved := SweepPoint.forall₂_records (forall₂_of_canReturn_jobsOf hjobs)
    (Work.forall₂_of_canReturn_solveJobs hrecords)
  obtain ⟨hwrite, hlines⟩ := Machine.write_of_ends_tellTable (filterMap_row_told _) (Machine.mayEnd_iff.1 htell)
  rw [htree₂] at hwrite
  refine ⟨config, points, records, g, g', hanswer, hplan, hsolved, hsolved.imp fun p r hr => ?_, ?_, ?_⟩
  · obtain ⟨i, job, hjob, hrecord⟩ := hr
    obtain ⟨hname, hseed⟩ := SweepPoint.job_eq_ok hjob
    rw [hrecord.name_eq, hrecord.seed_eq, Batch.seedFor, hseed]
    exact ⟨hname, rfl⟩
  · rw [htree]
    exact hwrite
  · rw [hprinted, hlines, hprinted₂, String.empty_append, List.map_map, List.map_map]
    rfl

/-- **Analyse reads back what batch and sweep wrote.** Of records that are told in words of the machine and in floats
that survive their texts, whatever their names are, the rows of a batch's table are those of the records without an
error, in their order, each with its file, its sizes and all that the search told; the rows of a sweep's table have the
point's own number of variables and seed instead. The summary of the rows is the one of the records, so wherever
such a table is written, analyse prints the report with that summary, and it refuses a table of nothing but errors.
Such tables are what the two commands write when they end without an error: a batch one of the records that solving
its files gives, in the order of their names, and a sweep one of its planned points in order, each with the record that
solving it under its seed gives. -/
theorem tables_read_back :
    (∀ records : List BatchRecord, (∀ r ∈ records, r.error = none → r.Printable) →
      ReadBack (BatchTable.text records) records ((records.filter (·.error.isNone)).map BatchTable.row)) ∧
    (∀ runs : List (SweepPoint × BatchRecord),
      (∀ run ∈ runs, run.2.error = none → run.1.n < Numeral.countLimit ∧ run.2.Printable) →
      ReadBack (SweepTable.text runs) (runs.map Prod.snd)
        ((runs.filter (·.2.error.isNone)).map fun run => SweepTable.row run.1 run.2)) ∧
    (∀ (args : BatchArgs) (t : FileTree) (result : FileTree.Result), t.run args.work = .ok result →
      result.error = none →
      ∃ (config : AppConfig) (listed : List String) (jobs : List BatchJob) (records : List BatchRecord),
        Machine.answer { tree := t } (Work.configure args.search none) = .ok config ∧
        t.listFiles args.indir = .ok listed ∧
        List.Forall₂ (BatchArgs.IsReadIn t args.indir) (BatchArgs.chosen listed) jobs ∧
        List.Forall₂ (fun p r => Batch.IsTimedRecordOf config.search p.2 p.1 r) jobs.zipIdx records ∧
        (∀ r ∈ records, r.name ≠ "") ∧ t.write args.outfile (BatchTable.text records).toUTF8 = .ok result.tree ∧
        result.printed = String.join ((records.map BatchArgs.line).map (· ++ "\n"))) ∧
    ∀ (args : SweepArgs) (t : FileTree) (result : FileTree.Result), t.run args.work = .ok result →
      result.error = none →
      ∃ (config : AppConfig) (points : List SweepPoint) (records : List BatchRecord) (g g' : Generator),
        Machine.answer { tree := t } (Work.configure args.search args.clausesPerVar) = .ok config ∧
        SweepPlan.plan args.range (args.runs.getD SweepPlan.defaultRuns) g = .ok (.ok points, g') ∧
        List.Forall₂ (fun p r => ∃ i job, p.job config.clausesPerVar = .ok (.ok job) ∧
          Batch.IsTimedRecordOf config.search i job r) points records ∧
        List.Forall₂ (fun p r => r.name = p.name ∧ r.seed = some p.seed) points records ∧
        t.write args.outfile (SweepTable.text (points.zip records)).toUTF8 = .ok result.tree ∧
        result.printed =
          String.join (((points.zip records).map fun run => SweepArgs.line run.1 run.2).map (· ++ "\n")) :=
  ⟨fun _ h => BatchTable.readBack h, fun _ h => SweepTable.readBack h,
    fun _ _ _ h hnone => BatchArgs.exists_records_of_run h hnone,
    fun _ _ _ h hnone => SweepArgs.exists_runs_of_run h hnone⟩

/-- A record whose name needs quotes and a doubled quote in a table. -/
def BatchRecord.oddlyNamed : BatchRecord := ⟨"a, \"b\"\nc.cnf", 3, 5, none, true, 1.0, 10, 0.5, none⟩

def BatchRecord.exhausted : BatchRecord := ⟨"n3-seed7", 3, 12, some 7, false, 0.984375, 30, 1.5, none⟩

theorem tables_read_back_oddlyNamed :
    (∃ t' s, FileTree.write {} "out.csv" (BatchTable.text [Summary.refused, .oddlyNamed]).toUTF8 = .ok t' ∧
      summarize [Summary.refused, .oddlyNamed] = some s ∧ s.instances = 1 ∧
      ResultRow.readAll? (BatchTable.text [Summary.refused, .oddlyNamed]).toUTF8.toList = some
        [⟨some "a, \"b\"\nc.cnf", some 3, some 5, none, true, .ofFloat 1.0, 10, .ofFloat 0.5⟩] ∧
      t'.run (AnalyseArgs.work ⟨"out.csv"⟩) = .ok
        { printed := String.join ((Report.lines
            [⟨some "a, \"b\"\nc.cnf", some 3, some 5, none, true, .ofFloat 1.0, 10, .ofFloat 0.5⟩] s).map (· ++ "\n"))
          tree := t' }) ∧
    (∃ t', FileTree.write {} "out.csv" (BatchTable.text [Summary.refused]).toUTF8 = .ok t' ∧
      t'.run (AnalyseArgs.work ⟨"out.csv"⟩) = .ok { error := some (.argument .noRows), tree := t' }) ∧
    ResultRow.readAll? (SweepTable.text [(⟨4, 7⟩, .exhausted), (⟨5, 8⟩, Summary.refused)]).toUTF8.toList = some
      [⟨none, some 4, some 12, some 7, false, .ofFloat 0.984375, 30, .ofFloat 1.5⟩] ∧
    (∃ result records, FileTree.oneFormula.run BatchArgs.brief.work = .ok result ∧
      FileTree.oneFormula.write "out.csv" (BatchTable.text records).toUTF8 = .ok result.tree) ∧
    ∃ result runs, FileTree.run {} SweepArgs.brief.work = .ok result ∧
      FileTree.write {} "rows.csv" (SweepTable.text runs).toUTF8 = .ok result.tree := by
  obtain ⟨hbatch, hsweep, hbatches, hsweeps⟩ := tables_read_back
  have hodd : BatchRecord.oddlyNamed.Printable :=
    ⟨by decide, by decide, by decide, by unfold FloatBits.SurvivesText; decide +kernel,
      by unfold FloatBits.SurvivesText; decide +kernel⟩
  have hexhausted : BatchRecord.exhausted.Printable :=
    ⟨by decide, by decide, by decide, by unfold FloatBits.SurvivesText; decide +kernel,
      by unfold FloatBits.SurvivesText; decide +kernel⟩
  refine ⟨?_, ?_, ?_, ?_, ?_⟩
  · obtain ⟨t', hwritten⟩ := exists_eq_ok_of_isOk
      (x := FileTree.write {} "out.csv" (BatchTable.text [Summary.refused, .oddlyNamed]).toUTF8) (by decide +kernel)
    have hs : summarize [Summary.refused, .oddlyNamed] = some ⟨1, _, _, _, _⟩ := rfl
    have hback := hbatch [Summary.refused, .oddlyNamed] fun r hr hnone => by
      rcases List.mem_pair.1 hr with rfl | rfl
      · cases hnone
      · exact hodd
    exact ⟨t', _, hwritten, hs, rfl, hback.rows_eq, hback.report _ t' _ hwritten _ hs⟩
  · obtain ⟨t', hwritten⟩ := exists_eq_ok_of_isOk
      (x := FileTree.write {} "out.csv" (BatchTable.text [Summary.refused]).toUTF8) (by decide +kernel)
    have hback := hbatch [Summary.refused] fun r hr hnone => by
      rcases List.mem_singleton.1 hr with rfl
      cases hnone
    refine ⟨t', hwritten, hback.refusal _ t' _ hwritten fun r hr => ?_⟩
    rcases List.mem_singleton.1 hr with rfl
    exact Option.some_ne_none _
  · refine (hsweep [(⟨4, 7⟩, .exhausted), (⟨5, 8⟩, Summary.refused)] fun run hrun hnone => ?_).rows_eq
    rcases List.mem_pair.1 hrun with rfl | rfl
    · exact ⟨by decide, hexhausted⟩
    · cases hnone
  · have hwell : Machine.endsWell { tree := .oneFormula } BatchArgs.brief.work = true := by decide +kernel
    obtain ⟨result, hrun, hnone⟩ := Machine.exists_result hwell
    obtain ⟨config, listed, jobs, records, -, -, -, -, -, hwritten, -⟩ := hbatches _ _ _ hrun hnone
    exact ⟨result, records, hrun, hwritten⟩
  · have hwell : Machine.endsWell { tree := {} } SweepArgs.brief.work = true := by decide +kernel
    obtain ⟨result, hrun, hnone⟩ := Machine.exists_result hwell
    obtain ⟨config, points, records, -, -, -, -, -, -, hwritten, -⟩ := hsweeps _ _ _ hrun hnone
    exact ⟨result, points.zip records, hrun, hwritten⟩

end SatSearch
