import SatSearch.Proofs.Cnf.DimacsBytes
import SatSearch.Proofs.Command.Directories
import SatSearch.Proofs.Command.Reading
import SatSearch.Proofs.Run.ResultTables
/-!
# A batch in any order of listing

The files of a batch are sorted before they are numbered, so the order in which their directory lists them does not
come through: distinct names have one sorted list (`chosen_eq_of_perm`), the jobs and their seeds are made from it,
and the records, which are sorted by name once more, stand in its order already (`byName_eq`). What remains of the
machine are the times that its clock gives.

Main statement: `BatchArgs.work_of_relisted`.
-/

namespace SatSearch

namespace BatchArgs

variable {names names' : List String} {name : String} {records : List BatchRecord}

/-! ## Names in order -/

theorem isTaken_iff : isTaken name = true ↔ ∃ stem, stem ≠ "" ∧ name = stem ++ ".cnf" := by
  have hends : isTaken name = true ↔ ".cnf".toList <:+ name.toList ∧ 4 < name.toList.length := by
    rw [isTaken, Bool.and_eq_true, decide_eq_true_iff, List.isSuffixOf_iff_suffix]
    rfl
  rw [hends]
  constructor
  · rintro ⟨⟨cs, hcs⟩, hlong⟩
    refine ⟨String.ofList cs, ?_, String.toList_injective ?_⟩
    · rintro hempty
      obtain rfl : cs = [] := by simpa using hempty
      rw [← hcs] at hlong
      exact absurd hlong (by decide)
    · rw [String.toList_append, String.toList_ofList, hcs]
  · rintro ⟨stem, hstem, rfl⟩
    have hpos : 0 < stem.toList.length := List.length_pos_of_ne_nil (by simpa using hstem)
    have hfour : ".cnf".toList.length = 4 := by decide
    rw [String.toList_append, List.length_append, hfour]
    exact ⟨List.suffix_append _ _, by omega⟩

theorem mem_chosen : name ∈ chosen names ↔ name ∈ names ∧ isTaken name = true := by
  rw [chosen, List.mem_mergeSort, List.mem_filter]

theorem pairwise_le_chosen (names : List String) : (chosen names).Pairwise (· ≤ ·) := by
  have htrans : ∀ a b c : String, decide (a ≤ b) = true → decide (b ≤ c) = true → decide (a ≤ c) = true :=
    fun a b c hab hbc => decide_eq_true (String.le_trans (of_decide_eq_true hab) (of_decide_eq_true hbc))
  have htotal : ∀ a b : String, (decide (a ≤ b) || decide (b ≤ a)) = true := fun a b => by
    simpa using String.le_total a b
  exact (List.pairwise_mergeSort htrans htotal (names.filter isTaken)).imp of_decide_eq_true

theorem pairwise_lt_chosen (hnodup : names.Nodup) : (chosen names).Pairwise (· < ·) := by
  have hne : (chosen names).Nodup := (List.mergeSort_perm _ _).nodup_iff.2 (hnodup.filter _)
  refine ((pairwise_le_chosen names).and hne).imp fun ⟨hle, hdiff⟩ => ?_
  by_contra hlt
  exact hdiff (String.le_antisymm hle hlt)

/-- Names in any order are sorted into one list. -/
theorem chosen_eq_of_perm (h : names'.Perm names) : chosen names' = chosen names := by
  refine List.Perm.eq_of_pairwise (fun a b _ _ => String.le_antisymm) (pairwise_le_chosen names')
    (pairwise_le_chosen names) ?_
  exact ((List.mergeSort_perm _ _).trans (h.filter _)).trans (List.mergeSort_perm _ _).symm

/-- Records in the order of their names stay where they are. -/
theorem byName_eq (h : (records.map (·.name)).Pairwise (· ≤ ·)) : byName records = records :=
  List.mergeSort_of_pairwise ((List.pairwise_map.1 h).imp decide_eq_true)

/-! ## The work on one machine -/

section
variable {M : Machine} {place : List String} {indir : String}

/-- The job that a file of a directory makes, with the formula that its bytes are read as. -/
def IsJobOf (t : FileTree) (place : List String) (name : String) (job : BatchJob) : Prop :=
  ∃ bytes file, (place ++ [name], FileNode.file bytes) ∈ t.entries ∧ Dimacs.read bytes = .ok file ∧
    job = ⟨name, file.formula, none⟩

/-- Every file of a place is a text, and no name of one has a slash in it. -/
def HoldsTexts (t : FileTree) (place : List String) : Prop :=
  ∀ name bytes, (place ++ [name], FileNode.file bytes) ∈ t.entries → '/' ∉ name.toList ∧ bytes.IsValidUTF8

variable (hnodup : (M.tree.entries.map Prod.fst).Nodup) (hdir : M.tree.find indir = .ok (place, .directory))
  (htexts : HoldsTexts M.tree place)
include hnodup hdir htexts

/-- The formulas of the files are read one after another. -/
theorem exists_reads_jobsOf_of_texts (hnames : ∀ name ∈ names, name ∈ chosen (M.tree.filesIn place)) :
    ∃ jobs, List.Forall₂ (IsJobOf M.tree place) names jobs ∧ Work.Reads M (jobsOf indir names) (.ok jobs) := by
  refine exists_reads_jobsOf fun name hname => ?_
  obtain ⟨hlisted, htaken⟩ := mem_chosen.1 (hnames name hname)
  obtain ⟨bytes, he⟩ := FileTree.mem_filesIn.1 hlisted
  obtain ⟨hslash, hvalid⟩ := htexts name bytes he
  obtain ⟨text, rfl⟩ := Encoding.exists_eq_toUTF8 hvalid
  have hread := Dimacs.read_toUTF8 text
  have hcontents := FileTree.contents_pathIn hnodup hdir hslash htaken he
  exact ⟨_, ⟨_, _, hcontents, hread, rfl⟩, _, _, he, hread, rfl⟩

end

/-! ## What a batch leaves -/

theorem filterMap_row_told (records : List BatchRecord) :
    (records.map told).filterMap (·.row) = (Summary.valid records).map BatchTable.fields := by
  induction records with
  | nil => rfl
  | cons r records ih =>
    rw [List.map_cons, List.filterMap_cons, ih]
    cases herror : r.error <;> simp [told, Summary.valid, herror]

/-- The row of a record, column by column. -/
def rowTexts (r : BatchRecord) : List String :=
  [r.name, toString r.n, toString r.m, if r.solved then "true" else "false", Decimal.number r.bestValence,
    toString r.steps, Decimal.number r.runtime]

theorem fields_eq (r : BatchRecord) : BatchTable.fields r = (rowTexts r).map String.toList := by
  cases hsolved : r.solved <;>
    simp [BatchTable.fields, outcomeFields, rowTexts, countField, floatField, boolField, boolText, hsolved]

theorem rows_text (records : List BatchRecord) : Csv.rows Csv.charSymbols (BatchTable.text records).toList =
    if records.filter (·.error.isNone) = [] then [] else
      ["filename", "n", "m", "solved", "best_valence", "steps", "runtime_sec"].map String.toList ::
        (records.filter (·.error.isNone)).map fun r => (rowTexts r).map String.toList := by
  have hwidth : ∀ row ∈ (records.filter (·.error.isNone)).map BatchTable.fields, 2 ≤ row.length := fun row hrow => by
    obtain ⟨r, -, rfl⟩ := List.mem_map.1 hrow
    simp [BatchTable.fields]
  have hfields : (records.filter (·.error.isNone)).map BatchTable.fields =
      (records.filter (·.error.isNone)).map fun r => (rowTexts r).map String.toList :=
    List.map_congr_left fun r _ => fields_eq r
  rw [BatchTable.text, Summary.valid, rows_tableText (by decide) hwidth, hfields]
  simp only [List.map_eq_nil_iff]
  rfl

/-- What a batch leaves of its records on a machine: a table in its file, with a row for each record without an error,
and a line for each record behind what was printed before. The rows are found in the table as text, and the records
of those that are printable as such. -/
structure Leaves (args : BatchArgs) (M : Machine) (records : List BatchRecord) (result : FileTree.Result) : Prop where
  error_eq : result.error = none
  printed_eq : result.printed = M.printed ++ String.join (records.map fun r => line r ++ "\n")
  write_eq : M.tree.write args.outfile (BatchTable.text records).toUTF8 = .ok result.tree
  rows_eq : Csv.rows Csv.charSymbols (BatchTable.text records).toList =
    if records.filter (·.error.isNone) = [] then [] else
      ["filename", "n", "m", "solved", "best_valence", "steps", "runtime_sec"].map String.toList ::
        (records.filter (·.error.isNone)).map fun r => (rowTexts r).map String.toList
  read_eq : (∀ r ∈ records, r.error = none → r.Printable) →
    ResultRow.readAll? (BatchTable.text records).toUTF8.toList =
      some ((records.filter (·.error.isNone)).map BatchTable.row)

/-! ## The end of a batch -/

section
variable {M : Machine} {args : BatchArgs} {config : AppConfig} {jobs : List BatchJob} {r r' : Reporter}
  (hconfig : Work.Reads M (Work.configure args.search none) (.ok config))
  (hnames : Work.Reads M (fileNames args.indir) (.ok names))
  (hjobs : Work.Reads M (jobsOf args.indir names) (.ok jobs))
include hconfig hnames hjobs

theorem run_work_of_fault {fault : Fault} (h : Batch.solveFrom config.search M.fresh 0 jobs r = .error fault) :
    M.run args.work = .error fault := by
  obtain ⟨M', hends⟩ := Work.ends_solveJobs_of_error h M
  refine Machine.run_of_fault (?_ : M.ends args.work = (_, M'))
  rw [work, Machine.ends_bind_of_ok hconfig, Machine.ends_bind_of_ok hnames, Machine.ends_bind_of_ok hjobs,
    Machine.ends_bind_of_ok Work.Reads.fresh, Machine.ends_bind_of_error hends]

variable (hsolved : Batch.solveFrom config.search M.fresh 0 jobs r = .ok (records, r'))
  (hsorted : (records.map (·.name)).Pairwise (· ≤ ·))
include hsolved hsorted

/-- The files were sorted before they were solved, so the records are told as they stand. -/
theorem ends_work : M.ends args.work = (M.later jobs.length).ends (Work.tellTable args.outfile BatchTable.columns
    ((M.stamped M.readings records).map told)) := by
  have hstays : byName (M.stamped M.readings records) = M.stamped M.readings records :=
    byName_eq (by rwa [Machine.map_name_stamped])
  rw [work, Machine.ends_bind_of_ok hconfig, Machine.ends_bind_of_ok hnames, Machine.ends_bind_of_ok hjobs,
    Machine.ends_bind_of_ok Work.Reads.fresh, Machine.ends_bind_of_ok (Work.ends_solveJobs_of_ok hsolved M), hstays]

theorem run_work_of_unwritable {e : FileError} (h : M.tree.write args.outfile .empty = .error e) :
    M.run args.work = .ok { error := some (.table e), printed := M.printed, tree := M.tree } := by
  have hends := ends_work hconfig hnames hjobs hsolved hsorted
  have hrun := Machine.run_of_error (hends.trans (Work.ends_tellTable_of_error (M := M.later jobs.length) h))
  exact hrun

theorem exists_leaves {tree : FileTree} (h : M.tree.write args.outfile .empty = .ok tree) :
    ∃ result, M.run args.work = .ok result ∧ args.Leaves M (M.stamped M.readings records) result := by
  obtain ⟨place, -, -, hwrite, -⟩ := FileTree.exists_place_of_write h
  have htext := hwrite (BatchTable.text (M.stamped M.readings records)).toUTF8
  have hends := (ends_work hconfig hnames hjobs hsolved hsorted).trans
    (Work.ends_tellTable_of_ok (M := M.later jobs.length) (filterMap_row_told _) htext)
  refine ⟨_, Machine.run_of_ok hends, rfl, ?_, htext, rows_text _, fun hprintable => ?_⟩
  · rw [List.map_map]
    rfl
  · refine BatchTable.readAll?_text fun r hr => ?_
    obtain ⟨hmem, hnone⟩ := Summary.mem_valid.1 hr
    exact hprintable r hmem hnone

end

/-! ## What two machines tell -/

/-- The printed line of a job that was searched, up to the time. -/
def lineStart (r : BatchRecord) : String :=
  r.name ++ ": solved=" ++ boolText r.solved ++ " valence=" ++ Decimal.fixed 3 r.bestValence ++ " steps=" ++
    toString r.steps ++ " time="

theorem line_of_error_eq_none {r : BatchRecord} (h : r.error = none) :
    line r = lineStart r ++ Decimal.fixed 2 r.runtime ++ "s" := by
  have hword : ": solved=" = ": " ++ "solved=" := by decide
  have houtcome : outcomeText r = "solved=" ++ boolText r.solved ++ " valence=" ++ Decimal.fixed 3 r.bestValence ++
      " steps=" ++ toString r.steps ++ " time=" ++ Decimal.fixed 2 r.runtime ++ "s" := rfl
  rw [line, h, lineStart, hword]
  dsimp only
  rw [houtcome]
  simp only [String.append_assoc]

theorem line_of_error_eq_some {r : BatchRecord} {reason : String} (h : r.error = some reason) :
    line r = r.name ++ ": skipped (" ++ reason ++ ")" := by
  have hword : ": skipped (" = ": " ++ "skipped (" := by decide
  rw [line, h, hword]
  simp only [skippedText, String.append_assoc]

/-- What is told of the job at a position of a batch on two machines: of each a record of the job, the same one but
for the time that the search took. Of a refused formula the reason is told and no time, so there the records are
one. -/
structure TellAlike (config : SearchConfig) (i : Nat) (job : BatchJob) (record record' : BatchRecord) : Prop where
  isRecordOf : Batch.IsRecordOf config i job record
  same : record' = { record with runtime := record'.runtime }
  accepted_iff : record.error = none ↔
    0 < job.formula.numLiterals ∧ job.formula.numVars ≤ Occurrences.maxVariables
  row : (rowTexts record').dropLast = (rowTexts record).dropLast
  line_of_accepted : record.error = none →
    line record = lineStart record ++ Decimal.fixed 2 record.runtime ++ "s" ∧
    line record' = lineStart record ++ Decimal.fixed 2 record'.runtime ++ "s"
  line_of_refused : ∀ reason, record.error = some reason →
    record' = record ∧ line record = job.name ++ ": skipped (" ++ reason ++ ")"

theorem tellAlike_of_solveJob {config : SearchConfig} {i : Nat} {job : BatchJob} {record : BatchRecord}
    {fresh : Generator} (hseed : config.seed ≠ none) (hvalid : config.validate = .ok ())
    (h : Batch.solveJob config fresh i job = .ok record) (seconds seconds' : Float) :
    TellAlike config i job (record.withRuntime seconds) (record.withRuntime seconds') := by
  have hrecord := Batch.isRecordOf_of_solveJob (.inr hseed) h
  have hstamped := hrecord.withRuntime seconds
  have haccepted := hstamped.error_eq_none_iff hvalid
  have hname : record.name = job.name := hrecord.name_eq
  cases herror : record.error with
  | none =>
    have hstamp : ∀ t, record.withRuntime t = { record with runtime := t } := fun t => by
      rw [BatchRecord.withRuntime, herror]
      rfl
    rw [hstamp] at hstamped haccepted
    rw [hstamp, hstamp]
    refine ⟨hstamped, rfl, haccepted, rfl, fun _ => ?_, fun reason hreason => ?_⟩
    · exact ⟨line_of_error_eq_none herror, line_of_error_eq_none herror⟩
    · cases herror.symm.trans hreason
  | some reason =>
    have hstamp : ∀ t, record.withRuntime t = record := fun t => by
      rw [BatchRecord.withRuntime, herror]
      rfl
    rw [hstamp] at hstamped haccepted
    rw [hstamp, hstamp]
    refine ⟨hstamped, rfl, haccepted, rfl, fun hnone => ?_, fun reason' hreason => ⟨rfl, ?_⟩⟩
    · cases herror.symm.trans hnone
    · rw [line_of_error_eq_some hreason, hname]

/-! ## Any order of listing -/

section
variable {t : FileTree} {place : List String} {jobs : List BatchJob}

/-- A file makes one job. -/
theorem IsJobOf.unique {job job' : BatchJob} (h : IsJobOf t place name job)
    (hnodup : (t.entries.map Prod.fst).Nodup) (h' : IsJobOf t place name job') : job = job' := by
  obtain ⟨bytes, file, he, hread, rfl⟩ := h
  obtain ⟨bytes', file', he', hread', rfl⟩ := h'
  have hfound := (FileTree.lookup_eq_some_iff_mem hnodup).2 he
  rw [(FileTree.lookup_eq_some_iff_mem hnodup).2 he'] at hfound
  cases hfound
  cases hread.symm.trans hread'
  rfl

theorem IsJobOf.name_eq {job : BatchJob} (h : IsJobOf t place name job) : job.name = name := by
  obtain ⟨bytes, file, -, -, rfl⟩ := h
  rfl

theorem exists_job (h : List.Forall₂ (IsJobOf t place) names jobs) {i : Nat} (hname : names[i]? = some name) :
    ∃ job, jobs[i]? = some job ∧ IsJobOf t place name job := by
  induction h generalizing i with
  | nil => cases hname
  | @cons first job names jobs hjob _ ih =>
    cases i with
    | zero =>
      cases hname
      exact ⟨job, rfl, hjob⟩
    | succ i => exact ih hname

end

theorem seed_of_solveJob {config : SearchConfig} {i : Nat} {job : BatchJob} {record : BatchRecord}
    {fresh : Generator} {t : FileTree} {place : List String} (hjob : IsJobOf t place name job)
    (h : Batch.solveJob config fresh i job = .ok record) :
    record.seed = config.seed.map (· + UInt64.ofNat i) := by
  obtain ⟨bytes, file, -, -, rfl⟩ := hjob
  obtain ⟨-, -, -, -, -, -, -, hseed⟩ := Batch.solveJob_eq_ok h
  exact hseed

/-- **The order in which a directory lists its files does not come through.** Let two machines have the same files,
listed in any two orders, and clocks and generators of any kind. Let the directory of the batch hold texts, and let
there be a seed in its settings. The names of the batch are then the same on both: those of the files that end in
`.cnf` after something else, in ascending order. Unless a search meets no accepted word on both machines, or the file
for the table cannot be made on either for one reason, both come to their end. There is one record for each name, in
their order, whose seed is the configured one plus its place in it. The rows of the table are those of the formulas
that the search accepts, each with all that its record tells, and a line tells of every formula how it was searched, or
why it was not; except for the times all of this is the same. -/
theorem work_of_relisted (args : BatchArgs) {M M' : Machine} (hrelisted : M.tree.Relisted M'.tree)
    {place : List String} (hdir : M.tree.find args.indir = .ok (place, .directory))
    (htexts : HoldsTexts M.tree place) {config : AppConfig}
    (hconfig : M.answer (Work.configure args.search none) = .ok config) {base : UInt64}
    (hseed : config.search.seed = some base) :
    ∃ names : List String,
      M.answer (fileNames args.indir) = .ok names ∧ M'.answer (fileNames args.indir) = .ok names ∧
      names.Pairwise (· < ·) ∧
      (∀ name, name ∈ names ↔ (∃ bytes, (place ++ [name], FileNode.file bytes) ∈ M.tree.entries) ∧
        ∃ stem, stem ≠ "" ∧ name = stem ++ ".cnf") ∧
      (M.run args.work = .error .endlessDraw ∧ M'.run args.work = .error .endlessDraw ∨
      (∃ e, M.tree.write args.outfile .empty = .error e ∧
        M.run args.work = .ok { error := some (.table e), printed := M.printed, tree := M.tree } ∧
        M'.run args.work = .ok { error := some (.table e), printed := M'.printed, tree := M'.tree }) ∨
      ∃ (records records' : List BatchRecord) (result result' : FileTree.Result),
        M.run args.work = .ok result ∧ args.Leaves M records result ∧
        M'.run args.work = .ok result' ∧ args.Leaves M' records' result' ∧
        records.map (·.name) = names ∧ records'.map (·.name) = names ∧
        ∀ i name, names[i]? = some name → ∃ job record record',
          IsJobOf M.tree place name job ∧ records[i]? = some record ∧ records'[i]? = some record' ∧
          record.seed = some (base + UInt64.ofNat i) ∧ TellAlike config.search i job record record') := by
  have hsame := fun path => hrelisted.contents_eq path
  have hdir' : M'.tree.find args.indir = .ok (place, .directory) := by rw [hrelisted.find_eq, hdir]
  have hchosen : chosen (M'.tree.filesIn place) = chosen (M.tree.filesIn place) :=
    chosen_eq_of_perm (hrelisted.filesIn_perm place)
  have hnames := reads_fileNames (FileTree.listFiles_of_find hdir)
  have hnames' := reads_fileNames (FileTree.listFiles_of_find hdir')
  rw [hchosen] at hnames'
  have hsorted := pairwise_lt_chosen (FileTree.nodup_filesIn hrelisted.nodup place)
  refine ⟨_, hnames.answer_eq, hnames'.answer_eq, hsorted, fun name => ?_, ?_⟩
  · rw [mem_chosen, FileTree.mem_filesIn, isTaken_iff]
  generalize hlist : chosen (M.tree.filesIn place) = names at hnames hnames' hsorted
  obtain ⟨hsettled, hsettled'⟩ := (Work.agree_configure hsame args.search none).reads hconfig
  have hmem : ∀ name ∈ names, name ∈ chosen (M.tree.filesIn place) := fun name hname => by rwa [hlist]
  obtain ⟨jobs, hjobs, hread⟩ := exists_reads_jobsOf_of_texts hrelisted.nodup hdir htexts hmem
  have hread' := ((Work.agree_jobsOf hsame args.indir names).reads hread.answer_eq).2
  -- there is a seed for each job, so the generators of the machines have no say in the records
  have hseeds : ∀ job ∈ jobs, job.seed ≠ none ∨ config.search.seed ≠ none := fun _ _ => .inr (by simp [hseed])
  have hsolve' := Batch.solveFrom_congr hseeds M'.fresh M.fresh 0 .silent
  cases hsolve : Batch.solveFrom config.search M.fresh 0 jobs .silent with
  | error e =>
    rw [hsolve] at hsolve'
    obtain ⟨i, job, -, herror⟩ := Batch.solveFrom_eq_error hsolve
    cases solveFormula_eq_error (Batch.solveJob_eq_error herror)
    exact .inl ⟨run_work_of_fault hsettled hnames hread hsolve, run_work_of_fault hsettled' hnames' hread' hsolve'⟩
  | ok q =>
    obtain ⟨records, r'⟩ := q
    rw [hsolve] at hsolve'
    have hmap : records.map (·.name) = names :=
      (Batch.map_name_of_solveFrom hsolve).trans (map_name_of_forall₂ IsJobOf.name_eq hjobs)
    have hmapAt : ∀ M : Machine, (M.stamped M.readings records).map (·.name) = names := fun M => by
      rw [Machine.map_name_stamped, hmap]
    have hle : (records.map (·.name)).Pairwise (· ≤ ·) := by
      rw [hmap, ← hlist]
      exact pairwise_le_chosen _
    rcases hrelisted.write_cases args.outfile .empty with ⟨tree, tree', hcreate, hcreate'⟩ | ⟨e, hcreate, hcreate'⟩
    · obtain ⟨result, hrun, hleaves⟩ := exists_leaves hsettled hnames hread hsolve hle hcreate
      obtain ⟨result', hrun', hleaves'⟩ := exists_leaves hsettled' hnames' hread' hsolve' hle hcreate'
      refine .inr (.inr ⟨_, _, result, result', hrun, hleaves, hrun', hleaves', hmapAt M, hmapAt M',
        fun i name hname => ?_⟩)
      have hvalid := Work.validate_of_canReturn_configure (Machine.canReturn_of_ends hsettled)
      obtain ⟨hlength, hat⟩ := Batch.solveFrom_eq_ok_iff.1 ⟨r', hsolve⟩
      obtain ⟨job, hjob, hisJob⟩ := exists_job hjobs hname
      obtain ⟨record, hrecord⟩ := Batch.exists_record hlength hjob
      have hsolved := hat i job record hjob hrecord
      rw [Nat.zero_add] at hsolved
      refine ⟨job, _, _, hisJob, ?_, ?_, ?_, tellAlike_of_solveJob (by simp [hseed]) hvalid hsolved
        (M.clock (M.readings + i)) (M'.clock (M'.readings + i))⟩
      · rw [Machine.getElem?_stamped, hrecord]
        rfl
      · rw [Machine.getElem?_stamped, hrecord]
        rfl
      · rw [BatchRecord.seed_withRuntime, seed_of_solveJob hisJob hsolved, hseed]
        rfl
    · exact .inr (.inl ⟨e, hcreate, run_work_of_unwritable hsettled hnames hread hsolve hle hcreate,
        run_work_of_unwritable hsettled' hnames' hread' hsolve' hle hcreate'⟩)

/-! ## Two listings of one directory -/

/-- A directory with a formula that is searched, one that is refused and a file that is none. -/
def mixedFiles : FileTree where
  entries := [(["in"], .directory), (["in", "b.cnf"], .file "1 0\n".toUTF8), (["in", "notes"], .file "".toUTF8),
    (["in", "a.cnf"], .file "c empty\n".toUTF8)]

def mixedForwards : Machine where
  tree := mixedFiles
  clock := fun _ => 0.5

def mixedBackwards : Machine where
  tree := { mixedFiles with entries := mixedFiles.entries.reverse }
  clock := fun _ => 2.0
  fresh := fun _ => .ofSeed 1

def brief : BatchArgs where
  indir := "in"
  outfile := "out.csv"
  search := { seed := some 4, maxIterations := some 10 }

/-- The settings that the arguments come to. -/
def briefConfig : AppConfig where
  search := { maxIterations := 10, seed := some 4 }
  clausesPerVar := Planted.defaultRatio

theorem reads_configure_brief (M : Machine) :
    Work.Reads M (Work.configure brief.search none) (.ok briefConfig) := by
  have hratio : AppConfig.ratioIsValid briefConfig.clausesPerVar = true := by decide +kernel
  have hrate : SearchConfig.rateIsValid briefConfig.search.localRate = true := by decide +kernel
  have hvalid : briefConfig.search.validate = .ok () := by
    rw [SearchConfig.validate, if_pos hrate, if_neg (by decide)]
  have hlayer : (Layer.above (.ofSettings []) ((brief.search.layer none).above (.ofFile {}))).config = briefConfig :=
    rfl
  have hresolve : AppConfig.resolve [] (brief.search.layer none) {} = .ok briefConfig := by
    rw [AppConfig.resolve, Setting.parseAll]
    dsimp only
    rw [Layer.ofLayer_eq, hlayer, if_pos hratio, hvalid]
  have hsettled : Work.Reads M (Work.orFail .settings (AppConfig.resolve [] (brief.search.layer none) {}))
      (.ok briefConfig) := by
    rw [hresolve]
    exact .pure briefConfig
  exact (Work.Reads.pure ({} : SettingsFile)).bind hsettled

theorem reads_fileNames_mixed : Work.Reads mixedForwards (fileNames brief.indir) (.ok ["a.cnf", "b.cnf"]) := by
  have hchosen : chosen ["b.cnf", "notes", "a.cnf"] = ["a.cnf", "b.cnf"] := by cbv
  have hlisted : mixedForwards.tree.listFiles brief.indir = .ok ["b.cnf", "notes", "a.cnf"] := by cbv
  have hread := reads_fileNames hlisted
  rwa [hchosen] at hread

/-- The batch comes to its end. -/
theorem exists_run_brief : ∃ result, mixedForwards.run brief.work = .ok result ∧ result.error = none := by
  have hfirst : mixedForwards.tree.contents (pathIn brief.indir "a.cnf") = .ok "c empty\n".toUTF8 := by cbv
  have hsecond : mixedForwards.tree.contents (pathIn brief.indir "b.cnf") = .ok "1 0\n".toUTF8 := by cbv
  have hnone : Work.Reads mixedForwards (jobsOf brief.indir []) (.ok []) := .pure []
  have hlast : Work.Reads mixedForwards (jobsOf brief.indir ["b.cnf"])
      (.ok [⟨"b.cnf", (Dimacs.parse "1 0\n").formula, none⟩]) :=
    (Work.Reads.formulaFile hsecond (Dimacs.read_toUTF8 _)).bind (hnone.bind (.pure _))
  have hjobs : Work.Reads mixedForwards (jobsOf brief.indir ["a.cnf", "b.cnf"])
      (.ok [⟨"a.cnf", (Dimacs.parse "c empty\n").formula, none⟩, ⟨"b.cnf", (Dimacs.parse "1 0\n").formula, none⟩]) :=
    (Work.Reads.formulaFile hfirst (Dimacs.read_toUTF8 _)).bind (hlast.bind (.pure _))
  obtain ⟨⟨records, r⟩, hq⟩ := exists_eq_ok_of_isOk (x := Batch.solveFrom briefConfig.search mixedForwards.fresh 0
    [⟨"a.cnf", (Dimacs.parse "c empty\n").formula, none⟩, ⟨"b.cnf", (Dimacs.parse "1 0\n").formula, none⟩] .silent)
    (by decide +kernel)
  have hsorted : (records.map (·.name)).Pairwise (· ≤ ·) := by
    rw [Batch.map_name_of_solveFrom hq]
    decide
  obtain ⟨tree, hcreate⟩ :=
    exists_eq_ok_of_isOk (x := mixedForwards.tree.write brief.outfile .empty) (by decide +kernel)
  obtain ⟨result, hrun, hleaves⟩ :=
    exists_leaves (reads_configure_brief _) reads_fileNames_mixed hjobs hq hsorted hcreate
  exact ⟨result, hrun, hleaves.error_eq⟩

theorem work_of_relisted_mixed : ∃ (record record' : BatchRecord) (reason : String) (result result' : FileTree.Result),
    mixedForwards.run brief.work = .ok result ∧ mixedBackwards.run brief.work = .ok result' ∧
    result.printed = "a.cnf" ++ ": skipped (" ++ reason ++ ")" ++ "\n" ++ (line record ++ "\n") ∧
    result'.printed = "a.cnf" ++ ": skipped (" ++ reason ++ ")" ++ "\n" ++ (line record' ++ "\n") ∧
    mixedForwards.tree.write "out.csv" (tableText BatchTable.columns [BatchTable.fields record]).toUTF8 =
      .ok result.tree ∧
    mixedBackwards.tree.write "out.csv" (tableText BatchTable.columns [BatchTable.fields record']).toUTF8 =
      .ok result'.tree ∧
    record.name = "b.cnf" ∧ record.seed = some 5 ∧ record' = { record with runtime := record'.runtime } := by
  have hrelisted : mixedForwards.tree.Relisted mixedBackwards.tree := ⟨rfl, List.reverse_perm _, by decide⟩
  have htexts : HoldsTexts mixedForwards.tree ["in"] := by
    intro name bytes he
    simp only [mixedForwards, mixedFiles, List.mem_cons, List.not_mem_nil] at he
    obtain h | h | h | h | h := he <;> cases h
    · exact ⟨by decide, String.isValidUTF8 _⟩
    · exact ⟨by decide, String.isValidUTF8 _⟩
    · exact ⟨by decide, String.isValidUTF8 _⟩
  have hdir : mixedForwards.tree.find brief.indir = .ok (["in"], .directory) := by cbv
  obtain ⟨result, hok, hnone⟩ := exists_run_brief
  obtain ⟨names, hnames, -, -, -, hends⟩ :=
    work_of_relisted brief hrelisted hdir htexts (reads_configure_brief _).answer_eq rfl
  obtain ⟨hendless, -⟩ | ⟨e, -, hfailed, -⟩ |
    ⟨records, records', _, result', hrun, hleaves, hrun', hleaves', hmap, hmap', hat⟩ := hends
  · cases hok.symm.trans hendless
  · cases hok.symm.trans hfailed
    cases hnone
  · cases hok.symm.trans hrun
    cases reads_fileNames_mixed.answer_eq.symm.trans hnames
    obtain ⟨refused, rest, rfl, -, hrest⟩ := List.map_eq_cons_iff.1 hmap
    obtain ⟨record, rest, rfl, hname, hrest⟩ := List.map_eq_cons_iff.1 hrest
    cases List.map_eq_nil_iff.1 hrest
    obtain ⟨refused', rest, rfl, -, hrest⟩ := List.map_eq_cons_iff.1 hmap'
    obtain ⟨record', rest, rfl, -, hrest⟩ := List.map_eq_cons_iff.1 hrest
    cases List.map_eq_nil_iff.1 hrest
    obtain ⟨job, _, _, hjob, hrefused, hrefused', -, halike⟩ := hat 0 "a.cnf" rfl
    cases hrefused
    cases hrefused'
    obtain ⟨job', _, _, hjob', hrecord, hrecord', hseed, halike'⟩ := hat 1 "b.cnf" rfl
    cases hrecord
    cases hrecord'
    have hempty : IsJobOf mixedFiles ["in"] "a.cnf" ⟨"a.cnf", (Dimacs.parse "c empty\n").formula, none⟩ :=
      ⟨_, _, .tail _ (.tail _ (.tail _ (.head _))), Dimacs.read_toUTF8 _, rfl⟩
    have hunit : IsJobOf mixedFiles ["in"] "b.cnf" ⟨"b.cnf", (Dimacs.parse "1 0\n").formula, none⟩ :=
      ⟨_, _, .tail _ (.head _), Dimacs.read_toUTF8 _, rfl⟩
    obtain rfl := hjob.unique (by decide) hempty
    obtain rfl := hjob'.unique (by decide) hunit
    have herror : record.error = none := halike'.accepted_iff.2 (by decide +kernel)
    obtain ⟨reason, hreason⟩ := Option.ne_none_iff_exists'.1 fun hnone =>
      absurd (halike.accepted_iff.1 hnone) (by decide +kernel)
    obtain ⟨hsame, hline⟩ := halike.line_of_refused reason hreason
    subst hsame
    have herror' : record'.error = none := by rw [halike'.same, herror]
    have hvalid : ∀ r : BatchRecord, r.error = none → Summary.valid [refused', r] = [r] := fun r hr => by
      simp [Summary.valid, hreason, hr]
    have hlines : ∀ r : BatchRecord, "" ++ String.join ([refused', r].map fun r => line r ++ "\n") =
        "a.cnf" ++ ": skipped (" ++ reason ++ ")" ++ "\n" ++ (line r ++ "\n") := fun r => by
      rw [List.map_cons, List.map_singleton, hline, String.empty_append]
      simp only [String.join, List.foldl, String.empty_append]
    have hwrite := hleaves.write_eq
    have hwrite' := hleaves'.write_eq
    rw [BatchTable.text, hvalid _ herror] at hwrite
    rw [BatchTable.text, hvalid _ herror'] at hwrite'
    exact ⟨record, record', reason, result, result', hrun, hrun', hleaves.printed_eq.trans (hlines record),
      hleaves'.printed_eq.trans (hlines record'), hwrite, hwrite', hname, hseed, halike'.same⟩

end BatchArgs

end SatSearch
