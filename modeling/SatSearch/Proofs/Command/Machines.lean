import SatSearch.Proofs.Command.Changes
import SatSearch.Proofs.Command.Jobs
import SatSearch.Proofs.Command.Trees
/-!
# Commands on machines

What work ends with on a machine is told step by step (`ends_bind`). What only reads files leaves the machine as it is
(`Reads`), and two machines on which every path has the same contents give it the same answer (`Agree`). What reads the
clock leaves a later machine. A table that is told comes into its file as one text, and its lines to the end of what was
printed (`ends_tellTable`).
-/

namespace SatSearch

namespace Machine

variable {α β : Type} {M M' : Machine} {work : Work (StateM Machine) α} {f : α → Work (StateM Machine) β} {a : α}
  {stop : Stop}

/-! ## Steps of work -/

theorem ends_bind (M : Machine) (work : Work (StateM Machine) α) (f : α → Work (StateM Machine) β) :
    M.ends (work >>= f) = match M.ends work with
      | (.ok a, M') => M'.ends (f a)
      | (.error stop, M') => (.error stop, M') := by
  change ExceptT.bindCont f (M.ends work).1 (M.ends work).2 = _
  generalize M.ends work = found
  obtain ⟨a | stop, M'⟩ := found <;> rfl

theorem ends_bind_of_ok (h : M.ends work = (.ok a, M')) : M.ends (work >>= f) = M'.ends (f a) := by
  rw [ends_bind, h]

theorem ends_bind_of_error (h : M.ends work = (.error stop, M')) : M.ends (work >>= f) = (.error stop, M') := by
  rw [ends_bind, h]

/-- Work that was done to its end did each of its parts. -/
theorem ends_bind_eq_ok {b : β} {M'' : Machine} (h : M.ends (work >>= f) = (.ok b, M'')) :
    ∃ a M', M.ends work = (.ok a, M') ∧ M'.ends (f a) = (.ok b, M'') := by
  cases hwork : M.ends work with
  | mk answer M' =>
    cases answer with
    | ok a => exact ⟨a, M', rfl, by rw [← ends_bind_of_ok hwork, h]⟩
    | error stop =>
      rw [ends_bind_of_error hwork] at h
      cases h

theorem canReturn_of_ends (h : M.ends work = (.ok a, M')) : MonadAttach.CanReturn work a := ⟨M, M', h⟩

/-- The answer to work that is begun on a machine. -/
def answer (M : Machine) (work : Work (StateM Machine) α) : Except Stop α := (M.ends work).1

/-! ## What a command leaves -/

section
variable {work : Work (StateM Machine) Unit} {e : CommandError}

theorem run_of_ok (h : M.ends work = (.ok (), M')) : M.run work = .ok { printed := M'.printed, tree := M'.tree } := by
  rw [run, h]

theorem run_of_error (h : M.ends work = (.error (.error e), M')) :
    M.run work = .ok { error := some e, printed := M'.printed, tree := M'.tree } := by
  rw [run, h]

theorem run_of_fault {fault : Fault} (h : M.ends work = (.error (.fault fault), M')) : M.run work = .error fault := by
  rw [run, h]

/-- What is left after a command tells how its work ended. -/
theorem ends_of_run {result : FileTree.Result} (h : M.run work = .ok result) :
    ∃ M', M.ends work = (result.error.elim (.ok ()) (.error ∘ .error), M') ∧ result.tree = M'.tree ∧
      result.printed = M'.printed := by
  cases hends : M.ends work with
  | mk answer M' =>
    cases answer with
    | ok _ =>
      rw [run_of_ok hends] at h
      cases h
      exact ⟨M', rfl, rfl, rfl⟩
    | error stop =>
      cases stop with
      | error e =>
        rw [run_of_error hends] at h
        cases h
        exact ⟨M', rfl, rfl, rfl⟩
      | fault fault =>
        rw [run_of_fault hends] at h
        cases h

end

/-- Whether a command comes to its end without an error. -/
def endsWell (M : Machine) (work : Work (StateM Machine) Unit) : Bool :=
  match M.run work with
  | .ok result => result.error.isNone
  | .error _ => false

theorem exists_result {work : Work (StateM Machine) Unit} (h : M.endsWell work = true) :
    ∃ result, M.run work = .ok result ∧ result.error = none := by
  unfold endsWell at h
  split at h
  · next result hrun => exact ⟨result, hrun, Option.isNone_iff_eq_none.1 h⟩
  · cases h

/-! ## Clocks -/

/-- The machine after its clock was read more often. -/
def later (M : Machine) (n : Nat) : Machine := { M with readings := M.readings + n }

/-- Records with the times that the clock shows, read once for each from the `n`-th time on. -/
def stamped (M : Machine) : (n : Nat) → List BatchRecord → List BatchRecord
  | _, [] => []
  | n, record :: records => record.withRuntime (M.clock n) :: M.stamped (n + 1) records

theorem getElem?_stamped (M : Machine) (records : List BatchRecord) : ∀ n i : Nat,
    (M.stamped n records)[i]? = records[i]?.map (·.withRuntime (M.clock (n + i))) := by
  induction records with
  | nil => exact fun _ _ => rfl
  | cons record records ih =>
    rintro n (_ | i)
    · rfl
    · rw [stamped, List.getElem?_cons_succ, ih, List.getElem?_cons_succ, Nat.add_assoc, Nat.add_comm 1]

theorem stamped_later (M : Machine) (k : Nat) (records : List BatchRecord) : ∀ n,
    (M.later k).stamped n records = M.stamped n records := by
  induction records with
  | nil => exact fun _ => rfl
  | cons record records ih =>
    intro n
    rw [stamped, ih, stamped]
    rfl

theorem map_name_stamped (M : Machine) (records : List BatchRecord) : ∀ n,
    (M.stamped n records).map (·.name) = records.map (·.name) := by
  induction records with
  | nil => exact fun _ => rfl
  | cons record records ih =>
    intro n
    rw [stamped, List.map_cons, ih, BatchRecord.name_withRuntime, List.map_cons]

end Machine

namespace Work

variable {α β ε : Type} {M M' : Machine} {work : Work (StateM Machine) α} {f : α → Work (StateM Machine) β} {a : α}
  {stop : Stop}

/-! ## Work that reads files only -/

/-- The work has an answer on a machine, which it leaves as it is. -/
def Reads (M : Machine) (work : Work (StateM Machine) α) (answer : Except Stop α) : Prop := M.ends work = (answer, M)

theorem Reads.answer_eq {answer : Except Stop α} (h : Reads M work answer) : M.answer work = answer := by
  rw [Machine.answer, h]

theorem Reads.pure (a : α) : Reads M (pure a : Work (StateM Machine) α) (.ok a) := rfl

theorem Reads.throw (stop : Stop) : Reads M (throw stop : Work (StateM Machine) α) (.error stop) := rfl

theorem Reads.bind (h : Reads M work (.ok a)) {answer : Except Stop β} (hf : Reads M (f a) answer) :
    Reads M (work >>= f) answer := (Machine.ends_bind_of_ok h).trans hf

theorem Reads.bind_error (h : Reads M work (.error stop)) : Reads M (work >>= f) (.error stop) :=
  Machine.ends_bind_of_error h

theorem Reads.contents (path : String) : Reads M (ofHost (Host.contents path)) (.ok (M.tree.contents path)) := rfl

theorem Reads.isDirectory (path : String) :
    Reads M (ofHost (Host.isDirectory path)) (.ok (M.tree.isDirectory path)) := rfl

theorem Reads.listFiles (path : String) : Reads M (ofHost (Host.listFiles path)) (.ok (M.tree.listFiles path)) := rfl

theorem Reads.fresh : Reads M (ofHost Host.fresh) (.ok M.fresh) := rfl

theorem Reads.bytes {path : String} {content : ByteArray} (h : M.tree.contents path = .ok content)
    (failure : FileError → CommandError) : Reads M (bytes failure path) (.ok content) := by
  refine (Reads.contents path).bind ?_
  rw [h]
  exact .pure content

theorem Reads.formulaFile {path : String} {content : ByteArray} {file : Dimacs.Instance}
    (h : M.tree.contents path = .ok content) (hread : Dimacs.read content = .ok file) :
    Reads M (formulaFile path) (.ok file.formula) := by
  refine (Reads.bytes h _).bind ?_
  rw [hread]
  exact .pure file.formula

/-! ## Two machines with the same files -/

/-- Both machines have one answer to the work, for which no clock is read. -/
def Agree (M M' : Machine) (work : Work (StateM Machine) α) : Prop :=
  ∃ answer, Reads M work answer ∧ Reads M' work answer

theorem Agree.pure (a : α) : Agree M M' (pure a : Work (StateM Machine) α) := ⟨_, .pure a, .pure a⟩

theorem Agree.throw (stop : Stop) : Agree M M' (throw stop : Work (StateM Machine) α) := ⟨_, .throw stop, .throw stop⟩

theorem Agree.bind (h : Agree M M' work) (hf : ∀ a, Agree M M' (f a)) : Agree M M' (work >>= f) := by
  obtain ⟨answer, hread, hread'⟩ := h
  cases answer with
  | error stop => exact ⟨_, hread.bind_error, hread'.bind_error⟩
  | ok a =>
    obtain ⟨answer, hrest, hrest'⟩ := hf a
    exact ⟨answer, hread.bind hrest, hread'.bind hrest'⟩

theorem Agree.orFail (g : ε → CommandError) (x : Except ε α) : Agree M M' (orFail g x) := by
  cases x with
  | ok a => exact .pure a
  | error e => exact .throw _

theorem Agree.reads (h : Agree M M' work) {answer : Except Stop α} (hanswer : M.answer work = answer) :
    Reads M work answer ∧ Reads M' work answer := by
  obtain ⟨answer', hread, hread'⟩ := h
  rw [hread.answer_eq] at hanswer
  rw [← hanswer]
  exact ⟨hread, hread'⟩

section
variable (hsame : ∀ path, M'.tree.contents path = M.tree.contents path)
include hsame

theorem agree_bytes (failure : FileError → CommandError) (path : String) :
    Agree M M' (bytes failure path) := by
  refine Agree.bind ⟨.ok (M.tree.contents path), .contents path, ?_⟩ fun answer => .orFail failure answer
  rw [← hsame path]
  exact .contents path

theorem agree_settingsFile (path : String) : Agree M M' (settingsFile path) := by
  refine (agree_bytes hsame _ path).bind fun bytes => ?_
  cases String.fromUTF8? bytes with
  | none => exact .throw _
  | some text =>
    dsimp only
    cases SettingsFile.parse? text with
    | none => exact .throw _
    | some file => exact .pure file

theorem agree_configure (args : SearchArgs) (clausesPerVar : Option Float) :
    Agree M M' (configure args clausesPerVar) := by
  unfold configure
  cases args.config with
  | none => exact (Agree.pure _).bind fun file => .orFail _ _
  | some path => exact (agree_settingsFile hsame path).bind fun file => .orFail _ _

theorem agree_formulaFile (path : String) : Agree M M' (formulaFile path) := by
  refine (agree_bytes hsame _ path).bind fun bytes => ?_
  cases Dimacs.read bytes with
  | error e => exact .throw _
  | ok file => exact .pure _

theorem agree_jobsOf (indir : String) (names : List String) : Agree M M' (BatchArgs.jobsOf indir names) := by
  induction names with
  | nil => exact .pure _
  | cons name names ih =>
    exact (agree_formulaFile hsame _).bind fun formula => ih.bind fun jobs => .pure _

end

/-! ## Jobs with their times -/

theorem ends_timed_of_ok {find : Unit → Except Fault α} (h : find () = .ok a) :
    M.ends (timed find) = (.ok (a, M.clock M.readings), M.later 1) := by
  have hasked : M.ends (ofHost (Host.timed find)) = (.ok (find (), M.clock M.readings), M.later 1) := rfl
  rw [timed, Machine.ends_bind_of_ok hasked]
  dsimp only
  rw [h]
  rfl

theorem ends_timed_of_error {find : Unit → Except Fault α} {e : Fault} (h : find () = .error e) :
    M.ends (timed find) = (.error (.fault e), M.later 1) := by
  have hasked : M.ends (ofHost (Host.timed find)) = (.ok (find (), M.clock M.readings), M.later 1) := rfl
  rw [timed, Machine.ends_bind_of_ok hasked]
  dsimp only
  rw [h]
  rfl

variable {config : SearchConfig} {fresh : Nat → Generator} {jobs : List BatchJob} {records : List BatchRecord}
  {position : Nat} {r r' : Reporter}

theorem ends_solveJobs_of_ok (h : Batch.solveFrom config fresh position jobs r = .ok (records, r')) (M : Machine) :
    M.ends (solveJobs config fresh position jobs) = (.ok (M.stamped M.readings records), M.later jobs.length) := by
  induction jobs generalizing position records r r' M with
  | nil =>
    cases h
    rfl
  | cons job jobs ih =>
    obtain ⟨record, rest, rfl, hfirst, r₁, hrest⟩ := Batch.solveFrom_cons_eq_ok_iff.1 ⟨r', h⟩
    -- the clock was read once for the first job when the others are solved
    have hcount : (M.later 1).later jobs.length = M.later (job :: jobs).length := by
      rw [Machine.later, Machine.later, Machine.later, List.length_cons, Nat.add_assoc, Nat.add_comm 1]
    rw [solveJobs, Machine.ends_bind_of_ok (ends_timed_of_ok hfirst), Machine.ends_bind_of_ok (ih hrest (M.later 1)),
      hcount, Machine.stamped_later]
    rfl

theorem ends_solveJobs_of_error {e : Fault} (h : Batch.solveFrom config fresh position jobs r = .error e)
    (M : Machine) : ∃ M', M.ends (solveJobs config fresh position jobs) = (.error (.fault e), M') := by
  induction jobs generalizing position r M with
  | nil => cases h
  | cons job jobs ih =>
    unfold Batch.solveFrom at h
    split at h
    · next hfirst =>
      cases h
      exact ⟨_, Machine.ends_bind_of_error (ends_timed_of_error hfirst)⟩
    · next record hfirst =>
      split at h
      · next hrest =>
        cases h
        obtain ⟨M', hM'⟩ := ih hrest (M.later 1)
        refine ⟨M', ?_⟩
        rw [solveJobs, Machine.ends_bind_of_ok (ends_timed_of_ok hfirst)]
        exact Machine.ends_bind_of_error hM'
      · cases h

/-! ## Results -/

variable {kind : OutputKind} {path text : String} {columns : List String} {runs : List Told} {tree : FileTree}
  {e : FileError}

theorem ends_change_of_ok {change : FileTree → Except FileError FileTree} (h : change M.tree = .ok tree) :
    M.ends (ofHost (Machine.change change)) = (.ok (.ok ()), { M with tree }) := by
  have hchanged : Machine.change change M = (.ok (), { M with tree }) := by
    rw [Machine.change, h]
  change (Except.ok (Machine.change change M).1, (Machine.change change M).2) = _
  rw [hchanged]

theorem ends_change_of_error {change : FileTree → Except FileError FileTree} (h : change M.tree = .error e) :
    M.ends (ofHost (Machine.change change)) = (.ok (.error e), M) := by
  have hchanged : Machine.change change M = (.error e, M) := by
    rw [Machine.change, h]
  change (Except.ok (Machine.change change M).1, (Machine.change change M).2) = _
  rw [hchanged]

theorem ends_create_of_ok (h : M.tree.write path .empty = .ok tree) :
    M.ends (create kind path) = (.ok (), { M with tree }) := Machine.ends_bind_of_ok (ends_change_of_ok h)

theorem ends_create_of_error (h : M.tree.write path .empty = .error e) :
    M.ends (create kind path) = (.error (.error (kind.failure e)), M) :=
  Machine.ends_bind_of_ok (ends_change_of_error h)

theorem ends_append_of_ok (h : M.tree.append path text.toUTF8 = .ok tree) :
    M.ends (append kind path text) = (.ok (), { M with tree }) := Machine.ends_bind_of_ok (ends_change_of_ok h)

theorem ends_printLine (M : Machine) (line : String) :
    M.ends (printLine line) = (.ok (), { M with printed := M.printed ++ (line ++ "\n") }) := rfl

/-- The lines of runs are printed before their rows are added to the file. -/
theorem ends_tellRuns {rows : List Fields} (M : Machine)
    (h : M.tree.append path (tableText columns (rows ++ runs.filterMap (·.row))).toUTF8 = .ok tree) :
    M.ends (tellRuns path columns rows runs) =
      (.ok (), { M with tree, printed := M.printed ++ String.join (runs.map fun run => run.line ++ "\n") }) := by
  induction runs generalizing rows M with
  | nil =>
    rw [List.filterMap_nil, List.append_nil] at h
    rw [tellRuns, ends_append_of_ok h]
    simp
  | cons run runs ih =>
    rw [Told.append_rows_cons] at h
    rw [tellRuns, Machine.ends_bind_of_ok (ends_printLine M run.line),
      ih { M with printed := M.printed ++ (run.line ++ "\n") } h]
    simp [String.append_assoc]

/-- A table is told to its end where its file can be written. -/
theorem ends_tellTable_of_ok {rows : List Fields} (hrows : runs.filterMap (·.row) = rows)
    (h : M.tree.write path (tableText columns rows).toUTF8 = .ok tree) : M.ends (tellTable path columns runs) =
      (.ok (), { M with tree, printed := M.printed ++ String.join (runs.map fun run => run.line ++ "\n") }) := by
  obtain ⟨place, -, -, hwrite, -⟩ := FileTree.exists_place_of_write h
  obtain ⟨tree', happend, hwhole⟩ := FileTree.append_of_write (hwrite .empty) (tableText columns rows).toUTF8
  rw [ByteArray.empty_append, h] at hwhole
  cases hwhole
  subst hrows
  rw [tellTable, Machine.ends_bind_of_ok (ends_create_of_ok (hwrite .empty))]
  exact ends_tellRuns _ happend

/-- Where it cannot be written nothing is told. -/
theorem ends_tellTable_of_error (h : M.tree.write path .empty = .error e) :
    M.ends (tellTable path columns runs) = (.error (.error (.table e)), M) :=
  Machine.ends_bind_of_error (ends_create_of_error h)

end Work

end SatSearch
