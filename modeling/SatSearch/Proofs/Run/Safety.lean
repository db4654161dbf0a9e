import SatSearch.Proofs.Cnf.DimacsSizes
import SatSearch.Proofs.Search.Outcomes
import SatSearch.Run.Single
/-!
# No access goes wrong

From the bytes of a file to the end of a search, each table is asked only for entries that it has. The
reader accepts everything that is text. What it gives is judged before anything is drawn: first the formula,
then the settings. After that the tables of the search fit together, which `Prepared` says of those that
never change and `Fits` of those that a step changes, so nothing but a draw without an accepted word keeps
a search from its result (`solveFormula_read_safe`).
-/

namespace SatSearch

variable {f : Formula} {o : Occurrences} {config : SearchConfig}

/-! ## Filling the occurrences -/

namespace Occurrences

variable {lists : Array (Array Nat)}

/-- Adds clause `i` to the list of a variable, which has to be there. -/
def pushAt (lists : Array (Array Nat)) (v i : Nat) : Except Fault (Array (Array Nat)) :=
  match entryAt lists v with
  | .ok row => .ok (lists.setIfInBounds v (row.push i))
  | .error e => .error e

/-- `addClause` with no list taken for granted. -/
def addLiteralsAt (i : Nat) : Array (Array Nat) → List Literal → Except Fault (Array (Array Nat))
  | lists, [] => .ok lists
  | lists, l :: ls => match pushAt lists l.var i with
    | .ok lists => addLiteralsAt i lists ls
    | .error e => .error e

/-- `addClauses` with no list taken for granted. -/
def addClausesAt : Array (Array Nat) → Nat → List Clause → Except Fault (Array (Array Nat))
  | lists, _, [] => .ok lists
  | lists, i, c :: cs => match addLiteralsAt i lists c.literals with
    | .ok lists => addClausesAt lists (i + 1) cs
    | .error e => .error e

theorem pushAt_eq {v : Nat} (h : v < lists.size) (i : Nat) :
    pushAt lists v i = .ok (lists.modify v (·.push i)) := by
  have hrow : entryAt lists v = .ok lists[v] := entryAt_eq_ok_iff.2 (Array.getElem?_eq_getElem h)
  rw [pushAt, hrow]
  refine congrArg Except.ok (Array.ext_getElem? fun u => ?_)
  rw [Array.getElem?_modify, Array.getElem?_setIfInBounds]
  by_cases hu : v = u
  · subst hu
    simp [h]
  · simp [hu]

theorem addLiteralsAt_eq (i : Nat) {ls : List Literal} (h : ∀ l ∈ ls, l.var < lists.size) :
    addLiteralsAt i lists ls = .ok (ls.foldl (fun lists l => lists.modify l.var (·.push i)) lists) := by
  induction ls generalizing lists with
  | nil => rfl
  | cons l ls ih =>
    obtain ⟨hl, hls⟩ := List.forall_mem_cons.1 h
    rw [addLiteralsAt, pushAt_eq hl]
    exact ih (by simpa using hls)

theorem addClausesAt_eq (i : Nat) {cs : List Clause}
    (h : ∀ c ∈ cs, ∀ l ∈ c.literals, l.var < lists.size) :
    addClausesAt lists i cs = .ok (addClauses lists i cs) := by
  induction cs generalizing lists i with
  | nil => rfl
  | cons c cs ih =>
    obtain ⟨hc, hcs⟩ := List.forall_mem_cons.1 h
    have hsize : (addClause lists i c).size = lists.size := size_addClause lists i c
    rw [← hsize] at hcs
    rw [addClausesAt, addLiteralsAt_eq i hc]
    exact ih (i + 1) hcs

theorem lt_of_mem_clausesOf (hb : build f = .ok o) {v : Nat} {is : Array Nat} (h : o.clausesOf v = .ok is) :
    ∀ i ∈ is, i < f.numClauses := by
  intro i hi
  have hv : v < o.lists.size := (Array.getElem?_eq_some_iff.1 (entryAt_eq_ok_iff.1 h)).1
  have hnumVars : o.lists.size = f.numVars := numVars_build hb
  obtain ⟨js, hjs, hlist⟩ := lists_build hb (v := v) (by omega)
  rw [h] at hjs
  cases hjs
  rw [← Array.mem_toList_iff, hlist] at hi
  obtain ⟨c, hc, -⟩ := Formula.mem_occurrencesOf.1 hi
  exact (Array.getElem?_eq_some_iff.1 hc).1

end Occurrences

namespace Solver

variable {S : Solver} {s : SearchState} {g g' : Generator} {k : Nat}

/-! ## Tables that fit together -/

/-- The tables that a search only reads: the occurrences have a list for each variable, they were filled
without looking beyond it, and they list clauses of the formula only. -/
structure Prepared (S : Solver) : Prop where
  numVars_eq : S.occurrences.numVars = S.formula.numVars
  var_lt : ∀ c ∈ S.formula.clauses, ∀ l ∈ c.literals, l.var < S.formula.numVars
  filled : Occurrences.addClausesAt (Array.replicate S.formula.numVars #[]) 0 S.formula.clauses.toList =
    .ok S.occurrences.lists
  index_lt : ∀ v is, S.occurrences.clausesOf v = .ok is → ∀ i ∈ is, i < S.formula.numClauses

/-- The tables that a step changes, with the number of steps: a value for each variable, an entry for each
clause, members that are clauses, and places where members stand. -/
structure Fits (S : Solver) (k : Nat) (s : SearchState) : Prop where
  size_assignment : s.assignment.size = S.formula.numVars
  size_positions : s.unsatisfied.positions.size = S.formula.numClauses
  size_members_le : s.unsatisfied.size ≤ S.formula.numClauses
  member_lt : ∀ i ∈ s.unsatisfied.toList, i < S.formula.numClauses
  place_lt : ∀ i p : Nat, s.unsatisfied.positions[i]? = some (some p) → p < s.unsatisfied.size
  iteration_le : s.iteration ≤ k

theorem prepared_of_build (hb : Occurrences.build S.formula = .ok S.occurrences) : S.Prepared where
  numVars_eq := Occurrences.numVars_build hb
  var_lt _ hc _ hl := Formula.var_lt hc hl
  filled := by
    rw [(Occurrences.build_eq_ok hb).2.2]
    apply Occurrences.addClausesAt_eq
    intro c hc l hl
    rw [Array.size_replicate]
    exact Formula.var_lt (Array.mem_toList_iff.1 hc) hl
  index_lt _ _ h := Occurrences.lt_of_mem_clausesOf hb h

theorem iteration_le (h : S.after k g = .ok (s, g')) : s.iteration ≤ k := by
  induction k generalizing s g' with
  | zero =>
    obtain ⟨a, valence, u, -, -, -, rfl⟩ := start_eq_ok h
    exact Nat.le_refl 0
  | succ k ih =>
    obtain ⟨t, g₁, out, ht, hstep⟩ := after_succ_eq_ok h
    have hle := ih ht
    cases he : t.unsatisfied.isEmpty with
    | true =>
      rw [step_of_isEmpty he] at hstep
      cases hstep
      omega
    | false =>
      rw [step_of_not_isEmpty he] at hstep
      obtain ⟨valence, kind, a, flipped, u, g₂, g₃, -, -, -, -, hq⟩ := mutate_eq_ok hstep
      cases hq
      exact Nat.succ_le_succ hle

/-- Where the unsatisfied clauses are tracked, the tables fit. -/
theorem fits_of_tracks (h : s.Tracks S.formula) (hk : s.iteration ≤ k) : S.Fits k s where
  size_assignment := h.size_eq
  size_positions := h.indexed.size_positions
  size_members_le := by
    obtain ⟨n, -, hsum⟩ := h.covers.countSatisfied h.indexed.nodup h.mem_iff
    rw [UnsatSet.toList, Array.length_toList] at hsum
    exact Nat.le.intro hsum
  member_lt _ hi := h.indexed.lt_of_mem hi
  place_lt i p hp := (Array.getElem?_eq_some_iff.1 ((h.indexed.place_iff i p).1 hp)).1
  iteration_le := hk

/-! ## Accepted searches -/

section
variable (hS : new f config = .ok S)
include hS

theorem config_of_new : S.config = config := by
  obtain ⟨o, -, -, rfl⟩ := new_eq_ok hS
  rfl

theorem build_of_new : Occurrences.build S.formula = .ok S.occurrences := by
  obtain ⟨o, hb, -, rfl⟩ := new_eq_ok hS
  exact hb

theorem reports_of_new : S.drift.Reports S.formula := by
  obtain ⟨o, -, -, rfl⟩ := new_eq_ok hS
  exact Drift.reports_semantic f

theorem fits_of_new (h : S.Visits g k s) : S.Fits k s := by
  obtain ⟨g', h⟩ := h
  exact fits_of_tracks (tracks_after (build_of_new hS) (reports_of_new hS) h) (iteration_le h)

theorem eq_endlessDraw_of_new {e : Fault} (h : S.after k g = .error e) : e = .endlessDraw := by
  obtain ⟨o, hb, -, rfl⟩ := new_eq_ok hS
  exact after_eq_error hb (Drift.reports_semantic f) (Objective.answers_valence f)
    (Drift.answers_semantic f) h

end

end Solver

theorem solveFormula_of_new {S : Solver} (hS : Solver.new f config = .ok S) (fresh : Generator)
    (r : Reporter) :
    (∃ report r', solveFormula f config fresh r = .ok (.ok report, r') ∧
      report.result.steps ≤ config.maxIterations) ∨
    solveFormula f config fresh r = .error .endlessDraw := by
  have hconfig := Solver.config_of_new hS
  unfold solveFormula
  rw [hS]
  dsimp only
  generalize ((r.report (.phaseStart "Preparation")).report .phaseFinish).report
    (.phaseStart "Searching") = r
  have hends := Solver.solve_ends S r (config.generator fresh)
  rw [hconfig] at hends
  generalize S.solve r (config.generator fresh) = result at hends
  cases hends with
  | satisfied hi hs hm he => exact .inl ⟨_, _, rfl, Nat.le_of_lt hi⟩
  | exhausted hs hm => exact .inl ⟨_, _, rfl, Nat.le_refl _⟩
  | fault he => exact .inr (by rw [Solver.eq_endlessDraw_of_new hS he])

/-! ## Refused formulas and settings -/

section
variable (config) (fresh : Generator) (r : Reporter)

theorem solveFormula_of_new_eq_error {e : SearchError} (h : Solver.new f config = .error e) :
    solveFormula f config fresh r = .ok (.error e, r.report (.phaseStart "Preparation")) := by
  unfold solveFormula
  rw [h]

/-- The formula is judged before the settings are looked at. -/
theorem solveFormula_of_build_eq_error {e : SearchError} (h : Occurrences.build f = .error e) :
    solveFormula f config fresh r = .ok (.error e, r.report (.phaseStart "Preparation")) := by
  apply solveFormula_of_new_eq_error
  rw [Solver.new, h]

end

/-! ## From bytes to results -/

/-- The tables of a solver fit at every step, and only a draw without an accepted word stops it. -/
structure Solver.Safe (S : Solver) : Prop where
  prepared : S.Prepared
  fits : ∀ g k s, S.Visits g k s → S.Fits k s
  eq_endlessDraw : ∀ g k e, S.after k g = .error e → e = .endlessDraw

/-- A formula is refused before anything is drawn, or its search is safe and ends in a result within the budget. -/
structure SafelySolved (f : Formula) (config : SearchConfig) (fresh : Generator) (r : Reporter) : Prop where
  empty : f.numLiterals = 0 →
    solveFormula f config fresh r = .ok (.error .emptyFormula, r.report (.phaseStart "Preparation"))
  tooLarge : 0 < f.numLiterals → Occurrences.maxVariables < f.numVars → solveFormula f config fresh r =
    .ok (.error (.tooManyVariables f.numVars Occurrences.maxVariables), r.report (.phaseStart "Preparation"))
  invalid : 0 < f.numLiterals → f.numVars ≤ Occurrences.maxVariables → ∀ e, config.validate = .error e →
    solveFormula f config fresh r = .ok (.error (.invalidConfig e), r.report (.phaseStart "Preparation"))
  accepted : 0 < f.numLiterals → f.numVars ≤ Occurrences.maxVariables → config.validate = .ok () →
    ∃ S, Solver.new f config = .ok S ∧ S.formula = f ∧ S.Safe ∧
      ((∃ report r', solveFormula f config fresh r = .ok (.ok report, r') ∧
        report.result.steps ≤ config.maxIterations) ∨
      solveFormula f config fresh r = .error .endlessDraw)

theorem Solver.safe_of_new {S : Solver} (hS : new f config = .ok S) : S.Safe where
  prepared := prepared_of_build (build_of_new hS)
  fits _ _ _ := fits_of_new hS
  eq_endlessDraw _ _ _ := eq_endlessDraw_of_new hS

theorem safelySolved (f : Formula) (config : SearchConfig) (fresh : Generator) (r : Reporter) :
    SafelySolved f config fresh r where
  empty hnone := solveFormula_of_build_eq_error config fresh r (if_pos hnone)
  tooLarge hsome hmany := by
    apply solveFormula_of_build_eq_error config fresh r
    rw [Occurrences.build, if_neg (by omega), if_pos hmany]
  invalid hsome hfew e he := by
    obtain ⟨o, hb⟩ := Occurrences.exists_build hsome hfew
    apply solveFormula_of_new_eq_error config fresh r
    rw [Solver.new, hb]
    dsimp only
    rw [he]
  accepted hsome hfew hv := by
    obtain ⟨o, hb⟩ := Occurrences.exists_build hsome hfew
    have hS := Solver.new_of_ok hb hv
    exact ⟨_, hS, rfl, Solver.safe_of_new hS, solveFormula_of_new hS fresh r⟩

/-- **No bytes, settings or draws lead to an access out of range.** Bytes that are no text are refused.
Else a formula is read, with at most `2 ^ 63` variables and no more clauses and literals than there are bytes.
Before anything is drawn it is refused if it has no literal, else if it has too many variables, whatever the
settings are; else the settings are refused if they are not valid. Otherwise there is a solver whose tables
fit at every step, and its search ends in a result within the budget, unless a draw meets no accepted word. -/
theorem solveFormula_read_safe (bytes : ByteArray) :
    (¬ bytes.IsValidUTF8 ∧ Dimacs.read bytes = .error .notText) ∨
    ∃ inst, Dimacs.read bytes = .ok inst ∧
      inst.formula.numVars ≤ Numeral.signedLimit ∧
      inst.formula.numClauses ≤ inst.formula.numLiterals ∧ inst.formula.numLiterals ≤ bytes.size ∧
      ∀ config fresh r, SafelySolved inst.formula config fresh r := by
  by_cases hvalid : bytes.IsValidUTF8
  · obtain ⟨text, rfl⟩ := Encoding.exists_eq_toUTF8 hvalid
    exact .inr ⟨_, Dimacs.read_toUTF8 text, Dimacs.numVars_parse_le text,
      Formula.numClauses_le_numLiterals fun c hc => Dimacs.literals_ne_nil_of_parse hc,
      Dimacs.numLiterals_read_le text, safelySolved _⟩
  · refine .inl ⟨hvalid, ?_⟩
    rw [Dimacs.read, (Dimacs.takeBytes_of_not_isValidUTF8 hvalid).1]

/-- Two literals whose variables are far beyond any table, one of them the last that is read. -/
def hugeText : String := "4611686018427387904 -9223372036854775808"

theorem solveFormula_read_safe_huge :
    (∃ inst, Dimacs.read hugeText.toUTF8 = .ok inst ∧ ∀ config fresh r,
      solveFormula inst.formula config fresh r =
        .ok (.error (.tooManyVariables Numeral.signedLimit Occurrences.maxVariables),
          r.report (.phaseStart "Preparation"))) ∧
    ∃ inst report r', Dimacs.read "1 -2\r\n2".toUTF8 = .ok inst ∧
      solveFormula inst.formula { maxIterations := 3, seed := some 42 } (.ofSeed 0) .silent =
        .ok (.ok report, r') ∧ report.result.steps ≤ 3 := by
  constructor
  · rcases solveFormula_read_safe hugeText.toUTF8 with ⟨hinvalid, -⟩ | ⟨inst, hread, -, -, -, hsolve⟩
    · exact absurd hugeText.isValidUTF8 hinvalid
    · have hinst : inst = Dimacs.parse hugeText := Dimacs.eq_parse_of_read hread
      have hliterals : inst.formula.numLiterals = 2 := by
        rw [hinst]
        decide +kernel
      have hvars : inst.formula.numVars = Numeral.signedLimit := by
        rw [hinst]
        decide +kernel
      refine ⟨inst, hread, fun config fresh r => ?_⟩
      have hmany := (hsolve config fresh r).tooLarge (by omega) (by rw [hvars]; decide)
      rwa [hvars] at hmany
  · rcases solveFormula_read_safe "1 -2\r\n2".toUTF8 with ⟨hinvalid, -⟩ | ⟨inst, hread, -, -, -, hsolve⟩
    · exact absurd "1 -2\r\n2".isValidUTF8 hinvalid
    · have hinst : inst = Dimacs.parse "1 -2\r\n2" := Dimacs.eq_parse_of_read hread
      have hliterals : inst.formula.numLiterals = 3 := by
        rw [hinst]
        decide +kernel
      have hvars : inst.formula.numVars = 2 := by
        rw [hinst]
        decide +kernel
      have hok : (solveFormula inst.formula { maxIterations := 3, seed := some 42 } (.ofSeed 0)
          .silent).isOk = true := by
        rw [hinst]
        decide +kernel
      obtain ⟨S, -, -, -, hends⟩ := (hsolve { maxIterations := 3, seed := some 42 } (.ofSeed 0) .silent).accepted
        (by omega) (by rw [hvars]; decide) rfl
      rcases hends with ⟨report, r', hreport, hsteps⟩ | hendless
      · exact ⟨inst, report, r', hread, hreport, hsteps⟩
      · rw [hendless] at hok
        cases hok

end SatSearch
