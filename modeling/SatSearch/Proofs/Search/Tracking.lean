import SatSearch.Proofs.Random.Assignments
import SatSearch.Proofs.Search.Drifts
import SatSearch.Proofs.Search.Occurrences
import SatSearch.Search.Solver
/-!
# The unsatisfied clauses are tracked exactly

A search never looks at all clauses again: a step refreshes the clauses of the reported variables and
keeps the others. `SearchState.Tracks` is the invariant that makes this right. It holds at the start,
where all clauses are evaluated, and a step keeps it for two reasons that meet: every clause of a
reported variable is decided anew (`applyFlips_spec`, by the occurrences), and a clause of unreported
variables only has the truth value that it had (`fails_congr`).
-/

namespace SatSearch

open Draw (Meets Endless)

variable {f : Formula} {a b : Assignment}

/-! ## Clauses of variables that keep their values -/

theorem Formula.fails_congr (ha : f.Covers a) (hb : f.Covers b) {i : Nat}
    (h : ∀ v, i ∈ f.occurrencesOf v → a.valueD v = b.valueD v) : f.Fails a i ↔ f.Fails b i := by
  rw [ha.fails_iff, hb.fails_iff]
  refine exists_congr fun c => and_congr_right fun hc => ?_
  rw [Clause.holds_congr fun l hl => h l.var (Formula.mem_occurrencesOf.2 ⟨c, hc, l, hl, rfl⟩)]

/-- A report names every variable on which the two assignments differ. -/
theorem IsReport.valueD_eq {vars : List Nat} (h : IsReport f a (b, vars)) {v : Nat} (hv : v ∉ vars) :
    b.valueD v = a.valueD v := by
  have hsize : b.size = a.size := h.size_eq
  by_cases hlt : v < a.size
  · refine Classical.byContradiction fun hne => hv (h.changed v (Assignment.mem_differing.2 ?_))
    exact ⟨hlt, by rwa [hsize], Ne.symm hne⟩
  · have hle : a.size ≤ v := Nat.le_of_not_lt hlt
    rw [Assignment.valueD_of_le hle, Assignment.valueD_of_le (hsize ▸ hle)]

namespace SearchState

variable {s : SearchState} {o : Occurrences}

/-! ## Applying flips -/

/-- Variable by variable or all clauses in one go. -/
theorem refreshVars_eq_refreshAll (hb : Occurrences.build f = .ok o) : ∀ {vars : List Nat} {u : UnsatSet},
    (∀ v ∈ vars, v < f.numVars) → refreshVars f o a u vars = u.refreshAll f a (vars.flatMap f.occurrencesOf)
  | [], _, _ => rfl
  | v :: vars, u, hlt => by
    obtain ⟨hv, hvars⟩ := List.forall_mem_cons.1 hlt
    obtain ⟨is, his, hlist⟩ := Occurrences.lists_build hb hv
    rw [refreshVars, his, List.flatMap_cons, UnsatSet.refreshAll_append, ← hlist]
    dsimp only
    cases u.refreshAll f a is.toList with
    | error e => rfl
    | ok w => exact refreshVars_eq_refreshAll hb hvars

theorem refreshVars_spec (hb : Occurrences.build f = .ok o) (hc : f.Covers a) {vars : List Nat} {u : UnsatSet}
    (h : u.Indexed f.numClauses) (hlt : ∀ v ∈ vars, v < f.numVars) :
    ∃ t, refreshVars f o a u vars = .ok t ∧ t.Indexed f.numClauses ∧
      ∀ j, j ∈ t.toList ↔ (f.Touches vars j ∧ f.Fails a j) ∨ (¬ f.Touches vars j ∧ j ∈ u.toList) := by
  have hin : ∀ i ∈ vars.flatMap f.occurrencesOf, i < f.numClauses := by
    intro i hi
    obtain ⟨v, -, hv⟩ := List.mem_flatMap.1 hi
    obtain ⟨c, hci, -⟩ := Formula.mem_occurrencesOf.1 hv
    exact (Array.getElem?_eq_some_iff.1 hci).1
  obtain ⟨t, ht, hn, hmem⟩ := UnsatSet.refreshAll_spec h hc hin
  refine ⟨t, by rw [refreshVars_eq_refreshAll hb hlt, ht], hn, fun j => ?_⟩
  rw [hmem, List.mem_flatMap]
  rfl

/-- **Applying flips decides the clauses of the listed variables** by the assignment that the state
has, and changes nothing else. -/
theorem applyFlips_spec (hb : Occurrences.build f = .ok o) (hs : s.assignment.size = f.numVars)
    (hn : s.unsatisfied.Indexed f.numClauses) {vars : List Nat} (hv : ∀ v ∈ vars, v < f.numVars) :
    ∃ t, s.applyFlips f o vars = .ok { s with unsatisfied := t } ∧ t.Indexed f.numClauses ∧
      ∀ j, j ∈ t.toList ↔ (f.Touches vars j ∧ f.Fails s.assignment j) ∨
        (¬ f.Touches vars j ∧ j ∈ s.unsatisfied.toList) := by
  obtain ⟨t, ht, hrest⟩ := refreshVars_spec hb (Nat.le_of_eq hs.symm) hn hv
  exact ⟨t, by rw [applyFlips, ht], hrest⟩

/-! ## The invariant -/

/-- The assignment is one of the formula's variables, and the set has its unsatisfied clauses. -/
structure Tracks (s : SearchState) (f : Formula) : Prop where
  size_eq : s.assignment.size = f.numVars
  indexed : s.unsatisfied.Indexed f.numClauses
  mem_iff : ∀ i, i ∈ s.unsatisfied.toList ↔ f.Fails s.assignment i

theorem Tracks.covers (h : s.Tracks f) : f.Covers s.assignment := Nat.le_of_eq h.size_eq.symm

/-- The search stops exactly when every clause is satisfied. -/
theorem Tracks.isEmpty_iff (h : s.Tracks f) :
    s.unsatisfied.isEmpty = true ↔ f.SatisfiedBy s.assignment := by
  rw [UnsatSet.isEmpty_iff, h.covers.satisfiedBy_iff_not_fails]
  exact forall_congr' fun i => not_congr (h.mem_iff i)

theorem init_spec (ha : a.size = f.numVars) (valence : Float) (recordTrace : Bool) :
    ∃ s, init f a valence recordTrace = .ok s ∧ s.assignment = a ∧ s.Tracks f := by
  obtain ⟨t, ht, hn, hmem⟩ := UnsatSet.ofAssignment_spec (a := a) (Nat.le_of_eq ha.symm)
  exact ⟨_, by rw [init, ht], rfl, ha, hn, hmem⟩

/-- The step lemma: the clauses of a reported move are brought up to date. -/
theorem Tracks.applyFlips (h : s.Tracks f) (hb : Occurrences.build f = .ok o) {vars : List Nat}
    (hr : IsReport f s.assignment (a, vars)) :
    ∃ t, SearchState.applyFlips { s with assignment := a } f o vars =
      .ok { s with assignment := a, unsatisfied := t } ∧
      SearchState.Tracks { s with assignment := a, unsatisfied := t } f := by
  have hsize : a.size = f.numVars := hr.size_eq.trans h.size_eq
  obtain ⟨t, ht, hn, hmem⟩ :=
    applyFlips_spec (s := { s with assignment := a }) hb hsize h.indexed hr.lt
  refine ⟨t, ht, hsize, hn, fun j => ?_⟩
  rw [hmem]
  by_cases htouched : f.Touches vars j
  · simp [htouched]
  · -- no variable of clause `j` was reported, so none of them changed
    have hsame : f.Fails a j ↔ f.Fails s.assignment j :=
      Formula.fails_congr (Nat.le_of_eq hsize.symm) h.covers fun v hj =>
        hr.valueD_eq fun hv => htouched ⟨v, hv, hj⟩
    simp [htouched, hsame, h.mem_iff]

end SearchState

end SatSearch
