import SatSearch.Proofs.Search.Tracking
/-!
# What applying flips decides

Between a move and its bookkeeping the set of unsatisfied clauses is not that of the assignment. So it is said
here of every set, right or wrong, what `applyFlips` makes of it: the clauses of the listed variables
are decided by the assignment that the state has, however often they come up, and every other clause is in the
set or not as before. In the end the set is right exactly if it was right about the other clauses at the start.
Main statement: `applyFlips_exact`.
-/

namespace SatSearch

variable {f : Formula} {vars : List Nat} {i : Nat} {c : Clause}

/-- A clause is touched if one of its literals has a listed variable. -/
theorem Formula.touches_iff (hc : f.clauses[i]? = some c) :
    f.Touches vars i ↔ ∃ l ∈ c.literals, l.var ∈ vars := by
  constructor
  · rintro ⟨v, hv, hi⟩
    obtain ⟨c', hc', l, hl, rfl⟩ := Formula.mem_occurrencesOf.1 hi
    rw [hc] at hc'
    cases hc'
    exact ⟨l, hl, hv⟩
  · rintro ⟨l, hl, hv⟩
    exact ⟨l.var, hv, Formula.mem_occurrencesOf.2 ⟨c, hc, l, hl, rfl⟩⟩

theorem Formula.not_touches (hc : f.clauses[i]? = some c) (hnone : ∀ l ∈ c.literals, l.var ∉ vars) :
    ¬ f.Touches vars i := by
  rw [Formula.touches_iff hc]
  rintro ⟨l, hl, hv⟩
  exact hnone l hl hv

/-- Each clause that none of the listed variables touches is in the set exactly if the assignment does not
satisfy it. -/
def UnsatSet.RightElsewhere (u : UnsatSet) (f : Formula) (a : Assignment) (vars : List Nat) : Prop :=
  ∀ i c, f.clauses[i]? = some c → (∀ l ∈ c.literals, l.var ∉ vars) → (i ∈ u.toList ↔ f.Fails a i)

namespace SearchState

variable {s : SearchState} {o : Occurrences}

/-- A set that decides the touched clauses and keeps the others is right as far as it was right before. -/
theorem right_iff_rightElsewhere {u t : UnsatSet} {a : Assignment} (hu : u.Indexed f.numClauses)
    (hmem : ∀ j, j ∈ u.toList ↔ (f.Touches vars j ∧ f.Fails a j) ∨ (¬ f.Touches vars j ∧ j ∈ t.toList)) :
    (∀ j, j ∈ u.toList ↔ f.Fails a j) ↔ t.RightElsewhere f a vars := by
  constructor
  · intro hright i c hc hnone
    rw [← hright, hmem]
    simp [Formula.not_touches hc hnone]
  · intro helsewhere j
    by_cases hj : j < f.numClauses
    · have hc : f.clauses[j]? = some f.clauses[j] := Array.getElem?_eq_getElem hj
      rw [hmem]
      by_cases htouched : f.Touches vars j
      · simp [htouched]
      · have hnone : ∀ l ∈ f.clauses[j].literals, l.var ∉ vars := fun l hl hv =>
          htouched ((Formula.touches_iff hc).2 ⟨l, hl, hv⟩)
        simp [htouched, helsewhere j _ hc hnone]
    · -- beyond the last clause there are no members and no clauses
      exact ⟨fun h => absurd (hu.lt_of_mem h) hj, fun h => absurd h.lt hj⟩

/-- **Applying flips decides the clauses of the listed variables and no others.** Let the set have room for the
clauses and its table fit its members; it may be any such set. Then the flips of variables of the formula,
listed as often as one likes, can be applied, and only the set is another one afterwards. A clause with a listed
variable is in it exactly if the assignment does not satisfy it, and a clause without one if it was in the set
before. So the set is that of the assignment exactly if it was right about the clauses without one. -/
theorem applyFlips_exact (hb : Occurrences.build f = .ok o) (hs : s.assignment.size = f.numVars)
    (hn : s.unsatisfied.Indexed f.numClauses) (hv : ∀ v ∈ vars, v < f.numVars) :
    ∃ u, s.applyFlips f o vars = .ok { s with unsatisfied := u } ∧ u.Indexed f.numClauses ∧
      (∀ i c, f.clauses[i]? = some c → (∃ l ∈ c.literals, l.var ∈ vars) →
        ∃ satisfied, c.isSatisfiedBy s.assignment = .ok satisfied ∧ u.contains i = .ok (!satisfied)) ∧
      (∀ i c, f.clauses[i]? = some c → (∀ l ∈ c.literals, l.var ∉ vars) →
        u.contains i = s.unsatisfied.contains i) ∧
      ((∀ i, i ∈ u.toList ↔ f.Fails s.assignment i) ↔ s.unsatisfied.RightElsewhere f s.assignment vars) := by
  have hcovers : f.Covers s.assignment := Nat.le_of_eq hs.symm
  obtain ⟨u, hu, hindexed, hmem⟩ := applyFlips_spec hb hs hn hv
  refine ⟨u, hu, hindexed, fun i c hc htouched => ?_, fun i c hc hnone => ?_, right_iff_rightElsewhere hindexed hmem⟩
  · have hlt : i < f.numClauses := (Array.getElem?_eq_some_iff.1 hc).1
    have hdecided : i ∈ u.toList ↔ c.holds s.assignment = false := by
      rw [hmem, hcovers.fails_iff_holds hc]
      simp [(Formula.touches_iff hc).2 htouched]
    refine ⟨c.holds s.assignment, hcovers.isSatisfiedBy (Array.mem_of_getElem? hc), ?_⟩
    rw [hindexed.contains_eq hlt]
    simp [hdecided]
  · have hlt : i < f.numClauses := (Array.getElem?_eq_some_iff.1 hc).1
    have hkept : i ∈ u.toList ↔ i ∈ s.unsatisfied.toList := by
      rw [hmem]
      simp [Formula.not_touches hc hnone]
    rw [hindexed.contains_eq hlt, hn.contains_eq hlt]
    simp only [hkept]

/-- A clause that repeats a variable, a clause of another variable, an empty one, and one of two variables. -/
def crooked : Formula :=
  .ofClauses #[⟨[⟨0, true⟩, ⟨0, true⟩]⟩, ⟨[⟨1, false⟩]⟩, ⟨[]⟩, ⟨[⟨2, true⟩, ⟨0, false⟩]⟩]

/-- Variable 0 was made true. Of the set nothing is right: the touched clauses 0 and 3 are to change places, and
among the others a true clause is a member and the empty one is not. -/
def crookedState : SearchState where
  assignment := ⟨#[true, false, false]⟩
  unsatisfied := ⟨#[1, 0], #[some 1, some 0, none, none]⟩
  bestAssignment := ⟨#[false, false, true]⟩
  bestValence := 0.75
  iteration := 7
  trace := none
  memory := {}

theorem applyFlips_exact_crooked :
    Occurrences.build crooked = .ok ⟨#[#[0, 0, 3], #[1], #[3]]⟩ ∧ crookedState.assignment.size = crooked.numVars ∧
    crookedState.unsatisfied.Indexed crooked.numClauses ∧ (∀ v ∈ [0, 0], v < crooked.numVars) ∧
    ∃ u, crookedState.applyFlips crooked ⟨#[#[0, 0, 3], #[1], #[3]]⟩ [0, 0] =
        .ok { crookedState with unsatisfied := u } ∧
      u.contains 0 = .ok false ∧ u.contains 3 = .ok true ∧ u.contains 1 = .ok true ∧ u.contains 2 = .ok false ∧
      ¬ ∀ i, i ∈ u.toList ↔ crooked.Fails crookedState.assignment i := by
  have hb : Occurrences.build crooked = .ok ⟨#[#[0, 0, 3], #[1], #[3]]⟩ := rfl
  have hn : crookedState.unsatisfied.Indexed crooked.numClauses :=
    UnsatSet.indexed_of_insertAll [1, 0] (by decide) rfl
  have hv : ∀ v ∈ [0, 0], v < crooked.numVars := by decide
  obtain ⟨u, hu, -, hdecided, hkept, hright⟩ := applyFlips_exact (s := crookedState) hb rfl hn hv
  obtain ⟨b₀, hb₀, hu₀⟩ := hdecided 0 _ rfl (by decide)
  obtain ⟨b₃, hb₃, hu₃⟩ := hdecided 3 _ rfl (by decide)
  have hu₁ := hkept 1 _ rfl (by decide)
  have hu₂ := hkept 2 _ rfl (by decide)
  cases hb₀
  cases hb₃
  refine ⟨hb, rfl, hn, hv, u, hu, hu₀, hu₃, hu₁, hu₂, fun hall => ?_⟩
  have helsewhere := hright.1 hall 2 _ rfl (by decide)
  exact absurd (helsewhere.2 ⟨_, rfl, rfl⟩) (by decide)

end SearchState

end SatSearch
