import SatSearch.Proofs.Search.FiniteSets
import SatSearch.Proofs.Search.Records
import SatSearch.Proofs.Search.Tracking
/-!
# Refreshing a clause again

The occurrences list a clause once for every literal, and several flipped variables may share a clause, so
a step refreshes some clauses more than once. A refresh settles its clause: another one leaves the set as it is,
down to the order of the members (`settled_of_refresh`). And what is settled stays so while other clauses
come and go (`Settled.refresh`), although its place may change with them. So it is enough to refresh
each clause where it is listed first (`refreshAll_eraseDups`).

The order matters because a draw picks a member by its place. As it is the same, a search that goes by
occurrences without repetitions is the same search (`solve_once`). Main statement: `repeats_exact`.
-/

namespace SatSearch

variable {f : Formula} {a : Assignment} {n i j : Nat}

namespace UnsatSet

variable {s t : UnsatSet}

/-! ## One refresh -/

theorem Indexed.entryAt_of_le (h : s.Indexed n) (hi : n ≤ i) :
    entryAt s.positions i = .error (.outOfRange n i) := by
  rw [entryAt_eq_error_iff, h.size_positions]
  exact ⟨hi, rfl⟩

theorem Indexed.insert_of_le (h : s.Indexed n) (hi : n ≤ i) : s.insert i = .error (.outOfRange n i) := by
  simp [insert, h.entryAt_of_le hi]

theorem Indexed.remove_of_le (h : s.Indexed n) (hi : n ≤ i) : s.remove i = .error (.outOfRange n i) := by
  simp [remove, h.entryAt_of_le hi]

theorem Indexed.lt_of_refresh (h : s.Indexed n) (ht : s.refresh f a i = .ok t) : i < n := by
  refine Nat.lt_of_not_le fun hi => ?_
  rw [refresh_eq] at ht
  split at ht
  · rw [h.remove_of_le hi] at ht
    cases ht
  · rw [h.insert_of_le hi] at ht
    cases ht
  · cases ht

/-- All that a refresh does. -/
theorem Indexed.refresh_eq_ok (h : s.Indexed n) (ht : s.refresh f a i = .ok t) :
    i < n ∧ t.Indexed n ∧ ∃ satisfied, f.verdict a i = .ok satisfied ∧
      ∀ j, j ∈ t.toList ↔ (j = i ∧ satisfied = false) ∨ (j ≠ i ∧ j ∈ s.toList) := by
  have hi := h.lt_of_refresh ht
  cases hv : f.verdict a i with
  | error e =>
    rw [refresh_eq, hv] at ht
    cases ht
  | ok satisfied =>
    obtain ⟨t', ht', hn, hmem⟩ := refresh_of_verdict h hi hv
    rw [ht] at ht'
    cases ht'
    exact ⟨hi, hn, satisfied, rfl, hmem⟩

/-- Refreshing clause `i` leaves the set as it is, with each member at its place. -/
def Settled (s : UnsatSet) (f : Formula) (a : Assignment) (i : Nat) : Prop := s.refresh f a i = .ok s

/-- A clause is settled exactly if its membership is right. -/
theorem Indexed.settled_iff (h : s.Indexed n) : s.Settled f a i ↔
    i < n ∧ ∃ satisfied, f.verdict a i = .ok satisfied ∧ (i ∈ s.toList ↔ satisfied = false) := by
  constructor
  · intro hsame
    obtain ⟨hi, -, satisfied, hv, hmem⟩ := h.refresh_eq_ok hsame
    exact ⟨hi, satisfied, hv, by simpa using hmem i⟩
  · rintro ⟨hi, satisfied, hv, hmem⟩
    unfold Settled
    rw [refresh_eq, hv]
    cases satisfied with
    | true =>
      have hm : i ∉ s.toList := by simpa using hmem
      rw [h.remove_of_not_mem hi hm]
      rfl
    | false =>
      rw [h.insert_of_mem (hmem.2 rfl)]
      rfl

theorem settled_of_refresh (h : s.Indexed n) (ht : s.refresh f a i = .ok t) : t.Settled f a i := by
  obtain ⟨hi, hn, satisfied, hv, hmem⟩ := h.refresh_eq_ok ht
  exact hn.settled_iff.2 ⟨hi, satisfied, hv, by simp [hmem]⟩

/-- The step lemma: the refresh of any clause keeps what is settled. -/
theorem Settled.refresh (hs : s.Settled f a i) (h : s.Indexed n) (ht : s.refresh f a j = .ok t) :
    t.Settled f a i := by
  by_cases hij : i = j
  · subst hij
    exact settled_of_refresh h ht
  · obtain ⟨hi, satisfied, hv, hmem⟩ := h.settled_iff.1 hs
    obtain ⟨-, hn, _, -, hmem'⟩ := h.refresh_eq_ok ht
    refine hn.settled_iff.2 ⟨hi, satisfied, hv, ?_⟩
    rw [hmem', ← hmem]
    simp [hij]

/-! ## Many refreshes -/

theorem indexed_of_refreshAll : ∀ {is : List Nat} {s : UnsatSet}, s.Indexed n →
    refreshAll f a s is = .ok t → t.Indexed n
  | [], _, h, ht => by
    cases ht
    exact h
  | i :: is, s, h, ht => by
    unfold refreshAll at ht
    split at ht
    · next u hu => exact indexed_of_refreshAll (h.refresh_eq_ok hu).2.1 ht
    · cases ht

/-- Refreshing comes to its end exactly if there is room for each clause and an answer about it. -/
theorem Indexed.exists_refreshAll_iff : ∀ {is : List Nat} {s : UnsatSet}, s.Indexed n →
    ((∃ t, refreshAll f a s is = .ok t) ↔ ∀ i ∈ is, i < n ∧ ∃ satisfied, f.verdict a i = .ok satisfied)
  | [], s, _ => by simp [refreshAll]
  | i :: is, s, h => by
    rw [List.forall_mem_cons]
    constructor
    · rintro ⟨t, ht⟩
      unfold refreshAll at ht
      split at ht
      · next u hu =>
        obtain ⟨hi, hn, satisfied, hv, -⟩ := h.refresh_eq_ok hu
        exact ⟨⟨hi, satisfied, hv⟩, hn.exists_refreshAll_iff.1 ⟨t, ht⟩⟩
      · cases ht
    · rintro ⟨⟨hi, satisfied, hv⟩, his⟩
      obtain ⟨u, hu, hn, -⟩ := refresh_of_verdict h hi hv
      rw [refreshAll, hu]
      exact hn.exists_refreshAll_iff.2 his

/-- The run lemma: a settled clause need not be looked at. -/
theorem Settled.refreshAll_filter : ∀ {is : List Nat} {s : UnsatSet}, s.Settled f a i → s.Indexed n →
    refreshAll f a s (is.filter fun j => !j == i) = refreshAll f a s is
  | [], _, _, _ => rfl
  | j :: is, s, hs, h => by
    by_cases hj : j = i
    · have hsame : s.refresh f a i = .ok s := hs
      rw [List.filter_cons_of_neg (by simp [hj]), refreshAll, hj, hsame]
      exact Settled.refreshAll_filter hs h
    · rw [List.filter_cons_of_pos (by simp [hj]), refreshAll, refreshAll]
      cases ht : s.refresh f a j with
      | error e => rfl
      | ok t => exact Settled.refreshAll_filter (hs.refresh h ht) (h.refresh_eq_ok ht).2.1

/-- **Only the first refresh of a clause does anything.** Where it fails, there is no second one. -/
theorem refreshAll_eraseDups : ∀ (is : List Nat) {s : UnsatSet}, s.Indexed n →
    refreshAll f a s is.eraseDups = refreshAll f a s is
  | [], _, _ => by simp
  | i :: is, s, h => by
    have hlength : (is.filter fun j => !j == i).length < (i :: is).length :=
      Nat.lt_succ_of_le (List.length_filter_le _ is)
    rw [List.eraseDups_cons, refreshAll, refreshAll]
    cases ht : s.refresh f a i with
    | error e => rfl
    | ok t =>
      -- clause `i` is settled now, so what is left without its later places, a shorter list, does the same
      have hn := (h.refresh_eq_ok ht).2.1
      dsimp only
      rw [refreshAll_eraseDups (is.filter fun j => !j == i) hn, (settled_of_refresh h ht).refreshAll_filter hn]
termination_by is => is.length
decreasing_by exact hlength

theorem indexed_of_ofAssignment (h : ofAssignment f a = .ok s) : s.Indexed f.numClauses := by
  cases hfound : f.unsatisfiedClauses a with
  | error e =>
    rw [ofAssignment_of_error hfound] at h
    cases h
  | ok found =>
    obtain ⟨-, s', hs', hn, -⟩ := ofAssignment_of_ok hfound
    rw [h] at hs'
    cases hs'
    exact hn

end UnsatSet

/-! ## The clauses of several variables -/

/-- The same lists, with each clause in its first place only. -/
def Occurrences.once (o : Occurrences) : Occurrences := ⟨o.lists.map fun is => is.toList.eraseDups.toArray⟩

theorem Occurrences.clausesOf_once (o : Occurrences) (v : Nat) :
    o.once.clausesOf v = (fun is => is.toList.eraseDups.toArray) <$> o.clausesOf v := by
  unfold clausesOf entryAt once
  rw [Array.getElem?_map, Array.size_map]
  cases o.lists[v]? <;> rfl

namespace SearchState

variable {o : Occurrences} {u t : UnsatSet}

theorem indexed_of_refreshVars : ∀ {vars : List Nat} {u : UnsatSet}, u.Indexed n →
    refreshVars f o a u vars = .ok t → t.Indexed n
  | [], _, h, ht => by
    cases ht
    exact h
  | v :: vars, u, h, ht => by
    unfold refreshVars at ht
    split at ht
    · cases ht
    · next is _ =>
      split at ht
      · cases ht
      · next w hw => exact indexed_of_refreshVars (UnsatSet.indexed_of_refreshAll h hw) ht

theorem refreshVars_once : ∀ {vars : List Nat} {u : UnsatSet}, u.Indexed n →
    refreshVars f o.once a u vars = refreshVars f o a u vars
  | [], _, _ => rfl
  | v :: vars, u, h => by
    rw [refreshVars, refreshVars, Occurrences.clausesOf_once]
    cases o.clausesOf v with
    | error e => rfl
    | ok is =>
      have hsame : u.refreshAll f a is.toList.eraseDups.toArray.toList = u.refreshAll f a is.toList :=
        UnsatSet.refreshAll_eraseDups is.toList h
      simp only [Functor.map, Except.map]
      rw [hsame]
      cases hw : u.refreshAll f a is.toList with
      | error e => rfl
      | ok w => exact refreshVars_once (UnsatSet.indexed_of_refreshAll h hw)

theorem applyFlips_once {s : SearchState} (h : s.unsatisfied.Indexed n) (vars : List Nat) :
    s.applyFlips f o.once vars = s.applyFlips f o vars := by
  rw [applyFlips, applyFlips, refreshVars_once h]

end SearchState

/-! ## Whole searches -/

namespace Solver

open Draw (Meets)

variable {S : Solver} {s : SearchState}

/-- The same search by occurrences that list each clause of a variable once. -/
def once (S : Solver) : Solver := { S with occurrences := S.occurrences.once }

theorem start_once (S : Solver) : S.once.start = S.start := by
  have hvars : S.once.occurrences.numVars = S.occurrences.numVars := Array.size_map
  unfold start
  rw [hvars]
  rfl

theorem mutate_once (h : s.unsatisfied.Indexed n) : S.once.mutate s = S.mutate s := by
  unfold mutate
  refine bind_congr fun valence => ?_
  refine bind_congr fun kind => ?_
  refine bind_congr fun q => ?_
  obtain ⟨b, flipped⟩ := q
  have happly : SearchState.applyFlips { s.recordValence valence with assignment := b } S.once.formula
      S.once.occurrences flipped =
      SearchState.applyFlips { s.recordValence valence with assignment := b } S.formula S.occurrences flipped :=
    SearchState.applyFlips_once (s := { s.recordValence valence with assignment := b }) h flipped
  dsimp only
  rw [happly]
  rfl

theorem step_once (h : s.unsatisfied.Indexed n) : S.once.step s = S.step s := by
  unfold step
  rw [mutate_once h]

theorem meets_start_indexed (S : Solver) :
    S.start.Meets (·.unsatisfied.Indexed S.formula.numClauses) fun _ => True where
  value h := by
    obtain ⟨b, valence, u, -, -, hu, rfl⟩ := start_eq_ok h
    exact UnsatSet.indexed_of_ofAssignment hu
  fault _ := trivial

theorem meets_step_indexed (h : s.unsatisfied.Indexed n) :
    (S.step s).Meets (·.2.unsatisfied.Indexed n) fun _ => True where
  value {g q g'} hstep := by
    cases he : s.unsatisfied.isEmpty with
    | true =>
      rw [step_of_isEmpty he] at hstep
      cases hstep
      exact h
    | false =>
      rw [step_of_not_isEmpty he] at hstep
      obtain ⟨_, _, _, _, u, _, _, -, -, -, hu, hq⟩ := mutate_eq_ok hstep
      cases hq
      exact SearchState.indexed_of_refreshVars h hu
  fault _ := trivial

theorem run_once : ∀ (remaining done : Nat) {s : SearchState} (r : Reporter), s.unsatisfied.Indexed n →
    S.once.run remaining done s r = S.run remaining done s r
  | 0, _, _, _, _ => rfl
  | remaining + 1, done, s, r, h => by
    rw [run, run, step_once h]
    refine (meets_step_indexed h).bind_congr fun q hq => ?_
    obtain ⟨out, t⟩ := q
    cases out with
    | satisfied => rfl
    | mutated kind flipped => exact run_once remaining (done + 1) _ hq

/-- **Repetitions in the occurrences change no search**, and none of its draws. -/
theorem solve_once (S : Solver) (r : Reporter) : S.once.solve r = S.solve r := by
  unfold solve
  rw [start_once]
  exact (meets_start_indexed S).bind_congr fun s hs => run_once S.config.maxIterations 0 _ hs

end Solver

namespace UnsatSet

variable {s : UnsatSet}

/-- **A clause may be refreshed any number of times.** Let the table of the set fit its members. Refreshing along a
list of clauses ends as refreshing each of them where it is listed first, without the later places: in the same
set, with the same order of the members and the same table, or in the same fault. It ends in a set exactly if the
set has room for each clause and evaluation has an answer for it. So the clauses of flipped variables may be taken
each once, in the order in which they come up, and a search by occurrences that list no clause twice makes the
same draws, takes the same steps and has the same result. -/
theorem repeats_exact (h : s.Indexed n) (f : Formula) (a : Assignment) (is : List Nat) :
    refreshAll f a s is.eraseDups = refreshAll f a s is ∧
    ((∃ t, refreshAll f a s is = .ok t) ↔
      ∀ i ∈ is, i < n ∧ ∃ satisfied c, f.clauses[i]? = some c ∧ c.isSatisfiedBy a = .ok satisfied) ∧
    (∀ o vars, Occurrences.build f = .ok o → (∀ v ∈ vars, v < f.numVars) →
      SearchState.refreshVars f o a s vars = refreshAll f a s (vars.flatMap f.occurrencesOf).eraseDups) ∧
    ∀ (S : Solver) (r : Reporter), S.once.solve r = S.solve r := by
  refine ⟨refreshAll_eraseDups is h, ?_, fun o vars hb hvars => ?_, Solver.solve_once⟩
  · simp only [h.exists_refreshAll_iff, Formula.verdict_eq_ok_iff]
  · rw [refreshAll_eraseDups _ h, SearchState.refreshVars_eq_refreshAll hb hvars]

/-- Clauses 1 and 2 are false, and clauses 0, 3 and 4 are true. -/
def halfTrue : Formula :=
  .ofClauses #[⟨[⟨0, true⟩]⟩, ⟨[⟨0, false⟩]⟩, ⟨[⟨1, true⟩]⟩, ⟨[⟨0, true⟩, ⟨0, true⟩]⟩, ⟨[⟨1, false⟩, ⟨0, false⟩]⟩]

/-- Two true clauses to be taken out, with a third one behind them, and a false one that is missing. -/
def scattered : UnsatSet := ⟨#[0, 3, 4, 2], #[some 0, none, some 3, some 1, some 2]⟩

theorem repeats_exact_scattered : scattered.Indexed 5 ∧
    (∃ t, refreshAll halfTrue ⟨#[true, false]⟩ scattered [0, 1, 0, 3, 1, 4, 3, 0] = .ok t ∧ t.members = #[2, 1] ∧
      refreshAll halfTrue ⟨#[true, false]⟩ scattered [0, 1, 3, 4] = .ok t) ∧
    Occurrences.build halfTrue = .ok ⟨#[#[0, 1, 3, 3, 4], #[2, 4]]⟩ ∧ (∀ v ∈ [1, 0], v < halfTrue.numVars) ∧
    SearchState.refreshVars halfTrue ⟨#[#[0, 1, 3, 3, 4], #[2, 4]]⟩ ⟨#[true, false]⟩ scattered [1, 0] =
      refreshAll halfTrue ⟨#[true, false]⟩ scattered [2, 4, 0, 1, 3] ∧
    Solver.mixed.once.occurrences.lists = #[#[0, 3], #[1], #[3]] ∧
    Solver.mixed.once.solve .silent = Solver.mixed.solve .silent := by
  have hn : scattered.Indexed 5 := indexed_of_insertAll [0, 3, 4, 2] (by decide) rfl
  have hrun : refreshAll halfTrue ⟨#[true, false]⟩ scattered [0, 1, 0, 3, 1, 4, 3, 0] =
      .ok ⟨#[2, 1], #[none, some 1, some 0, none, none]⟩ := by decide
  have hb : Occurrences.build halfTrue = .ok ⟨#[#[0, 1, 3, 3, 4], #[2, 4]]⟩ := rfl
  have hvars : ∀ v ∈ [1, 0], v < halfTrue.numVars := by decide
  have hfirst : ([1, 0].flatMap halfTrue.occurrencesOf).eraseDups = [2, 4, 0, 1, 3] := by decide
  obtain ⟨hsame, -, hflips, hsolve⟩ := repeats_exact hn halfTrue ⟨#[true, false]⟩ [0, 1, 0, 3, 1, 4, 3, 0]
  refine ⟨hn, ⟨_, hrun, rfl, hsame.trans hrun⟩, hb, hvars, ?_, by decide +kernel, hsolve Solver.mixed _⟩
  rw [hflips _ _ hb hvars, hfirst]

end UnsatSet

end SatSearch
