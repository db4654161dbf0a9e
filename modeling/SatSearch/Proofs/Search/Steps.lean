import SatSearch.Proofs.Search.Runs
import SatSearch.Proofs.Search.Tracking
/-!
# The unsatisfied clauses during a search

A step keeps the unsatisfied clauses tracked (`meets_step`), so they are tracked after any number of
steps. Main statement: the set has exactly the clauses that the assignment does not satisfy, each
listed once and found at the place that the table says (`after_unsatisfied_exact`).
-/

namespace SatSearch

open Draw (Meets Endless)

/-- The objective has a value for every assignment of the formula's size. -/
def Objective.Answers (o : Objective) (f : Formula) : Prop :=
  ∀ a : Assignment, a.size = f.numVars → ∃ x, o f a = .ok x

theorem Objective.answers_valence (f : Formula) : Objective.valence.Answers f := fun a ha => by
  obtain ⟨t, -, hn, hmem⟩ := UnsatSet.ofAssignment_spec (f := f) (a := a) (Nat.le_of_eq ha.symm)
  obtain ⟨n, hcount, -⟩ := Formula.Covers.countSatisfied (Nat.le_of_eq ha.symm) hn.nodup hmem
  unfold Objective.valence
  split
  · exact ⟨_, rfl⟩
  · rw [hcount]
    exact ⟨_, rfl⟩

namespace Solver

variable {S : Solver} {s s' : SearchState} {g g' : Generator} {Q : Fault → Prop}

/-- The faults of a search are the faults of its objective and its drift on what a search gives them,
and draws without an accepted word. -/
structure FaultsIn (S : Solver) (Q : Fault → Prop) : Prop where
  endless : ∀ e, Endless e → Q e
  objective : ∀ a : Assignment, a.size = S.formula.numVars → ∀ e, S.objective S.formula a = .error e → Q e
  drift : ∀ a valence s, a.size = S.formula.numVars → s.Indexed S.formula.numClauses →
    (∀ i, i ∈ s.toList ↔ S.formula.Fails a i) →
    (S.drift a S.formula valence s).Meets (fun _ => True) Q

theorem faultsIn_all (S : Solver) : S.FaultsIn fun _ => True :=
  ⟨fun _ _ => trivial, fun _ _ _ _ => trivial, fun _ _ _ _ _ _ => ⟨fun _ => trivial, fun _ => trivial⟩⟩

theorem faultsIn_endless (ho : S.objective.Answers S.formula) (hd : S.drift.Answers S.formula) :
    S.FaultsIn Endless where
  endless _ h := h
  objective a ha e he := by
    obtain ⟨x, hx⟩ := ho a ha
    rw [hx] at he
    cases he
  drift := hd

theorem meets_driftOf (hd : S.drift.Reports S.formula) (hQ : S.FaultsIn Q) (kind : Move)
    (valence : Float) (hs : s.Tracks S.formula) :
    (S.driftOf kind s.assignment S.formula valence s.unsatisfied).Meets
      (IsReport S.formula s.assignment) Q := by
  cases kind with
  | toward =>
    exact Drift.meets_toUnsatisfied hs.size_eq valence _ hQ.endless fun i hi e he =>
      absurd he (hs.indexed.clause_ne_error hi e)
  | anywhere =>
    have hr := hd s.assignment valence s.unsatisfied hs.size_eq
    have hf := hQ.drift s.assignment valence s.unsatisfied hs.size_eq hs.indexed hs.mem_iff
    exact ⟨fun h => hr.value h, fun h => hf.fault h⟩

section
variable (hb : Occurrences.build S.formula = .ok S.occurrences) (hd : S.drift.Reports S.formula)
  (hQ : S.FaultsIn Q)
include hb hQ

theorem meets_start : S.start.Meets (·.Tracks S.formula) Q := by
  have hvars : S.occurrences.numVars = S.formula.numVars := Occurrences.numVars_build hb
  have hfit : S.occurrences.numVars ≤ maxTableBytes := by
    rw [hvars]
    exact Nat.le_trans (Occurrences.build_eq_ok hb).2.1 (by decide)
  unfold start
  refine (Assignment.meets_random hfit).bind fun a ha => ?_
  have hsize : a.size = S.formula.numVars := ha.trans hvars
  refine (Meets.lift (P := fun _ => True) (fun _ _ => trivial) (hQ.objective a hsize)).bind
    fun valence _ => ?_
  obtain ⟨s, hs, -, ht⟩ := SearchState.init_spec hsize valence S.config.recordTrace
  rw [hs]
  exact .pure ht

include hd

theorem meets_mutate (hs : s.Tracks S.formula) : (S.mutate s).Meets (·.2.Tracks S.formula) Q := by
  unfold mutate
  refine (Meets.lift (P := fun _ => True) (fun _ _ => trivial)
    (hQ.objective s.assignment hs.size_eq)).bind fun valence _ => ?_
  have hrecorded : (s.recordValence valence).Tracks S.formula := ⟨hs.size_eq, hs.indexed, hs.mem_iff⟩
  have hmove : S.drawMove.Meets (fun _ => True) Q :=
    (Meets.ofGenerator (P := fun _ => True) fun _ => trivial).bind fun _ _ => .pure trivial
  refine hmove.bind fun kind _ => ?_
  refine (meets_driftOf hd hQ kind valence hrecorded).bind fun (a, vars) hr => ?_
  obtain ⟨t, ht, htracks⟩ := hrecorded.applyFlips hb hr
  dsimp only
  rw [ht]
  exact .pure ⟨htracks.size_eq, htracks.indexed, htracks.mem_iff⟩

/-- A step keeps the invariant. -/
theorem meets_step (hs : s.Tracks S.formula) : (S.step s).Meets (·.2.Tracks S.formula) Q := by
  unfold step
  split
  · exact .pure hs
  · exact meets_mutate hb hd hQ hs

/-- So it holds after any number of steps. -/
theorem meets_after : ∀ k, (S.after k).Meets (·.Tracks S.formula) Q
  | 0 => meets_start hb hQ
  | k + 1 => (meets_after k).bind fun _ hs => (meets_step hb hd hQ hs).bind fun _ hs' => .pure hs'

end

theorem tracks_after (hb : Occurrences.build S.formula = .ok S.occurrences)
    (hd : S.drift.Reports S.formula) {k : Nat} (h : S.after k g = .ok (s, g')) : s.Tracks S.formula :=
  (meets_after hb hd S.faultsIn_all k).value h

/-- The faults of a search that neither its objective nor its drift adds to. -/
theorem after_eq_error (hb : Occurrences.build S.formula = .ok S.occurrences)
    (hd : S.drift.Reports S.formula) (ho : S.objective.Answers S.formula)
    (ha : S.drift.Answers S.formula) {k : Nat} {e : Fault} (h : S.after k g = .error e) :
    e = .endlessDraw :=
  (meets_after hb hd (faultsIn_endless ho ha) k).fault h

/-! ## The bookkeeping is exact -/

/-- **The unsatisfied clauses are known exactly after any number of steps.** The members of the set are
the clauses that the assignment does not satisfy, none is listed twice, the table holds the
place of every member and nothing for the other clauses, and so the set counts what `countSatisfied`
leaves. Keeping the set never fails: a search whose objective and drift answer ends only in a draw
without an accepted word. Both drifts of the library are of the kind that is asked for. -/
theorem after_unsatisfied_exact (S : Solver) (hb : Occurrences.build S.formula = .ok S.occurrences)
    (hd : S.drift.Reports S.formula) (k : Nat) (g : Generator) :
    (∀ s g', S.after k g = .ok (s, g') →
      (∀ i, i ∈ s.unsatisfied.toList ↔ S.formula.Fails s.assignment i) ∧
      s.unsatisfied.toList.Nodup ∧
      s.unsatisfied.positions.size = S.formula.numClauses ∧
      (∀ i p : Nat, s.unsatisfied.members[p]? = some i ↔ s.unsatisfied.positions[i]? = some (some p)) ∧
      (∀ i < S.formula.numClauses, i ∉ s.unsatisfied.toList → s.unsatisfied.positions[i]? = some none) ∧
      ∃ n, S.formula.countSatisfied s.assignment = .ok n ∧
        s.unsatisfied.size + n = S.formula.numClauses) ∧
    (S.objective.Answers S.formula → S.drift.Answers S.formula →
      ∀ e, S.after k g = .error e → e = .endlessDraw) ∧
    ∀ d ∈ [Drift.semantic, Drift.toUnsatisfied], d.Reports S.formula ∧ d.Answers S.formula := by
  refine ⟨fun s g' h => ?_, fun ho ha e h => after_eq_error hb hd ho ha h, fun d hmem => ?_⟩
  · have ht : s.Tracks S.formula := tracks_after hb hd h
    have hn := ht.indexed
    refine ⟨ht.mem_iff, hn.nodup, hn.size_positions, fun i p => (hn.place_iff i p).symm,
      fun i hi hm => hn.absent hi hm, ?_⟩
    obtain ⟨n, hcount, hsum⟩ := ht.covers.countSatisfied hn.nodup ht.mem_iff
    refine ⟨n, hcount, ?_⟩
    rwa [UnsatSet.toList, Array.length_toList] at hsum
  · rcases List.mem_cons.1 hmem with rfl | hmem
    · exact ⟨Drift.reports_semantic _, Drift.answers_semantic _⟩
    · rw [List.mem_singleton.1 hmem]
      exact ⟨Drift.reports_toUnsatisfied _, Drift.answers_toUnsatisfied _⟩

theorem after_unsatisfied_exact_mixed :
    Occurrences.build mixed.formula = .ok mixed.occurrences ∧
      mixed.drift.Reports mixed.formula ∧
      ∃ s g', mixed.after 3 (.ofSeed 2) = .ok (s, g') ∧ s.unsatisfied.members = #[2] ∧
        ∀ i, i ∈ s.unsatisfied.toList ↔ mixed.formula.Fails s.assignment i := by
  have hb : Occurrences.build mixed.formula = .ok mixed.occurrences := rfl
  have hd : mixed.drift.Reports mixed.formula := Drift.reports_semantic _
  obtain ⟨s, ⟨g', h⟩, hmembers⟩ := visits_of_eval (F := (·.unsatisfied.members)) (x := #[2])
    (S := mixed) (k := 3) (g := .ofSeed 2) (by decide +kernel)
  have hexact := (after_unsatisfied_exact mixed hb hd 3 (.ofSeed 2)).1 s g' h
  exact ⟨hb, hd, s, g', h, hmembers, hexact.1⟩

end Solver

end SatSearch
