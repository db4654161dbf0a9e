import SatSearch.Proofs.Cnf.Flips
import SatSearch.Proofs.Random.Samples
import SatSearch.Proofs.Search.Membership
import SatSearch.Search.Drift
/-!
# What the search relies on in a drift

The search looks again only at the clauses of reported variables, so it can use a drift that reports
every variable that it changes (`Drift.Reports`); reporting more does no harm. Both drifts of the
library are of this kind, and on the unsatisfied clauses of the assignment they fail only where a
random draw does (`Drift.Answers`).
-/

namespace SatSearch

open Draw (Meets Endless)

/-- The drawn assignment has the size of `a`, and the drawn list has variables of the formula only,
among them all whose value is another one. -/
structure IsReport (f : Formula) (a : Assignment) (drawn : Assignment × List Nat) : Prop where
  size_eq : drawn.1.size = a.size
  lt : ∀ v ∈ drawn.2, v < f.numVars
  changed : ∀ v ∈ a.differing drawn.1, v ∈ drawn.2

namespace Drift

/-- On assignments of the formula's size the drift keeps the size and reports what it changes. -/
def Reports (d : Drift) (f : Formula) : Prop :=
  ∀ a valence s, a.size = f.numVars → (d a f valence s).Meets (IsReport f a) fun _ => True

/-- On assignments of the formula's size with their unsatisfied clauses the drift fails only by a draw
without an accepted word. -/
def Answers (d : Drift) (f : Formula) : Prop :=
  ∀ a valence s, a.size = f.numVars → s.Indexed f.numClauses → (∀ i, i ∈ s.toList ↔ f.Fails a i) →
    (d a f valence s).Meets (fun _ => True) Endless

end Drift

variable {f : Formula} {a : Assignment}

theorem IsReport.same (f : Formula) (a : Assignment) : IsReport f a (a, []) where
  size_eq := rfl
  lt _ hv := absurd hv List.not_mem_nil
  changed _ hv := absurd rfl (Assignment.mem_differing.1 hv).2.2

theorem IsReport.flipAll (hs : a.size = f.numVars) {vs : List Nat} (h : ∀ v ∈ vs, v < a.size) :
    ∃ b, a.flipAll vs = .ok b ∧ IsReport f a (b, vs) := by
  obtain ⟨b, hb, hsize, hval⟩ := Assignment.flipAll_spec h
  refine ⟨b, hb, hsize, fun v hv => ?_, fun v hv => Assignment.mem_of_mem_differing_flipAll hsize hval hv⟩
  rw [← hs]
  exact h v hv

namespace Drift

theorem flipCount_le (numVars : Nat) (valence : Float) : flipCount numVars valence ≤ numVars :=
  Nat.min_le_right _ _

theorem meets_semantic (hs : a.size = f.numVars) (valence : Float) (s : UnsatSet) :
    (semantic a f valence s).Meets (IsReport f a) Endless := by
  unfold semantic
  split
  · exact .pure (.same f a)
  · refine (Draw.meets_sample (flipCount_le a.size valence)).bind fun vs hvs => ?_
    obtain ⟨b, hb, hr⟩ := IsReport.flipAll hs hvs.lt
    rw [hb]
    exact .pure hr

/-- Only a member that is no clause of the formula adds to the faults of the draws. -/
theorem meets_toUnsatisfied (hs : a.size = f.numVars) (valence : Float) (s : UnsatSet)
    {Q : Fault → Prop} (hQ : ∀ e, Endless e → Q e)
    (hclause : ∀ i ∈ s.toList, ∀ e, f.clause i = .error e → Q e) :
    (toUnsatisfied a f valence s).Meets (IsReport f a) Q := by
  unfold toUnsatisfied
  refine ((s.meets_choose).mono (fun _ h => h) hQ).bind fun drawn hdrawn => ?_
  cases drawn with
  | none => exact .pure (.same f a)
  | some i =>
    refine (Meets.lift (P := (· ∈ f.clauses)) (fun c hc => ?_) (hclause i (hdrawn.2 i rfl))).bind
      fun c hc => ?_
    · exact Array.mem_of_getElem? (entryAt_eq_ok_iff.1 hc)
    · refine ((Draw.meets_choose c.literals).mono (fun _ h => h) hQ).bind fun literal hl => ?_
      cases literal with
      | none => exact .pure (.same f a)
      | some l =>
        have hlt : ∀ v ∈ [l.var], v < a.size := by
          intro v hv
          rw [List.mem_singleton.1 hv, hs]
          exact Formula.var_lt hc (hl.2 l rfl)
        obtain ⟨b, hb, hr⟩ := IsReport.flipAll hs hlt
        rw [Assignment.flipAll_singleton] at hb
        dsimp only
        rw [hb]
        exact .pure hr

theorem reports_semantic (f : Formula) : semantic.Reports f := fun _ valence s hs =>
  (meets_semantic hs valence s).mono (fun _ h => h) fun _ _ => trivial

theorem answers_semantic (f : Formula) : semantic.Answers f := fun _ valence s hs _ _ =>
  (meets_semantic hs valence s).mono (fun _ _ => trivial) fun _ h => h

theorem reports_toUnsatisfied (f : Formula) : toUnsatisfied.Reports f := fun _ valence s hs =>
  meets_toUnsatisfied hs valence s (fun _ _ => trivial) fun _ _ _ _ => trivial

theorem answers_toUnsatisfied (f : Formula) : toUnsatisfied.Answers f := fun a valence s hs hn _ => by
  exact (meets_toUnsatisfied hs valence s (fun _ h => h) fun i hi e he => absurd he (hn.clause_ne_error hi e)).mono
    (fun _ _ => trivial) fun _ h => h

end Drift

end SatSearch
