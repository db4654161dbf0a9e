import SatSearch.Proofs.Random.Draws
import SatSearch.Search.Solver
/-!
# Runs of a search

`S.after k` is the state that `k` steps from the start lead to. A search visits these states one
after another: it stops at the first one without unsatisfied clauses, or at the one after the last
step of its budget, and it fails where a step fails (`solve_ends`).
-/

namespace SatSearch

namespace Solver

open Draw (bind_of_ok bind_of_error bind_eq_ok lift_eq_ok)

variable {S : Solver} {s s' : SearchState} {g g' : Generator} {i j k : Nat}

/-! ## One step -/

/-- All that a move does. -/
theorem mutate_eq_ok {r : (StepOutcome × SearchState) × Generator} (h : S.mutate s g = .ok r) :
    ∃ valence kind a flipped u g₁ g₂, S.objective S.formula s.assignment = .ok valence ∧
      S.drawMove g = .ok (kind, g₁) ∧
      S.driftOf kind s.assignment S.formula valence s.unsatisfied g₁ = .ok ((a, flipped), g₂) ∧
      SearchState.refreshVars S.formula S.occurrences a s.unsatisfied flipped = .ok u ∧
      r = ((.mutated kind flipped,
        { s.recordValence valence with
          assignment := a
          unsatisfied := u
          memory := S.hook s.memory a valence
          iteration := s.iteration + 1 }), g₂) := by
  obtain ⟨valence, g₀, hscore, h⟩ := bind_eq_ok h
  obtain ⟨hvalence, hg₀⟩ := lift_eq_ok hscore
  obtain ⟨kind, g₁, hkind, h⟩ := bind_eq_ok h
  obtain ⟨⟨a, flipped⟩, g₂, hdrift, h⟩ := bind_eq_ok h
  obtain ⟨t, g₃, happly, h⟩ := bind_eq_ok h
  obtain ⟨ht, hg₃⟩ := lift_eq_ok happly
  dsimp only at hg₀ hg₃ ht hvalence
  subst hg₀ hg₃
  unfold SearchState.applyFlips at ht
  split at ht
  · next u hu =>
    cases ht
    cases h
    exact ⟨valence, kind, a, flipped, u, g₁, g₃, hvalence, hkind, hdrift, hu, rfl⟩
  · cases ht

theorem step_of_isEmpty (h : s.unsatisfied.isEmpty = true) (g : Generator) :
    S.step s g = .ok ((.satisfied, s), g) := by
  unfold step
  rw [if_pos h]
  rfl

theorem step_of_not_isEmpty (h : s.unsatisfied.isEmpty = false) : S.step s = S.mutate s := by
  unfold step
  rw [if_neg (by simp [h])]

/-! ## Any number of steps -/

/-- The state after `k` steps from the start. -/
def after (S : Solver) : Nat → Draw SearchState
  | 0 => S.start
  | k + 1 => do
    let s ← S.after k
    let (_, s) ← S.step s
    pure s

/-- `s` is the state after `k` steps from the start with generator `g`. -/
def Visits (S : Solver) (g : Generator) (k : Nat) (s : SearchState) : Prop :=
  ∃ g', S.after k g = .ok (s, g')

/-- Each of the first `k` steps is a move: it finds unsatisfied clauses. -/
def Moves (S : Solver) (g : Generator) (k : Nat) : Prop :=
  ∀ i < k, ∃ s, S.Visits g i s ∧ s.unsatisfied.isEmpty = false

theorem Visits.unique {t : SearchState} (h : S.Visits g k s) (h' : S.Visits g k t) : s = t := by
  obtain ⟨g₁, h⟩ := h
  obtain ⟨g₂, h'⟩ := h'
  rw [h] at h'
  cases h'
  rfl

theorem visits_of_eval {α : Type} {F : SearchState → α} {x : α}
    (h : (S.after k g).toOption.map (fun r => F r.1) = some x) : ∃ s, S.Visits g k s ∧ F s = x := by
  obtain ⟨⟨s, g'⟩, hs, hx⟩ := exists_eq_ok_of_map h
  exact ⟨s, ⟨g', hs⟩, hx⟩

theorem after_succ_eq_ok (h : S.after (k + 1) g = .ok (s', g')) :
    ∃ s g₁ out, S.after k g = .ok (s, g₁) ∧ S.step s g₁ = .ok ((out, s'), g') := by
  obtain ⟨s, g₁, hs, h⟩ := bind_eq_ok h
  obtain ⟨⟨out, t⟩, g₂, hstep, h⟩ := bind_eq_ok h
  cases h
  exact ⟨s, g₁, out, hs, hstep⟩

theorem after_succ_of_step {out : StepOutcome} {g₁ : Generator} (hs : S.after k g = .ok (s, g₁))
    (hstep : S.step s g₁ = .ok ((out, s'), g')) : S.after (k + 1) g = .ok (s', g') := by
  rw [after, bind_of_ok hs, bind_of_ok hstep]
  rfl

theorem after_succ_of_error {e : Fault} {g₁ : Generator} (hs : S.after k g = .ok (s, g₁))
    (hstep : S.step s g₁ = .error e) : S.after (k + 1) g = .error e := by
  rw [after, bind_of_ok hs, bind_of_error hstep]

/-- A fault stays. -/
theorem after_add_of_error {e : Fault} (h : S.after k g = .error e) :
    ∀ n, S.after (k + n) g = .error e
  | 0 => h
  | n + 1 => by
    rw [← Nat.add_assoc, after, bind_of_error (after_add_of_error h n)]

/-- Where all clauses are satisfied the search stays. -/
theorem after_add_of_isEmpty (h : S.after k g = .ok (s, g')) (he : s.unsatisfied.isEmpty = true) :
    ∀ n, S.after (k + n) g = .ok (s, g')
  | 0 => h
  | n + 1 => after_succ_of_step (after_add_of_isEmpty h he n) (step_of_isEmpty he g')

theorem Visits.of_le (h : S.Visits g k s) (hj : j ≤ k) : ∃ t, S.Visits g j t := by
  cases hj' : S.after j g with
  | ok r => exact ⟨r.1, r.2, hj'⟩
  | error e =>
    obtain ⟨g', h⟩ := h
    rw [← Nat.add_sub_cancel' hj, after_add_of_error hj'] at h
    cases h

theorem Moves.succ (hm : S.Moves g k) (hs : S.Visits g k s) (he : s.unsatisfied.isEmpty = false) :
    S.Moves g (k + 1) := by
  intro i hi
  rcases Nat.lt_succ_iff_lt_or_eq.1 hi with hlt | rfl
  · exact hm i hlt
  · exact ⟨s, hs, he⟩

/-- Where a search can stop is the first state that it would stay in. -/
theorem Moves.not_isEmpty (hm : S.Moves g k) (hi : i < k) (hs : S.Visits g i s) :
    s.unsatisfied.isEmpty = false := by
  obtain ⟨t, ht, he⟩ := hm i hi
  rw [hs.unique ht]
  exact he

theorem Moves.le_of_isEmpty (hm : S.Moves g k) (hs : S.Visits g i s)
    (he : s.unsatisfied.isEmpty = true) : k ≤ i := by
  refine Nat.le_of_not_lt fun hlt => ?_
  have hopen := hm.not_isEmpty hlt hs
  rw [he] at hopen
  cases hopen

/-! ## The whole search -/

/-- How a search with a budget of `n` steps ends: at the first state without unsatisfied clauses, at
the state after `n` moves, or in the fault that keeps this state from being reached. -/
inductive Ends (S : Solver) (g : Generator) (n : Nat) :
    Except Fault ((SolveResult × Reporter) × Generator) → Prop
  | satisfied {i s g' r} : i < n → S.after i g = .ok (s, g') → S.Moves g i →
      s.unsatisfied.isEmpty = true → Ends S g n (.ok ((s.satisfiedResult i, r), g'))
  | exhausted {s g' r} : S.after n g = .ok (s, g') → S.Moves g n →
      Ends S g n (.ok ((s.exhaustedResult n, r), g'))
  | fault {e} : S.after n g = .error e → Ends S g n (.error e)

theorem run_ends (remaining : Nat) {done : Nat} {g₁ : Generator} (r : Reporter)
    (hs : S.after done g = .ok (s, g₁)) (hm : S.Moves g done) :
    S.Ends g (done + remaining) (S.run remaining done s r g₁) := by
  induction remaining generalizing done s g₁ r with
  | zero => exact .exhausted hs hm
  | succ remaining ih =>
    rw [run, Nat.add_comm remaining, ← Nat.add_assoc]
    cases he : s.unsatisfied.isEmpty with
    | true =>
      rw [bind_of_ok (step_of_isEmpty he g₁)]
      exact .satisfied (by omega) hs hm he
    | false =>
      cases hstep : S.step s g₁ with
      | error e =>
        rw [bind_of_error hstep]
        exact .fault (after_add_of_error (after_succ_of_error hs hstep) remaining)
      | ok q =>
        obtain ⟨⟨out, t⟩, g₂⟩ := q
        rw [bind_of_ok hstep]
        have hnext := after_succ_of_step hs hstep
        rw [step_of_not_isEmpty he] at hstep
        obtain ⟨_, kind, _, flipped, _, _, _, -, -, -, -, hq⟩ := mutate_eq_ok hstep
        cases hq
        exact ih (reportStride r (done + 1)) hnext (hm.succ ⟨g₁, hs⟩ he)

/-- **The end of a search.** -/
theorem solve_ends (S : Solver) (r : Reporter) (g : Generator) :
    S.Ends g S.config.maxIterations (S.solve r g) := by
  have hnone : S.Moves g 0 := by
    intro i hi
    omega
  rw [← Nat.zero_add S.config.maxIterations]
  cases hs : S.after 0 g with
  | error e =>
    have hsolve : S.solve r g = .error e := bind_of_error hs
    rw [hsolve]
    exact .fault (after_add_of_error hs S.config.maxIterations)
  | ok q =>
    have hsolve : S.solve r g =
        S.run S.config.maxIterations 0 q.1 (r.report (.taskStart S.config.maxIterations)) q.2 :=
      bind_of_ok hs
    rw [hsolve]
    exact run_ends S.config.maxIterations _ hs hnone

/-- A search fails exactly where its steps fail. -/
theorem solve_eq_error_iff {r : Reporter} {e : Fault} :
    S.solve r g = .error e ↔ S.after S.config.maxIterations g = .error e := by
  have hends := solve_ends S r g
  generalize S.solve r g = result at hends
  cases hends with
  | @satisfied i s g' r hi hs hm he =>
    have hstays := after_add_of_isEmpty hs he (S.config.maxIterations - i)
    rw [Nat.add_sub_cancel' (Nat.le_of_lt hi)] at hstays
    simp [hstays]
  | exhausted hs hm => simp [hs]
  | fault he => simp [he]

/-- The state that a search ends with, after as many moves as the result counts. -/
theorem Ends.exists_last {n : Nat} {res : SolveResult} {r : Reporter}
    (h : S.Ends g n (.ok ((res, r), g'))) :
    ∃ s, S.Visits g res.steps s ∧ S.Moves g res.steps ∧
      res.trace = s.trace.map (·.push res.valence) ∧ res.memory = s.memory := by
  cases h with
  | satisfied hi hs hm he => exact ⟨_, ⟨g', hs⟩, hm, rfl, rfl⟩
  | exhausted hs hm => exact ⟨_, ⟨g', hs⟩, hm, rfl, rfl⟩

/-- A search that starts from a satisfying assignment ends there, if it has any budget. -/
theorem solve_of_start {r : Reporter} (hs : S.start g = .ok (s, g'))
    (he : s.unsatisfied.isEmpty = true) (hpos : 0 < S.config.maxIterations) :
    ∃ r', S.solve r g = .ok ((s.satisfiedResult 0, r'), g') := by
  obtain ⟨n, hn⟩ := Nat.exists_eq_succ_of_ne_zero (Nat.ne_of_gt hpos)
  unfold solve
  rw [bind_of_ok hs, hn, run, bind_of_ok (step_of_isEmpty he g')]
  exact ⟨_, rfl⟩

/-- A short search among clauses with a repeated literal, both polarities of a variable, and no
literal. -/
def mixed : Solver where
  formula := .ofClauses
    #[⟨[⟨0, true⟩, ⟨0, true⟩]⟩, ⟨[⟨1, true⟩, ⟨1, false⟩]⟩, ⟨[]⟩, ⟨[⟨0, false⟩, ⟨2, true⟩]⟩]
  occurrences := ⟨#[#[0, 0, 3], #[1, 1], #[3]]⟩
  config := { maxIterations := 3 }

end Solver

end SatSearch
