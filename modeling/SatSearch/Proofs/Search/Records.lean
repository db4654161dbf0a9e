import SatSearch.Proofs.Decimal.Comparison
import SatSearch.Proofs.Search.Runs
/-!
# The best assignment and the trace

A move scores the assignment that it finds and only then changes it, so after `k` moves the record
has scanned the assignments visited at steps `0` to `k - 1`, the first of which was also the
initial record. Main statement: the best assignment, its value and the trace are those of
the scan that replaces the record by strictly greater values only (`record_exact`).
-/

namespace SatSearch

/-! ## Scanning scored assignments -/

/-- The second of two scored assignments if its value is strictly greater, and the first otherwise. -/
def keepGreater (best next : Float × Assignment) : Float × Assignment :=
  if best.1 < next.1 then next else best

/-- The record of a scan of the first `k` entries that starts from the first of them. -/
def record (p : Nat → Float × Assignment) : Nat → Float × Assignment
  | 0 => p 0
  | k + 1 => keepGreater (record p k) (p k)

section
variable (p : Nat → Float × Assignment) {i k : Nat}

/-- Nothing that was scanned is greater than the record. -/
theorem not_record_lt (hi : i < k) : ¬ (record p k).1 < (p i).1 := by
  induction k with
  | zero => omega
  | succ k ih =>
    unfold record keepGreater
    rcases Nat.lt_succ_iff_lt_or_eq.1 hi with hlt | rfl
    · split
      · next himproved => exact fun h => ih hlt (FloatOrder.lt_trans himproved h)
      · exact ih hlt
    · split
      · exact FloatOrder.lt_irrefl _
      · next hkept => exact hkept

/-- The record never goes down. -/
theorem not_record_succ_lt (k : Nat) : ¬ (record p (k + 1)).1 < (record p k).1 := by
  rw [record, keepGreater]
  split
  · next himproved => exact FloatOrder.lt_asymm himproved
  · exact FloatOrder.lt_irrefl _

/-- The record is an entry that was scanned, and of several greatest ones the earliest. -/
theorem record_eq (k : Nat) :
    ∃ j, (j < k ∨ j = 0) ∧ record p k = p j ∧ ∀ i < j, ¬ (p j).1 ≤ (p i).1 := by
  induction k with
  | zero => exact ⟨0, .inr rfl, rfl, fun i hi => absurd hi (Nat.not_lt_zero i)⟩
  | succ k ih =>
    rw [record, keepGreater]
    split
    · next himproved =>
      refine ⟨k, .inl (Nat.lt_succ_self k), rfl, ?_⟩
      intro i hi hle
      exact not_record_lt p hi (FloatOrder.lt_of_lt_of_le himproved hle)
    · obtain ⟨j, hj, hrecord, hearliest⟩ := ih
      refine ⟨j, ?_, hrecord, hearliest⟩
      omega

end

/-- The values of the record before the first entry and after each of `k` entries. -/
def recordTrace (p : Nat → Float × Assignment) (k : Nat) : Array Float :=
  (Array.range (k + 1)).map fun j => (record p j).1

section
variable {p : Nat → Float × Assignment} {j k : Nat}

theorem recordTrace_zero : recordTrace p 0 = #[(p 0).1] := by
  have hrange : Array.range 1 = #[0] := by decide
  simp [recordTrace, hrange, record]

theorem recordTrace_succ : recordTrace p (k + 1) = (recordTrace p k).push (record p (k + 1)).1 := by
  simp [recordTrace, Array.range_succ]

theorem size_recordTrace : (recordTrace p k).size = k + 1 := by
  simp [recordTrace]

theorem getElem?_recordTrace (hj : j ≤ k) : (recordTrace p k)[j]? = some (record p j).1 := by
  have hlt : j < k + 1 := by omega
  simp [recordTrace, hlt]

theorem back?_recordTrace : (recordTrace p k).back? = some (record p k).1 := by
  rw [Array.back?_eq_getElem?, size_recordTrace]
  exact getElem?_recordTrace (Nat.le_refl k)

/-- The trace of a longer scan begins with that of a shorter one. -/
theorem recordTrace_isPrefix (h : j ≤ k) : (recordTrace p j).toList <+: (recordTrace p k).toList := by
  obtain ⟨n, rfl⟩ := Nat.exists_eq_add_of_le h
  clear h
  induction n with
  | zero => exact List.prefix_refl _
  | succ n ih =>
    have hpush := congrArg Array.toList (recordTrace_succ (p := p) (k := j + n))
    rw [Array.toList_push] at hpush
    rw [← Nat.add_assoc, hpush]
    exact ih.trans (List.prefix_append _ _)

/-- With a last entry that is not less than the record the trace still never goes down. -/
theorem not_lt_of_push {last x y : Float} (hlast : ¬ last < (record p k).1)
    (hx : ((recordTrace p k).push last)[j]? = some x)
    (hy : ((recordTrace p k).push last)[j + 1]? = some y) : ¬ y < x := by
  have hj : j + 1 < k + 2 := by
    have hlt := (Array.getElem?_eq_some_iff.1 hy).1
    rwa [Array.size_push, size_recordTrace] at hlt
  rw [Array.getElem?_push, size_recordTrace, if_neg (by omega),
    getElem?_recordTrace (by omega)] at hx
  cases hx
  rw [Array.getElem?_push, size_recordTrace] at hy
  split at hy
  · next hend =>
    have hjk : j = k := by omega
    subst hjk
    cases hy
    exact hlast
  · rw [getElem?_recordTrace (by omega)] at hy
    cases hy
    exact not_record_succ_lt p j

end

/-- What a state keeps for the caller after `k` moves, if `p i` is the `i`-th scored assignment. -/
structure SearchState.Records (s : SearchState) (tracing : Bool) (p : Nat → Float × Assignment)
    (k : Nat) : Prop where
  iteration : s.iteration = k
  best : (s.bestValence, s.bestAssignment) = record p k
  trace : s.trace = if tracing then some (recordTrace p k) else none

namespace SearchState.Records

variable {s : SearchState} {tracing : Bool} {p : Nat → Float × Assignment} {k : Nat}

theorem trace_eq (h : s.Records tracing p k) {t : Array Float} (ht : s.trace = some t) :
    t = recordTrace p k := by
  rw [h.trace] at ht
  cases tracing with
  | false => cases ht
  | true =>
    cases ht
    rfl

theorem isSome_trace (h : s.Records tracing p k) : s.trace.isSome = tracing := by
  rw [h.trace]
  cases tracing <;> rfl

/-- Scoring the assignment that stands scans one more entry. -/
theorem recordValence (h : s.Records tracing p k) {valence : Float}
    (hp : p k = (valence, s.assignment)) :
    ((s.recordValence valence).bestValence, (s.recordValence valence).bestAssignment) =
        record p (k + 1) ∧
      (s.recordValence valence).trace = if tracing then some (recordTrace p (k + 1)) else none := by
  have hbest : ((s.recordValence valence).bestValence, (s.recordValence valence).bestAssignment) =
      record p (k + 1) := by
    rw [record, keepGreater, hp, ← h.best]
    unfold SearchState.recordValence
    by_cases himproved : s.bestValence < valence <;> simp [himproved]
  refine ⟨hbest, ?_⟩
  have hpushed : (s.recordValence valence).trace =
      s.trace.map (·.push (s.recordValence valence).bestValence) := rfl
  rw [hpushed, h.trace, recordTrace_succ, ← hbest]
  cases tracing <;> rfl

end SearchState.Records

namespace Solver

open Draw (bind_of_ok bind_eq_ok lift_eq_ok)

variable {S : Solver} {s : SearchState} {g g' : Generator} {i k : Nat} {p : Nat → Float × Assignment}

/-! ## The record of a run -/

/-- The assignment visited at step `i`, after its value. -/
def scored (S : Solver) (g : Generator) (i : Nat) : Except Fault (Float × Assignment) :=
  match S.after i g with
  | .error e => .error e
  | .ok (s, _) => match S.objective S.formula s.assignment with
    | .error e => .error e
    | .ok valence => .ok (valence, s.assignment)

theorem scored_of_visits {valence : Float} (hs : S.Visits g i s)
    (h : S.objective S.formula s.assignment = .ok valence) :
    S.scored g i = .ok (valence, s.assignment) := by
  obtain ⟨g', hs⟩ := hs
  rw [scored, hs]
  dsimp only
  rw [h]

theorem scored_eq_ok {x : Float × Assignment} (h : S.scored g i = .ok x) :
    ∃ s, S.Visits g i s ∧ x.2 = s.assignment ∧ S.objective S.formula x.2 = .ok x.1 := by
  unfold scored at h
  split at h
  · cases h
  · next s g' hs =>
    split at h
    · cases h
    · next hvalence =>
      cases h
      exact ⟨s, ⟨g', hs⟩, rfl, hvalence⟩

/-- The state at the start: its assignment is the best one. -/
theorem start_eq_ok (h : S.start g = .ok (s, g')) :
    ∃ a valence u, Assignment.random S.occurrences.numVars g = .ok (a, g') ∧
      S.objective S.formula a = .ok valence ∧ UnsatSet.ofAssignment S.formula a = .ok u ∧
      s = { assignment := a
            unsatisfied := u
            bestAssignment := a
            bestValence := valence
            iteration := 0
            trace := if S.config.recordTrace then some #[valence] else none
            memory := {} } := by
  obtain ⟨a, g₁, ha, h⟩ := bind_eq_ok h
  obtain ⟨valence, g₂, hscore, h⟩ := bind_eq_ok h
  obtain ⟨hvalence, hg₂⟩ := lift_eq_ok hscore
  obtain ⟨hinit, hg'⟩ := lift_eq_ok h
  dsimp only at hg₂ hg' hvalence hinit
  subst hg₂ hg'
  unfold SearchState.init at hinit
  split at hinit
  · next u hu =>
    cases hinit
    exact ⟨a, valence, u, ha, hvalence, hu, rfl⟩
  · cases hinit

/-! ## The invariant -/

theorem records_start (hp : ∀ i x, S.scored g i = .ok x → p i = x) (h : S.after 0 g = .ok (s, g')) :
    s.Records S.config.recordTrace p 0 := by
  obtain ⟨a, valence, u, -, hvalence, -, rfl⟩ := start_eq_ok h
  have hfirst : p 0 = (valence, a) := hp 0 _ (scored_of_visits ⟨g', h⟩ hvalence)
  refine ⟨rfl, hfirst.symm, ?_⟩
  rw [recordTrace_zero, hfirst]

/-- The step lemma: a move scans the assignment that it finds. -/
theorem records_mutate (h : s.Records S.config.recordTrace p k) {out : StepOutcome}
    {s' : SearchState} (hmutate : S.mutate s g = .ok ((out, s'), g'))
    (hp : ∀ valence, S.objective S.formula s.assignment = .ok valence → p k = (valence, s.assignment)) :
    s'.Records S.config.recordTrace p (k + 1) := by
  obtain ⟨valence, _, _, _, _, _, _, hvalence, -, -, -, hr⟩ := mutate_eq_ok hmutate
  cases hr
  obtain ⟨hbest, htrace⟩ := h.recordValence (hp valence hvalence)
  exact ⟨by rw [← h.iteration], hbest, htrace⟩

theorem records_after (hp : ∀ i x, S.scored g i = .ok x → p i = x) :
    ∀ {k : Nat} {s : SearchState}, S.Visits g k s → S.Moves g k → s.Records S.config.recordTrace p k := by
  intro k
  induction k with
  | zero =>
    rintro s ⟨g', hs⟩ -
    exact records_start hp hs
  | succ k ih =>
    rintro s' ⟨g', hs'⟩ hm
    obtain ⟨s, g₁, out, hs, hstep⟩ := after_succ_eq_ok hs'
    have hbefore : S.Moves g k := fun i hi => hm i (by omega)
    rw [step_of_not_isEmpty (hm.not_isEmpty (Nat.lt_succ_self k) ⟨g₁, hs⟩)] at hstep
    exact records_mutate (ih ⟨g₁, hs⟩ hbefore) hstep fun valence hvalence =>
      hp k _ (scored_of_visits ⟨g₁, hs⟩ hvalence)

/-- Every assignment that a run has moved on from was scored, and so was the first one. -/
theorem exists_scored (hs : S.Visits g k s) (hm : S.Moves g k) (hi : i < k ∨ i = 0) :
    ∃ x, S.scored g i = .ok x := by
  rcases hi with hi | rfl
  · obtain ⟨t, g₂, ht⟩ := hs.of_le (j := i + 1) (by omega)
    obtain ⟨u, g₁, out, hu, hstep⟩ := after_succ_eq_ok ht
    rw [step_of_not_isEmpty (hm.not_isEmpty hi ⟨g₁, hu⟩)] at hstep
    obtain ⟨valence, _, _, _, _, _, _, hvalence, -⟩ := mutate_eq_ok hstep
    exact ⟨_, scored_of_visits ⟨g₁, hu⟩ hvalence⟩
  · obtain ⟨t, g₁, ht⟩ := hs.of_le (Nat.zero_le k)
    obtain ⟨a, valence, u, -, hvalence, -, rfl⟩ := start_eq_ok ht
    exact ⟨_, scored_of_visits ⟨g₁, ht⟩ hvalence⟩

theorem exists_scores (S : Solver) (g : Generator) : ∃ p : Nat → Float × Assignment,
    ∀ i x, S.scored g i = .ok x → p i = x := by
  refine ⟨fun i => match S.scored g i with | .ok x => x | .error _ => (0.0, ⟨#[]⟩), ?_⟩
  intro i x hx
  dsimp only
  rw [hx]

/-- The best assignment is one of those that were scored, with its own value. -/
theorem exists_best (hs : S.Visits g k s) (hm : S.Moves g k) :
    ∃ j, (j < k ∨ j = 0) ∧ S.scored g j = .ok (s.bestValence, s.bestAssignment) := by
  obtain ⟨p, hp⟩ := exists_scores S g
  obtain ⟨j, hj, hrecord, -⟩ := record_eq p k
  obtain ⟨x, hx⟩ := exists_scored hs hm hj
  refine ⟨j, hj, ?_⟩
  rw [(records_after hp hs hm).best, hrecord, hx, hp j x hx]

/-- A search ends after as many moves as it counts, and its last entry tells how. -/
theorem Ends.records {n : Nat} {res : SolveResult} {r : Reporter}
    (h : S.Ends g n (.ok ((res, r), g'))) :
    ∃ s, S.Visits g res.steps s ∧ S.Moves g res.steps ∧ ∃ last,
      (res.termination = .satisfied ∧ last = 1.0 ∨
        res.termination = .budgetExhausted ∧ last = s.bestValence) ∧
      res.trace = s.trace.map (·.push last) := by
  cases h with
  | satisfied hi hs hm he => exact ⟨_, ⟨g', hs⟩, hm, 1.0, .inl ⟨rfl, rfl⟩, rfl⟩
  | exhausted hs hm => exact ⟨_, ⟨g', hs⟩, hm, _, .inr ⟨rfl, rfl⟩, rfl⟩

/-- The trace of a search is that of the record, with the value of the result at its end. -/
theorem Ends.trace_eq {n : Nat} {res : SolveResult} {r : Reporter}
    (h : S.Ends g n (.ok ((res, r), g'))) (hp : ∀ i x, S.scored g i = .ok x → p i = x) :
    res.trace =
      if S.config.recordTrace then some ((recordTrace p res.steps).push res.valence) else none := by
  obtain ⟨s, hs, hm, htrace, -⟩ := h.exists_last
  rw [htrace, (records_after hp hs hm).trace]
  cases S.config.recordTrace <;> rfl

theorem Ends.isSome_trace {n : Nat} {res : SolveResult} {r : Reporter}
    (h : S.Ends g n (.ok ((res, r), g'))) : res.trace.isSome = S.config.recordTrace := by
  obtain ⟨p, hp⟩ := exists_scores S g
  rw [h.trace_eq hp]
  cases S.config.recordTrace <;> rfl

/-! ## States and results -/

/-- What a state keeps after `k` moves, if `p i` is the `i`-th scored assignment. -/
structure KeepsRecord (S : Solver) (g : Generator) (k : Nat) (s : SearchState) (p : Nat → Float × Assignment) :
    Prop where
  scored_zero : S.scored g 0 = .ok (p 0)
  scored : ∀ i < k, S.scored g i = .ok (p i)
  iteration_eq : s.iteration = k
  objective_eq : S.objective S.formula s.bestAssignment = .ok s.bestValence
  best_eq : (s.bestValence, s.bestAssignment) = record p k
  /-- Of several greatest ones the record is the earliest. -/
  earliest : ∃ j, (j < k ∨ j = 0) ∧ record p k = p j ∧ ∀ i < j, ¬ (p j).1 ≤ (p i).1
  not_lt : ∀ i < k, ¬ s.bestValence < (p i).1
  isSome_trace : s.trace.isSome = S.config.recordTrace
  size_trace : ∀ t, s.trace = some t → t.size = k + 1
  trace_zero : ∀ t, s.trace = some t → t[0]? = some (p 0).1
  trace_succ : ∀ t, s.trace = some t → ∀ j < k, t[j + 1]? = some (record p (j + 1)).1
  back_trace : ∀ t, s.trace = some t → t.back? = some s.bestValence

/-- The trace `t` of a result whose search ended with the state `s`. -/
structure EndsTrace (S : Solver) (res : SolveResult) (s : SearchState) (t : Array Float) : Prop where
  size_eq : t.size = res.steps + 2
  back_of_satisfied : res.termination = .satisfied → t.back? = some 1.0
  back_of_exhausted : res.termination = .budgetExhausted → t.back? = some s.bestValence
  /-- It never goes down if no assignment is valued above a solution. -/
  not_lt : (∀ a x, S.objective S.formula a = .ok x → ¬ 1.0 < x) →
    ∀ j x y, t[j]? = some x → t[j + 1]? = some y → ¬ y < x

theorem Visits.exists_record (hs : S.Visits g k s) (hm : S.Moves g k) : ∃ p, S.KeepsRecord g k s p := by
  obtain ⟨p, hp⟩ := exists_scores S g
  have hrec := records_after hp hs hm
  have hscored : ∀ i, i < k ∨ i = 0 → S.scored g i = .ok (p i) := by
    intro i hi
    obtain ⟨x, hx⟩ := exists_scored hs hm hi
    rw [hx, hp i x hx]
  have hvalence : s.bestValence = (record p k).1 := by rw [← hrec.best]
  obtain ⟨j, -, hbest⟩ := exists_best hs hm
  obtain ⟨t, -, -, hobjective⟩ := scored_eq_ok hbest
  refine ⟨p, ?_⟩
  exact
    { scored_zero := hscored 0 (.inr rfl)
      scored := fun i hi => hscored i (.inl hi)
      iteration_eq := hrec.iteration
      objective_eq := hobjective
      best_eq := hrec.best
      earliest := record_eq p k
      not_lt := fun i hi => by
        rw [hvalence]
        exact not_record_lt p hi
      isSome_trace := hrec.isSome_trace
      size_trace := fun t ht => by rw [hrec.trace_eq ht, size_recordTrace]
      trace_zero := fun t ht => by
        rw [hrec.trace_eq ht]
        exact getElem?_recordTrace (Nat.zero_le k)
      trace_succ := fun t ht j hj => by
        rw [hrec.trace_eq ht]
        exact getElem?_recordTrace hj
      back_trace := fun t ht => by rw [hrec.trace_eq ht, hvalence, back?_recordTrace] }

theorem Ends.exists_trace {n : Nat} {res : SolveResult} {r : Reporter} (h : S.Ends g n (.ok ((res, r), g'))) :
    ∃ s, S.Visits g res.steps s ∧ S.Moves g res.steps ∧ ∀ t, res.trace = some t → S.EndsTrace res s t := by
  obtain ⟨p, hp⟩ := exists_scores S g
  obtain ⟨s, hs, hm, last, hlast, htrace⟩ := h.records
  have hrec := records_after hp hs hm
  refine ⟨s, hs, hm, fun t ht => ?_⟩
  rw [htrace] at ht
  obtain ⟨t₀, ht₀, rfl⟩ := Option.map_eq_some_iff.1 ht
  rw [hrec.trace_eq ht₀]
  refine ⟨by rw [Array.size_push, size_recordTrace], ?_, ?_, ?_⟩
  · intro hsat
    rcases hlast with ⟨-, rfl⟩ | ⟨hend, -⟩
    · exact Array.back?_push
    · rw [hsat] at hend
      cases hend
  · intro hend
    rcases hlast with ⟨hsat, -⟩ | ⟨-, rfl⟩
    · rw [hsat] at hend
      cases hend
    · exact Array.back?_push
  · intro hbound j x y hx hy
    refine not_lt_of_push ?_ hx hy
    rcases hlast with ⟨-, rfl⟩ | ⟨-, rfl⟩
    · obtain ⟨i, -, hbest⟩ := exists_best hs hm
      obtain ⟨u, -, -, hobjective⟩ := scored_eq_ok hbest
      rw [← hrec.best]
      exact hbound _ _ hobjective
    · rw [← hrec.best]
      exact FloatOrder.lt_irrefl _

/-- **The record is that of a scan of the visited assignments.** After `k` moves the best assignment
and its value are those of the scan of the first `k` scored assignments, and a trace that is kept
has the values of the record before the first of them and after each. A whole search adds one
entry at its end, and its trace never goes down if the objective never exceeds the value 1 of a
solution. -/
theorem record_exact (S : Solver) (g : Generator) :
    (∀ k s, S.Visits g k s → S.Moves g k → ∃ p, S.KeepsRecord g k s p) ∧
    ∀ r res r' g', S.solve r g = .ok ((res, r'), g') →
      res.trace.isSome = S.config.recordTrace ∧
      ∃ s, S.Visits g res.steps s ∧ S.Moves g res.steps ∧ ∀ t, res.trace = some t → S.EndsTrace res s t := by
  refine ⟨fun k s hs hm => hs.exists_record hm, fun r res r' g' hsolve => ?_⟩
  have hends := solve_ends S r g
  rw [hsolve] at hends
  exact ⟨hends.isSome_trace, hends.exists_trace⟩

theorem record_exact_mixed : ∃ s p, mixed.Visits (.ofSeed 2) 3 s ∧ mixed.Moves (.ofSeed 2) 3 ∧
    s.iteration = 3 ∧ (s.bestValence, s.bestAssignment) = record p 3 ∧
      ∃ t, s.trace = some t ∧ t.size = 4 ∧ t.back? = some s.bestValence := by
  have hm : mixed.Moves (.ofSeed 2) 3 := by
    intro i hi
    have hopen : ∀ i < 3, ((mixed.after i (.ofSeed 2)).toOption.map fun r =>
        r.1.unsatisfied.isEmpty) = some false := by decide +kernel
    exact visits_of_eval (F := (·.unsatisfied.isEmpty)) (hopen i hi)
  obtain ⟨s, hs, -⟩ := visits_of_eval (S := mixed) (k := 3) (g := .ofSeed 2) (F := (·.unsatisfied.size))
    (x := 1) (by decide +kernel)
  obtain ⟨p, hkept⟩ := (record_exact mixed (.ofSeed 2)).1 3 s hs hm
  obtain ⟨t, ht⟩ := Option.isSome_iff_exists.1 hkept.isSome_trace
  exact ⟨s, p, hs, hm, hkept.iteration_eq, hkept.best_eq, t, ht, hkept.size_trace t ht, hkept.back_trace t ht⟩

end Solver

end SatSearch
