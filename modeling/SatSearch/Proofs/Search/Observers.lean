import SatSearch.Proofs.Search.Records
/-!
# Observers of a search

The memory hook, the trace and a listener are told of every step and asked for nothing. What is left of
a state without the things that are kept for them is the `bare` state, and `S.unobserved` is the search
that keeps nothing. It takes bare states through the same moves with the same draws
(`step_unobserved`), so its whole run is that of `S` without what was kept (`solve_unobserved`).

Main statement: searches that differ in their observers only end alike, draw alike and keep the same
trace where they keep one, and what a hook leaves in the memory is its fold over the steps
(`observers_cannot_steer`).
-/

namespace SatSearch

/-! ## States and results without what is kept for observers -/

namespace SearchState

/-- The state without its trace and with an empty memory. -/
def bare (s : SearchState) : SearchState := { s with trace := none, memory := {} }

theorem init_bare (f : Formula) (a : Assignment) (valence : Float) (tracing : Bool) :
    init f a valence false = bare <$> init f a valence tracing := by
  unfold init
  cases UnsatSet.ofAssignment f a <;> rfl

theorem applyFlips_bare (s : SearchState) (f : Formula) (o : Occurrences) (vars : List Nat) :
    s.bare.applyFlips f o vars = bare <$> s.applyFlips f o vars := by
  have hsame : refreshVars f o s.bare.assignment s.bare.unsatisfied vars =
      refreshVars f o s.assignment s.unsatisfied vars := rfl
  rw [applyFlips, applyFlips, hsame]
  cases refreshVars f o s.assignment s.unsatisfied vars <;> rfl

end SearchState

/-- The result without its trace and with an empty memory. -/
def SolveResult.bare (r : SolveResult) : SolveResult := { r with trace := none, memory := {} }

theorem SolveResult.bare_eq_iff {r t : SolveResult} : r.bare = t.bare ↔ r.termination = t.termination ∧
    r.valence = t.valence ∧ r.assignment = t.assignment ∧ r.steps = t.steps := by
  simp [bare]

namespace Solver

variable {S : Solver} {s : SearchState} {g g' : Generator} {i k : Nat}

/-- The same search with another hook, and with or without a trace. -/
def observedBy (S : Solver) (hook : MemoryHook) (tracing : Bool) : Solver :=
  { S with hook, config := { S.config with recordTrace := tracing } }

/-- The same search with a silent hook and without a trace. -/
def unobserved (S : Solver) : Solver := S.observedBy .silent false

theorem unobserved_observedBy (S : Solver) (hook : MemoryHook) (tracing : Bool) :
    (S.observedBy hook tracing).unobserved = S.unobserved := rfl

/-! ## The search that keeps nothing -/

theorem start_unobserved (S : Solver) : S.unobserved.start = SearchState.bare <$> S.start := by
  unfold start
  rw [map_bind]
  refine bind_congr fun a => ?_
  rw [map_bind]
  refine bind_congr fun valence => ?_
  rw [← Draw.lift_map, ← SearchState.init_bare]
  rfl

theorem mutate_unobserved (S : Solver) (s : SearchState) :
    S.unobserved.mutate s.bare = (fun q => (q.1, q.2.bare)) <$> S.mutate s := by
  unfold mutate
  rw [map_bind]
  refine bind_congr fun valence => ?_
  rw [map_bind]
  refine bind_congr fun kind => ?_
  rw [map_bind]
  refine bind_congr fun q => ?_
  obtain ⟨a, flipped⟩ := q
  dsimp only
  have happly : (SearchState.applyFlips { s.bare.recordValence valence with assignment := a }
      S.unobserved.formula S.unobserved.occurrences flipped) =
      SearchState.bare <$> SearchState.applyFlips { s.recordValence valence with assignment := a }
        S.formula S.occurrences flipped :=
    SearchState.applyFlips_bare { s.recordValence valence with assignment := a } _ _ _
  rw [happly, Draw.lift_map, bind_map_left, map_bind]
  exact bind_congr fun t => rfl

theorem step_unobserved (S : Solver) (s : SearchState) :
    S.unobserved.step s.bare = (fun q => (q.1, q.2.bare)) <$> S.step s := by
  unfold step
  have hsame : s.bare.unsatisfied.isEmpty = s.unsatisfied.isEmpty := rfl
  rw [hsame]
  cases s.unsatisfied.isEmpty with
  | true => rfl
  | false => exact mutate_unobserved S s

theorem after_unobserved (S : Solver) : ∀ k, S.unobserved.after k = SearchState.bare <$> S.after k
  | 0 => start_unobserved S
  | k + 1 => by
    rw [after, after_unobserved S k, after, bind_map_left, map_bind]
    refine bind_congr fun s => ?_
    rw [step_unobserved, bind_map_left, map_bind]
    exact bind_congr fun _ => rfl

/-- Neither what is kept nor the listener has a say in how a search goes on. -/
theorem run_unobserved (S : Solver) : ∀ (remaining done : Nat) (s : SearchState) (r₁ r₂ : Reporter),
    (fun q => q.1) <$> S.unobserved.run remaining done s.bare r₁ =
      (fun q => q.1.bare) <$> S.run remaining done s r₂
  | 0, _, _, _, _ => rfl
  | remaining + 1, done, s, r₁, r₂ => by
    rw [run, run, step_unobserved, bind_map_left, map_bind, map_bind]
    refine bind_congr fun q => ?_
    obtain ⟨out, t⟩ := q
    cases out with
    | satisfied => rfl
    | mutated kind flipped => exact run_unobserved S remaining (done + 1) t _ _

theorem solve_unobserved (S : Solver) (r₁ r₂ : Reporter) :
    (fun q => q.1) <$> S.unobserved.solve r₁ = (fun q => q.1.bare) <$> S.solve r₂ := by
  unfold solve
  rw [start_unobserved, bind_map_left, map_bind, map_bind]
  exact bind_congr fun s => run_unobserved S S.config.maxIterations 0 s _ _

/-- A listener is only told: the result is the same one for all. -/
theorem run_listener (S : Solver) : ∀ (remaining done : Nat) (s : SearchState) (r₁ r₂ : Reporter),
    (fun q => q.1) <$> S.run remaining done s r₁ = (fun q => q.1) <$> S.run remaining done s r₂
  | 0, _, _, _, _ => rfl
  | remaining + 1, done, s, r₁, r₂ => by
    rw [run, run, map_bind, map_bind]
    refine bind_congr fun q => ?_
    obtain ⟨out, t⟩ := q
    cases out with
    | satisfied => rfl
    | mutated kind flipped => exact run_listener S remaining (done + 1) t _ _

theorem solve_listener (S : Solver) (r₁ r₂ : Reporter) :
    (fun q => q.1) <$> S.solve r₁ = (fun q => q.1) <$> S.solve r₂ := by
  unfold solve
  rw [map_bind, map_bind]
  exact bind_congr fun s => run_listener S S.config.maxIterations 0 s _ _

theorem map_bare_observedBy (S : Solver) (hook₁ hook₂ : MemoryHook) (tracing₁ tracing₂ : Bool)
    (r₁ r₂ : Reporter) :
    (fun q => q.1.bare) <$> (S.observedBy hook₁ tracing₁).solve r₁ =
      (fun q => q.1.bare) <$> (S.observedBy hook₂ tracing₂).solve r₂ := by
  rw [← solve_unobserved _ .silent r₁, ← solve_unobserved _ .silent r₂, unobserved_observedBy,
    unobserved_observedBy]

/-- All observers see the same assignments and the same values. -/
theorem scored_unobserved (S : Solver) (g : Generator) (i : Nat) : S.unobserved.scored g i = S.scored g i := by
  have hsame := after_unobserved S i
  unfold scored
  cases hs : S.after i g with
  | ok q =>
    rw [hsame, Draw.map_of_ok hs]
    rfl
  | error e => rw [hsame, Draw.map_of_error hs]

/-! ## The memory -/

/-- What a hook leaves in the memory after `k` steps that end with the assignments `a 1` to `a k` and
start from ones of values `v 0` to `v (k - 1)`. -/
def noted (hook : MemoryHook) (a : Nat → Assignment) (v : Nat → Float) (k : Nat) : Memory :=
  (List.range k).foldl (fun m i => hook m (a (i + 1)) (v i)) {}

theorem noted_succ (hook : MemoryHook) (a : Nat → Assignment) (v : Nat → Float) (k : Nat) :
    noted hook a v (k + 1) = hook (noted hook a v k) (a (k + 1)) (v k) := by
  simp [noted, List.range_succ]

section
variable {a : Nat → Assignment} {v : Nat → Float}

/-- The step lemma: a move shows the hook the assignment that it leaves and the value of the one that it
found. -/
theorem memory_mutate {s' : SearchState} {out : StepOutcome} (hmemory : s.memory = noted S.hook a v k)
    (hmutate : S.mutate s g = .ok ((out, s'), g')) (ha : a (k + 1) = s'.assignment)
    (hv : ∀ valence, S.objective S.formula s.assignment = .ok valence → v k = valence) :
    s'.memory = noted S.hook a v (k + 1) := by
  obtain ⟨valence, _, b, _, _, _, _, hvalence, -, -, -, hr⟩ := mutate_eq_ok hmutate
  cases hr
  rw [noted_succ, ← hmemory, ha, hv valence hvalence]

theorem memory_after (ha : ∀ i s, S.Visits g i s → a i = s.assignment)
    (hv : ∀ i x, S.scored g i = .ok x → v i = x.1) :
    ∀ {k : Nat} {s : SearchState}, S.Visits g k s → S.Moves g k → s.memory = noted S.hook a v k := by
  intro k
  induction k with
  | zero =>
    rintro s ⟨g', hs⟩ -
    obtain ⟨b, valence, u, -, -, -, rfl⟩ := start_eq_ok hs
    rfl
  | succ k ih =>
    rintro s' ⟨g', hs'⟩ hm
    obtain ⟨s, g₁, out, hs, hstep⟩ := after_succ_eq_ok hs'
    have hbefore : S.Moves g k := fun i hi => hm i (by omega)
    rw [step_of_not_isEmpty (hm.not_isEmpty (Nat.lt_succ_self k) ⟨g₁, hs⟩)] at hstep
    refine memory_mutate (ih ⟨g₁, hs⟩ hbefore) hstep (ha _ _ ⟨g', hs'⟩) ?_
    intro valence hvalence
    exact hv k _ (scored_of_visits ⟨g₁, hs⟩ hvalence)

end

theorem exists_assignments (S : Solver) (g : Generator) : ∃ a : Nat → Assignment,
    ∀ i s, S.Visits g i s → a i = s.assignment := by
  refine ⟨fun i => match S.after i g with | .ok q => q.1.assignment | .error _ => ⟨#[]⟩, ?_⟩
  rintro i s ⟨g', hs⟩
  dsimp only
  rw [hs]

/-- The memory of a result is what the hook notes of the moves that the result counts. -/
theorem Ends.memory_eq_noted {n : Nat} {res : SolveResult} {r : Reporter}
    (h : S.Ends g n (.ok ((res, r), g'))) : ∃ (a : Nat → Assignment) (v : Nat → Float),
      (∀ i ≤ res.steps, ∃ s, S.Visits g i s ∧ a i = s.assignment) ∧
      (∀ i < res.steps, S.objective S.formula (a i) = .ok (v i)) ∧
      res.memory = noted S.hook a v res.steps := by
  obtain ⟨s, hs, hm, -, hmemory⟩ := h.exists_last
  obtain ⟨a, ha⟩ := exists_assignments S g
  obtain ⟨p, hp⟩ := exists_scores S g
  have hvisits : ∀ i ≤ res.steps, ∃ t, S.Visits g i t ∧ a i = t.assignment := by
    intro i hi
    obtain ⟨t, ht⟩ := hs.of_le hi
    exact ⟨t, ht, ha i t ht⟩
  have hvalues : ∀ i < res.steps, S.objective S.formula (a i) = .ok (p i).1 := by
    intro i hi
    obtain ⟨x, hx⟩ := exists_scored hs hm (.inl hi)
    obtain ⟨t, ht, hassignment, hobjective⟩ := scored_eq_ok hx
    rw [ha i t ht, ← hassignment, hp i x hx]
    exact hobjective
  refine ⟨a, fun i => (p i).1, hvisits, hvalues, ?_⟩
  rw [hmemory]
  exact memory_after ha (fun i x hx => by rw [hp i x hx]) hs hm

/-! ## Observers cannot steer -/

/-- Traces that are kept by two observers of one search have the same entries. -/
theorem trace_eq_of_observedBy {hook₁ hook₂ : MemoryHook} {tracing₁ tracing₂ : Bool} {n : Nat}
    {res₁ res₂ : SolveResult} {r₁ r₂ : Reporter} {g₁ g₂ : Generator}
    (h₁ : (S.observedBy hook₁ tracing₁).Ends g n (.ok ((res₁, r₁), g₁)))
    (h₂ : (S.observedBy hook₂ tracing₂).Ends g n (.ok ((res₂, r₂), g₂)))
    (hsteps : res₂.steps = res₁.steps) (hvalence : res₂.valence = res₁.valence) {t₁ t₂ : Array Float}
    (ht₁ : res₁.trace = some t₁) (ht₂ : res₂.trace = some t₂) : t₂ = t₁ := by
  obtain ⟨p, hp⟩ := exists_scores S.unobserved g
  have hp' : ∀ hook tracing i x, (S.observedBy hook tracing).scored g i = .ok x → p i = x := by
    intro hook tracing i x hx
    rw [← scored_unobserved] at hx
    exact hp i x hx
  rw [h₁.trace_eq (hp' _ _)] at ht₁
  rw [h₂.trace_eq (hp' _ _), hsteps, hvalence] at ht₂
  split at ht₁
  · split at ht₂
    · cases ht₁
      cases ht₂
      rfl
    · cases ht₂
  · cases ht₁

/-- **Observers cannot steer a search.** Whatever the hook, the trace flag and the listener, a search
fails in the same fault, or ends the same way, after as many steps, with the same assignment and
value and with the same generator; where two of them keep a trace, it is the same one. The memory
is the left fold of the hook over the moves, from the empty memory: one call for each, with the
assignment after it and the value before it. -/
theorem observers_cannot_steer (S : Solver) (hook₁ hook₂ : MemoryHook) (tracing₁ tracing₂ : Bool)
    (r₁ r₂ : Reporter) (g : Generator) :
    (∀ e, (S.observedBy hook₁ tracing₁).solve r₁ g = .error e →
      (S.observedBy hook₂ tracing₂).solve r₂ g = .error e) ∧
    ∀ res₁ r₁' g', (S.observedBy hook₁ tracing₁).solve r₁ g = .ok ((res₁, r₁'), g') →
      (∃ res₂ r₂', (S.observedBy hook₂ tracing₂).solve r₂ g = .ok ((res₂, r₂'), g') ∧
        res₂.termination = res₁.termination ∧ res₂.valence = res₁.valence ∧
        res₂.assignment = res₁.assignment ∧ res₂.steps = res₁.steps ∧
        res₁.trace.isSome = tracing₁ ∧ res₂.trace.isSome = tracing₂ ∧
        ∀ t₁ t₂, res₁.trace = some t₁ → res₂.trace = some t₂ → t₂ = t₁) ∧
      (S.observedBy hook₁ tracing₁).Moves g res₁.steps ∧
      ∃ (a : Nat → Assignment) (v : Nat → Float),
        (∀ i ≤ res₁.steps, ∃ s, (S.observedBy hook₁ tracing₁).Visits g i s ∧ a i = s.assignment) ∧
        (∀ i < res₁.steps, S.objective S.formula (a i) = .ok (v i)) ∧
        res₁.memory = (List.range res₁.steps).foldl (fun m i => hook₁ m (a (i + 1)) (v i)) {} := by
  have hbare := map_bare_observedBy S hook₁ hook₂ tracing₁ tracing₂ r₁ r₂
  refine ⟨fun e he => Draw.error_of_map_eq hbare he, ?_⟩
  intro res₁ r₁' g' hsolve
  have hends₁ := solve_ends (S.observedBy hook₁ tracing₁) r₁ g
  rw [hsolve] at hends₁
  obtain ⟨s, hs, hm, -⟩ := hends₁.exists_last
  refine ⟨?_, hm, hends₁.memory_eq_noted⟩
  obtain ⟨⟨res₂, r₂'⟩, hsolve₂, hresult⟩ := Draw.ok_of_map_eq hbare hsolve
  have hends₂ := solve_ends (S.observedBy hook₂ tracing₂) r₂ g
  rw [hsolve₂] at hends₂
  obtain ⟨htermination, hvalence, hassignment, hsteps⟩ := SolveResult.bare_eq_iff.1 hresult
  refine ⟨res₂, r₂', hsolve₂, htermination, hvalence, hassignment, hsteps, hends₁.isSome_trace,
    hends₂.isSome_trace, ?_⟩
  intro t₁ t₂ ht₁ ht₂
  exact trace_eq_of_observedBy hends₁ hends₂ hsteps hvalence ht₁ ht₂

/-- Notes every value. -/
def noting : MemoryHook := fun m _ valence => m.note valence

theorem observers_cannot_steer_mixed : ∃ res₁ r₁ res₂ r₂ g', ∃ (a : Nat → Assignment) (v : Nat → Float),
    (mixed.observedBy noting true).solve .attentive (.ofSeed 2) = .ok ((res₁, r₁), g') ∧
    (mixed.observedBy .silent false).solve .silent (.ofSeed 2) = .ok ((res₂, r₂), g') ∧
    res₁.steps = 3 ∧ res₁.memory.plateaus.size = 3 ∧
    res₁.memory = (List.range 3).foldl (fun m i => noting m (a (i + 1)) (v i)) {} ∧
    res₂.steps = 3 ∧ res₂.assignment = res₁.assignment ∧ res₂.trace.isSome = false := by
  obtain ⟨⟨⟨res₁, r₁⟩, g'⟩, hsolve, hresult⟩ := exists_eq_ok_of_map
    (x := (mixed.observedBy noting true).solve .attentive (.ofSeed 2))
    (f := fun q => (q.1.1.steps, q.1.1.memory.plateaus.size)) (b := (3, 3)) (by decide +kernel)
  obtain ⟨hsteps, hsize⟩ := Prod.mk.inj hresult
  have hsteered := (observers_cannot_steer mixed noting .silent true false
    .attentive .silent (.ofSeed 2)).2 res₁ r₁ g' hsolve
  obtain ⟨⟨res₂, r₂, hsolve₂, -, -, hassignment, hsteps₂, -, htrace, -⟩, -, a, v, -, -, hmemory⟩ := hsteered
  rw [hsteps] at hmemory hsteps₂
  exact ⟨res₁, r₁, res₂, r₂, g', a, v, hsolve, hsolve₂, hsteps, hsize, hmemory, hsteps₂, hassignment, htrace⟩

end Solver

end SatSearch
