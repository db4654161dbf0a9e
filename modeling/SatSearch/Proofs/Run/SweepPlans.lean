import Mathlib.Algebra.Order.Floor.Div
import SatSearch.Proofs.Random.Draws
import SatSearch.Run.SweepPlan
/-!
# The plan of a sweep

The numbers of variables are laid out before anything is drawn, and then one seed is drawn for each run. So the
seed of the run at a place is the one that the generator gives at this place (`IsSeed`), whatever the range is,
and a plan fails only where one of these seeds cannot be drawn.

Main statement: `plan_exact`.
-/

namespace SatSearch.SweepPlan

open Draw (bind_of_ok bind_of_error)

variable {ns : List Nat} {points : List SweepPoint} {g g' g₁ : Generator} {seed : UInt64}
  {start stop step runs i k : Nat}

/-! ## Numbers of variables -/

theorem stepCount_eq_ceilDiv (start stop step : Nat) : stepCount start stop step = (stop - start) ⌈/⌉ step := rfl

theorem add_mul_lt (hi : i < (stop - start) ⌈/⌉ step) : start + i * step < stop := by
  have hstep : 0 < step := by
    rcases Nat.eq_zero_or_pos step with rfl | hpos
    · rw [ceilDiv_zero] at hi
      exact absurd hi (Nat.not_lt_zero i)
    · exact hpos
  have hlt : step * i < stop - start := Nat.lt_of_not_le fun hle =>
    Nat.not_le_of_lt hi ((ceilDiv_le_iff_le_mul hstep).2 hle)
  rw [Nat.mul_comm] at hlt
  omega

/-- All runs with the same number of variables stand next to each other. -/
theorem flatMap_replicate (h : 0 < runs) (size : Nat → Nat) (m : Nat) :
    ((List.range m).flatMap fun i => List.replicate runs (size i)) =
      (List.range (runs * m)).map fun k => size (k / runs) := by
  induction m with
  | zero => rfl
  | succ m ih =>
    rw [List.range_succ, List.flatMap_append, ih, Nat.mul_succ, List.range_add, List.map_append,
      List.flatMap_singleton, List.map_map]
    congr 1
    symm
    rw [List.eq_replicate_iff]
    refine ⟨by simp, fun n hn => ?_⟩
    obtain ⟨j, hj, rfl⟩ := List.mem_map.1 hn
    have hlt : j < runs := List.mem_range.1 hj
    rw [Function.comp, Nat.mul_add_div h, Nat.div_eq_of_lt hlt, Nat.add_zero]

theorem sizes_eq (h : 0 < runs) : sizes start stop step runs =
    (List.range (runs * ((stop - start) ⌈/⌉ step))).map fun k => start + k / runs * step := by
  rw [sizes, stepCount_eq_ceilDiv]
  exact flatMap_replicate h (fun i => start + i * step) _

/-! ## Seeds -/

theorem meets_drawSeed :
    drawSeed.Meets (fun seed => 1 ≤ seed.toNat ∧ seed.toNat ≤ 1000000000) Draw.Endless := by
  have hbound : maxSeed = 1000000000 := rfl
  refine (Draw.meets_below .wide (by omega)).bind fun k hk => .pure ?_
  have hsize : UInt64.size = 18446744073709551616 := rfl
  rw [UInt64.toNat_ofNat_of_lt' (by omega)]
  omega

/-- The seed that is drawn after `k` others. -/
def seedAt : Nat → Draw UInt64
  | 0 => drawSeed
  | k + 1 => do
    let _ ← drawSeed
    seedAt k

/-- The generator gives this seed after `k` others. -/
def IsSeed (g : Generator) (k : Nat) (seed : UInt64) : Prop := ∃ g', seedAt k g = .ok (seed, g')

theorem meets_seedAt :
    ∀ k, (seedAt k).Meets (fun seed => 1 ≤ seed.toNat ∧ seed.toNat ≤ 1000000000) Draw.Endless
  | 0 => meets_drawSeed
  | k + 1 => meets_drawSeed.bind fun _ _ => meets_seedAt k

theorem seedAt_succ (h : drawSeed g = .ok (seed, g₁)) (k : Nat) : seedAt (k + 1) g = seedAt k g₁ :=
  bind_of_ok h

theorem IsSeed.unique {seed' : UInt64} (h : IsSeed g k seed) (h' : IsSeed g k seed') : seed = seed' := by
  obtain ⟨g₁, h⟩ := h
  obtain ⟨g₂, h'⟩ := h'
  rw [h] at h'
  cases h'
  rfl

theorem drawPoints_eq_error {e : Fault} (h : drawPoints ns g = .error e) :
    ∃ k < ns.length, seedAt k g = .error e := by
  induction ns generalizing g with
  | nil => cases h
  | cons n ns ih =>
    cases hseed : drawSeed g with
    | error e' =>
      rw [drawPoints, bind_of_error hseed] at h
      cases h
      exact ⟨0, Nat.succ_pos _, hseed⟩
    | ok q =>
      obtain ⟨seed, g₁⟩ := q
      rw [drawPoints, bind_of_ok hseed] at h
      rcases Draw.bind_eq_error h with hrest | ⟨rest, g₂, -, hpure⟩
      · obtain ⟨k, hk, herror⟩ := ih hrest
        exact ⟨k + 1, Nat.succ_lt_succ hk, by rw [seedAt_succ hseed, herror]⟩
      · cases hpure

/-- The step lemma: the first run takes the first seed, and the others go on from there. -/
theorem drawPoints_cons_eq_ok_iff {n : Nat} :
    (∃ g', drawPoints (n :: ns) g = .ok (points, g')) ↔ ∃ seed g₁ rest, points = ⟨n, seed⟩ :: rest ∧
      drawSeed g = .ok (seed, g₁) ∧ ∃ g', drawPoints ns g₁ = .ok (rest, g') := by
  rw [drawPoints]
  cases hseed : drawSeed g with
  | error e => simp [bind_of_error hseed]
  | ok q =>
    obtain ⟨seed, g₁⟩ := q
    rw [bind_of_ok hseed]
    cases hrest : drawPoints ns g₁ with
    | error e => simp [bind_of_error hrest, hrest]
    | ok q' =>
      obtain ⟨rest, g₂⟩ := q'
      simp [bind_of_ok hrest, hrest, eq_comm]

/-- The runs of a plan are the numbers of variables, each with the seed of its place. -/
theorem drawPoints_eq_ok_iff : (∃ g', drawPoints ns g = .ok (points, g')) ↔
    points.length = ns.length ∧ ∀ k p, points[k]? = some p → ns[k]? = some p.n ∧ IsSeed g k p.seed := by
  induction ns generalizing g points with
  | nil =>
    simp only [drawPoints, Draw.pure_apply, Except.ok.injEq, Prod.mk.injEq, List.length_nil,
      List.length_eq_zero_iff]
    constructor
    · rintro ⟨g', rfl, -⟩
      exact ⟨rfl, fun k p hp => by cases hp⟩
    · rintro ⟨rfl, -⟩
      exact ⟨g, rfl, rfl⟩
  | cons n ns ih =>
    rw [drawPoints_cons_eq_ok_iff]
    constructor
    · rintro ⟨seed, g₁, rest, rfl, hseed, hrest⟩
      obtain ⟨hlength, hat⟩ := ih.1 hrest
      refine ⟨congrArg Nat.succ hlength, ?_⟩
      rintro (_ | k) p hp
      · cases hp
        exact ⟨rfl, g₁, hseed⟩
      · obtain ⟨hn, g₂, hk⟩ := hat k p hp
        exact ⟨hn, g₂, by rw [seedAt_succ hseed, hk]⟩
    · rintro ⟨hlength, hat⟩
      obtain ⟨⟨n', seed⟩, rest, rfl⟩ := List.exists_cons_of_length_eq_add_one hlength
      obtain ⟨hn, g₁, hseed⟩ := hat 0 _ rfl
      cases hn
      refine ⟨seed, g₁, rest, rfl, hseed, ih.2 ⟨Nat.succ.inj hlength, fun k p hp => ?_⟩⟩
      obtain ⟨hn, g₂, hk⟩ := hat (k + 1) p hp
      rw [seedAt_succ hseed] at hk
      exact ⟨hn, g₂, hk⟩

/-! ## Plans -/

theorem plan_zero_step (start stop runs : Nat) (g : Generator) :
    plan [start, stop, 0] runs g = .ok (.error .zeroStep, g) := rfl

theorem plan_zero_runs (h : 0 < step) (start stop : Nat) (g : Generator) :
    plan [start, stop, step] 0 g = .ok (.error .zeroRuns, g) := by
  rw [plan, sizesOf, if_neg (Nat.ne_of_gt h), if_pos rfl]
  rfl

theorem plan_of_pos (hstep : 0 < step) (hruns : 0 < runs) (start stop : Nat) :
    plan [start, stop, step] runs = Except.ok <$> drawPoints (sizes start stop step runs) := by
  rw [plan, sizesOf, if_neg (Nat.ne_of_gt hstep), if_neg (Nat.ne_of_gt hruns)]

/-- The runs of a sweep as the generator draws them: as many as there are steps below the end, each of them several
times, in order. -/
structure IsPlan (g : Generator) (start stop step runs : Nat) (points : List SweepPoint) : Prop where
  length_eq : points.length = runs * ((stop - start) ⌈/⌉ step)
  n_eq : ∀ k p, points[k]? = some p → p.n = start + k / runs * step
  seed_at : ∀ k p, points[k]? = some p → IsSeed g k p.seed

theorem plan_eq_ok_iff (hstep : 0 < step) (hruns : 0 < runs) :
    (∃ g', plan [start, stop, step] runs g = .ok (.ok points, g')) ↔ IsPlan g start stop step runs points := by
  have hdraw : (∃ g', plan [start, stop, step] runs g = .ok (.ok points, g')) ↔
      ∃ g', drawPoints (sizes start stop step runs) g = .ok (points, g') := by
    rw [plan_of_pos hstep hruns]
    cases hpoints : drawPoints (sizes start stop step runs) g with
    | error e => simp [Draw.map_of_error hpoints]
    | ok q =>
      obtain ⟨drawn, g'⟩ := q
      simp [Draw.map_of_ok hpoints]
  rw [hdraw, drawPoints_eq_ok_iff, sizes_eq hruns, List.length_map, List.length_range]
  have hn : ∀ k, k < runs * ((stop - start) ⌈/⌉ step) →
      ((List.range (runs * ((stop - start) ⌈/⌉ step))).map fun k => start + k / runs * step)[k]? =
        some (start + k / runs * step) := by
    intro k hk
    rw [List.getElem?_map, List.getElem?_range hk]
    rfl
  constructor
  · rintro ⟨hlength, hat⟩
    refine ⟨hlength, fun k p hp => ?_, fun k p hp => (hat k p hp).2⟩
    have hk := (List.getElem?_eq_some_iff.1 hp).1
    have hsize := (hat k p hp).1
    rw [hn k (by omega)] at hsize
    exact (Option.some.inj hsize).symm
  · rintro ⟨hlength, hnumber, hseed⟩
    refine ⟨hlength, fun k p hp => ⟨?_, hseed k p hp⟩⟩
    have hk := (List.getElem?_eq_some_iff.1 hp).1
    rw [hn k (by omega), hnumber k p hp]

namespace IsPlan

variable {p : SweepPoint} (h : IsPlan g start stop step runs points)
include h

theorem div_lt (hp : points[k]? = some p) : k / runs < (stop - start) ⌈/⌉ step := by
  have hk := (List.getElem?_eq_some_iff.1 hp).1
  rw [h.length_eq] at hk
  exact Nat.div_lt_of_lt_mul hk

theorem n_lt (hp : points[k]? = some p) : p.n < stop := by
  rw [h.n_eq k p hp]
  exact add_mul_lt (h.div_lt hp)

/-- Worked out on 64-bit words the number of variables is the same one. -/
theorem toNat_word (hstop : stop ≤ UInt64.size) (hp : points[k]? = some p) :
    (UInt64.ofNat start + UInt64.ofNat (k / runs) * UInt64.ofNat step).toNat = p.n := by
  have hlt : p.n < UInt64.size := Nat.lt_of_lt_of_le (h.n_lt hp) hstop
  rw [h.n_eq k p hp] at hlt ⊢
  rw [UInt64.toNat_add, UInt64.toNat_mul, UInt64.toNat_ofNat', UInt64.toNat_ofNat', UInt64.toNat_ofNat',
    ← Nat.mul_mod, ← Nat.add_mod]
  exact Nat.mod_eq_of_lt hlt

theorem seed_mem (hp : points[k]? = some p) : 1 ≤ p.seed.toNat ∧ p.seed.toNat ≤ 1000000000 := by
  obtain ⟨g', hseed⟩ := h.seed_at k p hp
  exact (meets_seedAt k).value hseed

/-- The plan up to another end. -/
theorem take {stop' : Nat} (hle : stop' ≤ stop) :
    IsPlan g start stop' step runs (points.take (runs * ((stop' - start) ⌈/⌉ step))) := by
  have hcount : runs * ((stop' - start) ⌈/⌉ step) ≤ points.length := by
    rw [h.length_eq, Nat.ceilDiv_eq_add_pred_div, Nat.ceilDiv_eq_add_pred_div]
    exact Nat.mul_le_mul_left _ (Nat.div_le_div_right (by omega))
  have hat : ∀ (k : Nat) p, (points.take (runs * ((stop' - start) ⌈/⌉ step)))[k]? = some p → points[k]? = some p := by
    intro k p hp
    rw [List.getElem?_take] at hp
    split at hp
    · exact hp
    · cases hp
  exact ⟨List.length_take_of_le hcount, fun k p hp => h.n_eq k p (hat k p hp),
    fun k p hp => h.seed_at k p (hat k p hp)⟩

end IsPlan

/-! ## All ranges -/

theorem plan_refused_iff :
    (∃ e g', plan [start, stop, step] runs g = .ok (.error e, g')) ↔ step = 0 ∨ runs = 0 := by
  constructor
  · rintro ⟨e, g', h⟩
    by_contra hpos
    rw [plan_of_pos (by omega) (by omega)] at h
    cases hpoints : drawPoints (sizes start stop step runs) g with
    | error e' =>
      rw [Draw.map_of_error hpoints] at h
      cases h
    | ok q =>
      rw [Draw.map_of_ok hpoints] at h
      cases h
  · rintro h
    rcases Nat.eq_zero_or_pos step with rfl | hstep
    · exact ⟨_, _, plan_zero_step start stop runs g⟩
    · obtain rfl : runs = 0 := h.resolve_left (Nat.ne_of_gt hstep)
      exact ⟨_, _, plan_zero_runs hstep start stop g⟩

theorem pos_of_plan {answer : Except Fault (Except Error (List SweepPoint) × Generator)}
    (h : plan [start, stop, step] runs g = answer) (hanswer : ∀ e g', answer ≠ .ok (.error e, g')) :
    0 < step ∧ 0 < runs := by
  have hpos : ¬ (step = 0 ∨ runs = 0) := by
    intro hzero
    obtain ⟨e, g', hrefused⟩ := plan_refused_iff.2 hzero
    exact hanswer e g' (h.symm.trans hrefused)
  omega

theorem plan_eq_error {e : Fault} (h : plan [start, stop, step] runs g = .error e) :
    e = .endlessDraw ∧ ∃ k < runs * ((stop - start) ⌈/⌉ step), seedAt k g = .error .endlessDraw := by
  obtain ⟨hstep, hruns⟩ := pos_of_plan h nofun
  rw [plan_of_pos hstep hruns] at h
  cases hpoints : drawPoints (sizes start stop step runs) g with
  | error e' =>
    rw [Draw.map_of_error hpoints] at h
    cases h
    obtain ⟨k, hk, hseed⟩ := drawPoints_eq_error hpoints
    obtain rfl : e = .endlessDraw := (meets_seedAt k).fault hseed
    rw [sizes_eq hruns, List.length_map, List.length_range] at hk
    exact ⟨rfl, k, hk, hseed⟩
  | ok q =>
    rw [Draw.map_of_ok hpoints] at h
    cases h

theorem isPlan_of_plan (h : plan [start, stop, step] runs g = .ok (.ok points, g')) :
    0 < step ∧ 0 < runs ∧ IsPlan g start stop step runs points := by
  obtain ⟨hstep, hruns⟩ := pos_of_plan h nofun
  exact ⟨hstep, hruns, (plan_eq_ok_iff hstep hruns).1 ⟨g', h⟩⟩

/-! ## Ranges that can be followed -/

section
variable {range : List Nat} {n : Nat}

theorem exists_range_of_sizesOf (h : sizesOf range runs = .ok ns) : ∃ start stop step,
    range = [start, stop, step] ∧ 0 < step ∧ 0 < runs ∧ ns = sizes start stop step runs := by
  unfold sizesOf at h
  split at h
  · next start stop step =>
    split at h
    · cases h
    next hstep =>
    split at h
    · cases h
    next hruns =>
    cases h
    exact ⟨start, stop, step, rfl, Nat.pos_of_ne_zero hstep, Nat.pos_of_ne_zero hruns, rfl⟩
  · cases h

/-- A range that can be followed is planned, unless a seed meets no accepted word. -/
theorem plan_cases (h : sizesOf range runs = .ok ns) (g : Generator) :
    plan range runs g = .error .endlessDraw ∨ ∃ points g', plan range runs g = .ok (.ok points, g') := by
  obtain ⟨start, stop, step, rfl, hstep, hruns, -⟩ := exists_range_of_sizesOf h
  cases hplan : plan [start, stop, step] runs g with
  | error e => exact .inl (by rw [(plan_eq_error hplan).1])
  | ok q =>
    obtain ⟨answer, g'⟩ := q
    cases answer with
    | ok points => exact .inr ⟨points, g', rfl⟩
    | error e =>
      rcases plan_refused_iff.1 ⟨e, g', hplan⟩ with hzero | hzero <;> omega

/-- Every number of variables that a range asks for is that of a point, and the first point has the least. -/
theorem exists_point (h : sizesOf range runs = .ok ns) (hplan : plan range runs g = .ok (.ok points, g'))
    (hn : n ∈ ns) : (∃ p ∈ points, p.n = n) ∧ ∃ p rest, points = p :: rest ∧ p.n ≤ n := by
  obtain ⟨start, stop, step, rfl, hstep, hruns, rfl⟩ := exists_range_of_sizesOf h
  obtain ⟨-, -, hpoints⟩ := isPlan_of_plan hplan
  rw [sizes_eq hruns] at hn
  obtain ⟨k, hk, rfl⟩ := List.mem_map.1 hn
  rw [List.mem_range, ← hpoints.length_eq] at hk
  constructor
  · have hp := List.getElem?_eq_getElem hk
    exact ⟨points[k], List.getElem_mem hk, hpoints.n_eq k _ hp⟩
  · obtain ⟨p, rest, hcons⟩ := List.exists_cons_of_length_pos (Nat.zero_lt_of_lt hk)
    have hfirst := hpoints.n_eq 0 p (by rw [hcons, List.getElem?_cons_zero])
    rw [Nat.zero_div, Nat.zero_mul, Nat.add_zero] at hfirst
    exact ⟨p, rest, hcons, by omega⟩

end

/-- **A plan is laid out by its range and seeded by place.** Steps of 0 are refused, then 0 runs, and nothing else.
A plan fails otherwise only where a seed that it needs meets no accepted word. It has the given number of runs for
each of the steps that begin below the end, rounded up, and none if the range is empty. The numbers of variables go
up by one step after that many runs; all of them are below the end, and 64-bit words are enough to work them out.
Seeds lie between 1 and 1000000000, and the one of a place is the same in every plan from the same generator. With
an earlier end the plan only stops earlier. -/
theorem plan_exact (g : Generator) (start stop step runs : Nat) :
    ((∃ e g', plan [start, stop, step] runs g = .ok (.error e, g')) ↔ step = 0 ∨ runs = 0) ∧
    (step = 0 → plan [start, stop, step] runs g = .ok (.error .zeroStep, g)) ∧
    (0 < step → runs = 0 → plan [start, stop, step] runs g = .ok (.error .zeroRuns, g)) ∧
    (∀ e, plan [start, stop, step] runs g = .error e →
      e = .endlessDraw ∧ ∃ k < runs * ((stop - start) ⌈/⌉ step), seedAt k g = .error .endlessDraw) ∧
    ∀ points g', plan [start, stop, step] runs g = .ok (.ok points, g') →
      points.length = runs * ((stop - start) ⌈/⌉ step) ∧ (stop ≤ start → points = []) ∧
      (∀ k p, points[k]? = some p → p.n = start + k / runs * step ∧ p.n < stop ∧
        1 ≤ p.seed.toNat ∧ p.seed.toNat ≤ 1000000000 ∧ IsSeed g k p.seed ∧
        (stop ≤ UInt64.size →
          (UInt64.ofNat start + UInt64.ofNat (k / runs) * UInt64.ofNat step).toNat = p.n)) ∧
      (∀ start' stop' step' runs' points' g'',
        plan [start', stop', step'] runs' g = .ok (.ok points', g'') →
          ∀ (k : Nat) p p', points[k]? = some p → points'[k]? = some p' → p'.seed = p.seed) ∧
      ∀ stop' ≤ stop, ∃ points' g'',
        plan [start, stop', step] runs g = .ok (.ok points', g'') ∧ points' <+: points := by
  refine ⟨plan_refused_iff, ?_, ?_, fun e => plan_eq_error, ?_⟩
  · rintro rfl
    exact plan_zero_step start stop runs g
  · rintro hstep rfl
    exact plan_zero_runs hstep start stop g
  intro points g' hplan
  obtain ⟨hstep, hruns, h⟩ := isPlan_of_plan hplan
  refine ⟨h.length_eq, fun hempty => ?_, fun k p hp => ?_, ?_, fun stop' hle => ?_⟩
  · rw [← List.length_eq_zero_iff, h.length_eq, Nat.sub_eq_zero_of_le hempty, zero_ceilDiv, Nat.mul_zero]
  · obtain ⟨hmin, hmax⟩ := h.seed_mem hp
    exact ⟨h.n_eq k p hp, h.n_lt hp, hmin, hmax, h.seed_at k p hp, fun hstop => h.toNat_word hstop hp⟩
  · intro start' stop' step' runs' points' g'' hplan' k p p' hp hp'
    obtain ⟨-, -, h'⟩ := isPlan_of_plan hplan'
    exact (h'.seed_at k p' hp').unique (h.seed_at k p hp)
  · obtain ⟨g'', hplan'⟩ := (plan_eq_ok_iff hstep hruns).2 (h.take hle)
    exact ⟨_, g'', hplan', List.take_prefix _ _⟩

/-- Two numbers of variables at the end of the 64-bit words, the next one of which would be 0. -/
theorem plan_exact_nearLimit : ∃ points g',
    plan [18446744073709551612, 18446744073709551615, 2] 2 (.ofSeed 1) = .ok (.ok points, g') ∧
      points.length = 4 ∧ (∀ p, points[3]? = some p → p.n = 18446744073709551614) ∧
      ∃ points' g'', plan [18446744073709551612, 18446744073709551613, 2] 2 (.ofSeed 1) = .ok (.ok points', g'') ∧
        points' <+: points := by
  obtain ⟨-, -, -, -, hplans⟩ := plan_exact (.ofSeed 1) 18446744073709551612 18446744073709551615 2 2
  obtain ⟨⟨answer, g'⟩, hplan, haccepted⟩ := exists_eq_ok_of_map
    (x := plan [18446744073709551612, 18446744073709551615, 2] 2 (.ofSeed 1)) (f := fun q => q.1.isOk) (b := true)
    (by decide +kernel)
  obtain ⟨points, rfl⟩ := exists_eq_ok_of_isOk haccepted
  obtain ⟨hlength, -, hat, -, hshorter⟩ := hplans points g' hplan
  refine ⟨points, g', hplan, hlength, fun p hp => (hat 3 p hp).1, ?_⟩
  exact hshorter 18446744073709551613 (by decide)

end SatSearch.SweepPlan
