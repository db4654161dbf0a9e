import SatSearch.Proofs.Search.Drifts
/-!
# What the drifts flip

The semantic drift draws different variables, so none is flipped back and the assignment changes at each
of them (`semantic_exact`). The local drift draws a clause in which every literal is false, so flipping the
variable of any of them makes the clause true, whatever its other literals are (`toUnsatisfied_exact`).
-/

namespace SatSearch

open Draw (bind_of_ok bind_of_error bind_eq_ok bind_eq_error lift_ok lift_error)

variable {f : Formula} {a b : Assignment} {s : UnsatSet} {valence : Float} {g g₁ g₂ : Generator} {i : Nat}
  {c : Clause}

namespace Drift

/-! ## The semantic drift -/

theorem one_le_flipCount (h : 0 < a.size) (valence : Float) : 1 ≤ flipCount a.size valence :=
  Nat.le_min.2 ⟨Nat.le_max_right _ _, h⟩

theorem semantic_of_isEmpty (h : a.size = 0) (f : Formula) (valence : Float) (s : UnsatSet) :
    semantic a f valence s = pure (a, []) := by
  have hempty : a.isEmpty = true := by rw [Assignment.isEmpty, h]; rfl
  rw [semantic, if_pos hempty]

theorem semantic_of_pos (h : 0 < a.size) (f : Formula) (valence : Float) (s : UnsatSet) :
    semantic a f valence s = (do
      let vars ← Draw.sample a.size (flipCount a.size valence)
      let flipped ← a.flipAll vars
      pure (flipped, vars)) := by
  have hempty : ¬ a.isEmpty = true := by
    rw [Assignment.isEmpty, beq_iff_eq]
    omega
  rw [semantic, if_neg hempty]

/-- A sample of variables can be flipped, and the flips do not cancel. -/
theorem semantic_of_sample (h : 0 < a.size) {vars : List Nat}
    (hdraw : Draw.sample a.size (flipCount a.size valence) g = .ok (vars, g₁)) :
    ∃ b, semantic a f valence s g = .ok ((b, vars), g₁) ∧ b.size = a.size ∧
      vars.mergeSort (· ≤ ·) = a.differing b := by
  have hsample := (Draw.meets_sample (flipCount_le a.size valence)).value hdraw
  obtain ⟨b, hb, hsize, hval⟩ := Assignment.flipAll_spec hsample.lt
  refine ⟨b, ?_, hsize, Assignment.mergeSort_eq_differing hsize hval hsample.lt hsample.nodup⟩
  rw [semantic_of_pos h, bind_of_ok hdraw, hb]
  rfl

theorem semantic_eq_error_iff (h : 0 < a.size) {e : Fault} : semantic a f valence s g = .error e ↔
    Draw.sample a.size (flipCount a.size valence) g = .error e := by
  cases hdraw : Draw.sample a.size (flipCount a.size valence) g with
  | ok q =>
    obtain ⟨b, hb, -⟩ := semantic_of_sample (f := f) (s := s) h hdraw
    rw [hb]
    simp
  | error e' =>
    rw [semantic_of_pos h, bind_of_error hdraw]
    simp

/-- **The semantic drift reports exactly what it flips.** Whatever the valence is, it draws as many
variables as it is to flip, at least one and no more than there are. They are different ones, and in
ascending order they are those in which the new assignment differs from the old one. It fails just where the
sample cannot be drawn. Without variables it flips nothing and draws nothing. -/
theorem semantic_exact (a : Assignment) (f : Formula) (valence : Float) (s : UnsatSet) (g : Generator) :
    (a.size = 0 → semantic a f valence s g = .ok ((a, []), g)) ∧
    (0 < a.size →
      1 ≤ flipCount a.size valence ∧ flipCount a.size valence ≤ a.size ∧
      (∀ e, semantic a f valence s g = .error e ↔
        Draw.sample a.size (flipCount a.size valence) g = .error e) ∧
      (∀ e, semantic a f valence s g = .error e → e = .endlessDraw) ∧
      ∀ b vars g', semantic a f valence s g = .ok ((b, vars), g') →
        Draw.sample a.size (flipCount a.size valence) g = .ok (vars, g') ∧
        vars.length = flipCount a.size valence ∧ vars.Nodup ∧ (∀ v ∈ vars, v < a.size) ∧
        b.size = a.size ∧ vars.mergeSort (· ≤ ·) = a.differing b) := by
  have hsample := Draw.meets_sample (flipCount_le a.size valence)
  refine ⟨fun h => by rw [semantic_of_isEmpty h]; rfl, fun h => ?_⟩
  refine ⟨one_le_flipCount h valence, flipCount_le a.size valence, fun e => semantic_eq_error_iff h,
    fun e he => hsample.fault ((semantic_eq_error_iff h).1 he), fun b vars g' hdrift => ?_⟩
  cases hdraw : Draw.sample a.size (flipCount a.size valence) g with
  | error e =>
    rw [(semantic_eq_error_iff h).2 hdraw] at hdrift
    cases hdrift
  | ok q =>
    obtain ⟨b', hb', hsize, hdiffering⟩ := semantic_of_sample (f := f) (s := s) h hdraw
    rw [hb'] at hdrift
    cases hdrift
    have hq := hsample.value hdraw
    exact ⟨rfl, hq.length_eq, hq.nodup, hq.lt, hsize, hdiffering⟩

theorem semantic_exact_brief : flipCount 5 (-1.0 / 0.0) = 5 ∧ flipCount 5 (0.0 / 0.0) = 1 ∧
    ∃ b vars g', semantic (.allFalse 5) .empty (-1.0 / 0.0) (.withCapacity 0) (.ofSeed 3) = .ok ((b, vars), g') ∧
      vars.length = 5 ∧ vars.mergeSort (· ≤ ·) = (Assignment.allFalse 5).differing b := by
  have hcount : flipCount 5 (-1.0 / 0.0) = 5 := by decide +kernel
  obtain ⟨⟨⟨b, vars⟩, g'⟩, hdrift⟩ : ∃ q,
      semantic (.allFalse 5) .empty (-1.0 / 0.0) (.withCapacity 0) (.ofSeed 3) = .ok q :=
    exists_eq_ok_of_isOk (by decide +kernel)
  obtain ⟨-, -, -, -, hdrawn⟩ := (semantic_exact (.allFalse 5) .empty (-1.0 / 0.0) (.withCapacity 0)
    (.ofSeed 3)).2 (by decide)
  obtain ⟨-, hlength, -, -, -, hdiffering⟩ := hdrawn b vars g' hdrift
  exact ⟨hcount, by decide +kernel, b, vars, g', hdrift, hlength.trans hcount, hdiffering⟩

/-! ## The local drift -/

/-- Flipping `v`, and nothing else, leads from `a` to `b`, which satisfies a clause of the set in which `v`
occurs. -/
structure Repairs (f : Formula) (a : Assignment) (s : UnsatSet) (v : Nat) (b : Assignment) : Prop where
  size_eq : b.size = a.size
  differing_eq : a.differing b = [v]
  repaired : ∃ i ∈ s.toList, ∃ c, f.clauses[i]? = some c ∧ (∃ l ∈ c.literals, l.var = v) ∧
    c.isSatisfiedBy b = .ok true

/-- In a false clause every literal is false, so each of them is a way to make it true. -/
theorem holds_of_flip {l : Literal} (hl : l ∈ c.literals) (hfalse : c.holds a = false)
    (hval : b.valueD l.var = !a.valueD l.var) : c.holds b = true := by
  have hliteral : ¬ l.holds a = true := List.any_eq_false.1 hfalse l hl
  refine List.any_eq_true.2 ⟨l, hl, ?_⟩
  rw [Literal.holds, beq_iff_eq] at hliteral ⊢
  rw [hval]
  cases hv : a.valueD l.var <;> cases hp : l.polarity <;> simp [hv, hp] at hliteral ⊢

theorem repairs_of_flip {l : Literal} (hc : f.Covers a) (hi : i ∈ s.toList) (hclause : f.clauses[i]? = some c)
    (hfails : f.Fails a i) (hl : l ∈ c.literals) : ∃ b, a.flip l.var = .ok b ∧ Repairs f a s l.var b := by
  have hmem := Array.mem_of_getElem? hclause
  have hlt : ∀ v ∈ [l.var], v < a.size := by
    intro v hv
    rw [List.mem_singleton.1 hv]
    exact Nat.lt_of_lt_of_le (Formula.var_lt hmem hl) hc
  have hfalse : c.holds a = false := (hc.fails_iff_holds hclause).1 hfails
  obtain ⟨b, hb, hsize, hval⟩ := Assignment.flipAll_spec hlt
  have hdiffering := Assignment.mergeSort_eq_differing hsize hval hlt (by simp)
  rw [Assignment.flipAll_singleton] at hb
  refine ⟨b, hb, hsize, by rw [← hdiffering, List.mergeSort_singleton], i, hi, c, hclause, ⟨l, hl, rfl⟩, ?_⟩
  have hcovers : f.Covers b := by rw [Formula.Covers, hsize]; exact hc
  rw [hcovers.isSatisfiedBy hmem, holds_of_flip hl hfalse]
  simp [hval]

/-- `c` is the clause that is drawn from the set, and `g₁` is the generator after that. -/
def DrawsClause (f : Formula) (s : UnsatSet) (g : Generator) (c : Clause) (g₁ : Generator) : Prop :=
  ∃ i, s.choose g = .ok (some i, g₁) ∧ f.clauses[i]? = some c

theorem DrawsClause.exists_iff (h : DrawsClause f s g c g₁) {P : Clause → Generator → Prop} :
    (∃ c g₁, DrawsClause f s g c g₁ ∧ P c g₁) ↔ P c g₁ := by
  obtain ⟨i, hdraw, hclause⟩ := h
  constructor
  · rintro ⟨c', g', ⟨i', hdraw', hclause'⟩, hP⟩
    rw [hdraw] at hdraw'
    cases hdraw'
    rw [hclause] at hclause'
    cases hclause'
    exact hP
  · exact fun hP => ⟨c, g₁, ⟨i, hdraw, hclause⟩, hP⟩

theorem DrawsClause.choose_ne_error (h : DrawsClause f s g c g₁) (e : Fault) : s.choose g ≠ .error e := by
  obtain ⟨i, hdraw, -⟩ := h
  simp [hdraw]

theorem DrawsClause.not_isEmpty (h : DrawsClause f s g c g₁) : ¬ s.isEmpty = true := by
  obtain ⟨i, hdraw, -⟩ := h
  rw [← (s.meets_choose.value hdraw).1]
  simp

/-- What the local drift does once its clause is drawn. -/
def flipIn (a : Assignment) (c : Clause) : Draw (Assignment × List Nat) := do
  match ← Draw.choose c.literals with
  | none => pure (a, [])
  | some l =>
    let flipped ← a.flip l.var
    pure (flipped, [l.var])

theorem toUnsatisfied_of_none (h : s.choose g = .ok (none, g₁)) :
    toUnsatisfied a f valence s g = .ok ((a, []), g₁) := by
  rw [toUnsatisfied, bind_of_ok h]
  rfl

theorem DrawsClause.toUnsatisfied_eq (h : DrawsClause f s g c g₁) :
    toUnsatisfied a f valence s g = flipIn a c g₁ := by
  obtain ⟨i, hdraw, hclause⟩ := h
  have hc : f.clause i = .ok c := entryAt_eq_ok_iff.2 hclause
  rw [toUnsatisfied, bind_of_ok hdraw]
  dsimp only
  rw [hc]
  rfl

/-- How the local drift ends: at the draw of a clause, at the draw of a literal, or with a repair. -/
inductive LocalOutcome (f : Formula) (a : Assignment) (s : UnsatSet) (g : Generator) :
    Except Fault ((Assignment × List Nat) × Generator) → Prop
  | clauseFault {e : Fault} : s.choose g = .error e → LocalOutcome f a s g (.error e)
  | noClause {g₁ : Generator} : s.choose g = .ok (none, g₁) → LocalOutcome f a s g (.ok ((a, []), g₁))
  | literalFault {c : Clause} {g₁ : Generator} {e : Fault} : DrawsClause f s g c g₁ →
      Draw.choose c.literals g₁ = .error e → LocalOutcome f a s g (.error e)
  | noLiteral {c : Clause} {g₁ : Generator} : DrawsClause f s g c g₁ → c.literals = [] →
      LocalOutcome f a s g (.ok ((a, []), g₁))
  | repair {c : Clause} {g₁ g₂ : Generator} {l : Literal} {b : Assignment} : DrawsClause f s g c g₁ →
      Draw.choose c.literals g₁ = .ok (some l, g₂) → l ∈ c.literals → Repairs f a s l.var b →
      LocalOutcome f a s g (.ok ((b, [l.var]), g₂))

section
variable (hc : f.Covers a) (hs : ∀ i ∈ s.toList, f.Fails a i)
include hc hs

theorem toUnsatisfied_outcome (valence : Float) (g : Generator) :
    LocalOutcome f a s g (toUnsatisfied a f valence s g) := by
  cases hdraw : s.choose g with
  | error e =>
    rw [toUnsatisfied, bind_of_error hdraw]
    exact .clauseFault hdraw
  | ok q =>
    obtain ⟨drawn, g₁⟩ := q
    cases drawn with
    | none =>
      rw [toUnsatisfied_of_none hdraw]
      exact .noClause hdraw
    | some i =>
      have hi : i ∈ s.toList := (s.meets_choose.value hdraw).2 i rfl
      obtain ⟨c, hclause, -⟩ := hc.fails_iff.1 (hs i hi)
      have hdraws : DrawsClause f s g c g₁ := ⟨i, hdraw, hclause⟩
      rw [hdraws.toUnsatisfied_eq, flipIn]
      cases hliteral : Draw.choose c.literals g₁ with
      | error e =>
        rw [bind_of_error hliteral]
        exact .literalFault hdraws hliteral
      | ok q =>
        obtain ⟨drawn, g₂⟩ := q
        obtain ⟨hnone, hsome⟩ := (Draw.meets_choose c.literals).value hliteral
        rw [bind_of_ok hliteral]
        cases drawn with
        | none =>
          have hnil := hnone.1 rfl
          rw [hnil] at hliteral
          cases hliteral
          exact .noLiteral hdraws hnil
        | some l =>
          have hl := hsome l rfl
          obtain ⟨b, hb, hrepairs⟩ := repairs_of_flip hc hi hclause (hs i hi) hl
          dsimp only
          rw [hb]
          exact .repair hdraws hliteral hl hrepairs

/-- **The local drift repairs a clause.** Let every member of the set be a clause that the assignment does not
satisfy. If a variable is reported, it is the only one, the assignments differ in it alone, and the new one
satisfies a member in which it occurs. Nothing is reported, and nothing changed, exactly if there is no member
or the drawn one has no literal. The drift fails just where one of its two draws does. -/
theorem toUnsatisfied_exact (valence : Float) (g : Generator) :
    (∀ e, toUnsatisfied a f valence s g = .error e ↔ s.choose g = .error e ∨
      ∃ c g₁, DrawsClause f s g c g₁ ∧ Draw.choose c.literals g₁ = .error e) ∧
    (∀ e, toUnsatisfied a f valence s g = .error e → e = .endlessDraw) ∧
    ∀ b vars g', toUnsatisfied a f valence s g = .ok ((b, vars), g') →
      (vars = [] ↔ s.isEmpty = true ∨ ∃ c g₁, DrawsClause f s g c g₁ ∧ c.literals = []) ∧
      (vars = [] → b = a) ∧
      (vars ≠ [] → ∃ v, vars = [v] ∧ Repairs f a s v b) := by
  have houtcome := toUnsatisfied_outcome hc hs valence g
  refine ⟨fun e => ?_, fun e hdrift => ?_, fun b vars g' hdrift => ?_⟩
  · generalize toUnsatisfied a f valence s g = result at houtcome
    cases houtcome with
    | clauseFault hdraw => simp [hdraw, DrawsClause]
    | noClause hdraw => simp [hdraw, DrawsClause]
    | literalFault hdraws hliteral =>
      rw [hdraws.exists_iff, hliteral]
      simp [hdraws.choose_ne_error e]
    | noLiteral hdraws hnil =>
      rw [hdraws.exists_iff, hnil]
      simp [hdraws.choose_ne_error e, Draw.choose]
    | repair hdraws hliteral hl hrepairs =>
      rw [hdraws.exists_iff, hliteral]
      simp [hdraws.choose_ne_error e]
  · rw [hdrift] at houtcome
    cases houtcome with
    | clauseFault hdraw => exact s.meets_choose.fault hdraw
    | literalFault hdraws hliteral => exact (Draw.meets_choose _).fault hliteral
  · rw [hdrift] at houtcome
    cases houtcome with
    | noClause hdraw =>
      have hempty := (s.meets_choose.value hdraw).1.1 rfl
      simp [hempty]
    | noLiteral hdraws hnil =>
      rw [hdraws.exists_iff]
      simp [hnil]
    | repair hdraws hliteral hl hrepairs =>
      have hne := List.ne_nil_of_mem hl
      refine ⟨?_, fun h => (by cases h), fun _ => ⟨_, rfl, hrepairs⟩⟩
      rw [hdraws.exists_iff]
      simp [hdraws.not_isEmpty, hne]

end

/-- A clause in which a variable occurs twice, and one that is true while all variables are false. -/
def repeated : Formula := .ofClauses #[⟨[⟨0, true⟩, ⟨0, true⟩, ⟨1, true⟩]⟩, ⟨[⟨1, false⟩]⟩]

theorem toUnsatisfied_exact_repeated : repeated.Covers (.allFalse 2) ∧
    (∀ i ∈ UnsatSet.toList ⟨#[0], #[some 0, none]⟩, repeated.Fails (.allFalse 2) i) ∧
    ∃ b v g', toUnsatisfied (.allFalse 2) repeated 0.5 ⟨#[0], #[some 0, none]⟩ (.ofSeed 4) = .ok ((b, [v]), g') ∧
      Repairs repeated (.allFalse 2) ⟨#[0], #[some 0, none]⟩ v b := by
  have hcovers : repeated.Covers (.allFalse 2) := Nat.le_refl 2
  have hfails : ∀ i ∈ UnsatSet.toList ⟨#[0], #[some 0, none]⟩, repeated.Fails (.allFalse 2) i := by
    intro i hi
    rw [List.mem_singleton.1 hi]
    exact ⟨_, rfl, rfl⟩
  obtain ⟨⟨⟨b, vars⟩, g'⟩, hdrift, hvars⟩ := exists_eq_ok_of_map (f := fun q => q.1.2.isEmpty) (b := false)
    (x := toUnsatisfied (.allFalse 2) repeated 0.5 ⟨#[0], #[some 0, none]⟩ (.ofSeed 4)) (by decide +kernel)
  obtain ⟨-, -, hrepair⟩ := (toUnsatisfied_exact hcovers hfails 0.5 (.ofSeed 4)).2.2 b vars g' hdrift
  obtain ⟨v, rfl, hrepairs⟩ := hrepair (List.isEmpty_eq_false_iff.1 hvars)
  exact ⟨hcovers, hfails, b, v, g', hdrift, hrepairs⟩

end Drift

end SatSearch
