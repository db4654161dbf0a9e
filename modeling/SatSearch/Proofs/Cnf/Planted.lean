import SatSearch.Proofs.Cnf.Evaluation
import SatSearch.Proofs.Random.Assignments
import SatSearch.Proofs.Random.Samples
/-!
# Planted instances are satisfied by what they hide

A drawn clause has three literals, so where it is false its first literal can be negated, and then
the clause is true; its variables stay what they were. The hidden assignment is drawn before all
clauses: it is the random assignment of the generator that the instance is drawn from
(`generate_eq_ok`). What the generator promises is said for all of its results in `generate_exact`.
-/

namespace SatSearch

namespace Planted

open Draw (IsSample Meets Endless bind_eq_ok bind_eq_error lift_eq_error)

variable {hidden : Assignment} {n : Nat} {g g' : Generator}

/-- The assignment makes the clause true, and has a value for each of its three variables. -/
structure Agrees (hidden : Assignment) (c : Clause) : Prop where
  holds : c.holds hidden = true
  sample : IsSample hidden.size clauseWidth (c.literals.map Literal.var)

theorem var_lt_of_sample {c : Clause} {k : Nat} (h : IsSample hidden.size k (c.literals.map Literal.var)) :
    ∀ l ∈ c.literals, l.var < hidden.size :=
  fun _ hl => h.lt _ (List.mem_map_of_mem hl)

theorem Agrees.lt {c : Clause} (h : Agrees hidden c) : ∀ l ∈ c.literals, l.var < hidden.size :=
  var_lt_of_sample h.sample

theorem Agrees.isSatisfiedBy {c : Clause} (h : Agrees hidden c) : c.isSatisfiedBy hidden = .ok true := by
  rw [Clause.isSatisfiedBy_of_lt h.lt, h.holds]

theorem Agrees.literals_ne_nil {c : Clause} (h : Agrees hidden c) : c.literals ≠ [] := by
  intro hnil
  have hholds := h.holds
  rw [Clause.holds, hnil] at hholds
  cases hholds

theorem meets_drawPolarities {Q : Fault → Prop} :
    ∀ vs : List Nat, (drawPolarities vs).Meets (fun ls => ls.map Literal.var = vs) Q
  | [] => .pure rfl
  | v :: vs => by
    unfold drawPolarities
    refine (Meets.ofGenerator (P := fun _ => True) fun _ => trivial).bind fun polarity _ => ?_
    refine (meets_drawPolarities vs).bind fun rest hrest => .pure ?_
    rw [List.map_cons, hrest]

theorem map_var_negateFirst (c : Clause) :
    (negateFirst c).literals.map Literal.var = c.literals.map Literal.var := by
  obtain ⟨_ | ⟨l, ls⟩⟩ := c <;> rfl

/-- A false clause with a literal becomes true when its first literal is negated. -/
theorem holds_negateFirst {c : Clause} (hne : c.literals ≠ []) (hfalse : c.holds hidden = false) :
    (negateFirst c).holds hidden = true := by
  obtain ⟨_ | ⟨l, ls⟩⟩ := c
  · exact absurd rfl hne
  · have hl : l.holds hidden = false := by
      rw [Clause.holds, List.any_cons, Bool.or_eq_false_iff] at hfalse
      exact hfalse.1
    rw [negateFirst, Clause.holds, List.any_cons, Literal.holds_negated, hl]
    rfl

theorem meets_drawClause (h : clauseWidth ≤ hidden.size) :
    (drawClause hidden).Meets (Agrees hidden) Endless := by
  unfold drawClause
  refine (Draw.meets_sample h).bind fun vars hvars => ?_
  refine (meets_drawPolarities vars).bind fun literals hliterals => ?_
  rw [← hliterals] at hvars
  have hlt := var_lt_of_sample (c := ⟨literals⟩) hvars
  have hne : literals ≠ [] := by
    rintro rfl
    exact absurd hvars.length_eq (by decide)
  dsimp only
  rw [Clause.isSatisfiedBy_of_lt hlt]
  cases hholds : (Clause.mk literals).holds hidden with
  | true => exact .pure ⟨hholds, hvars⟩
  | false =>
    have hrepaired : IsSample hidden.size clauseWidth
        ((negateFirst ⟨literals⟩).literals.map Literal.var) := by
      rw [map_var_negateFirst]
      exact hvars
    exact .pure ⟨holds_negateFirst hne hholds, hrepaired⟩

theorem meets_drawClauses (h : clauseWidth ≤ hidden.size) : ∀ (count : Nat) {clauses : Array Clause},
    (∀ c ∈ clauses, Agrees hidden c) → (drawClauses hidden count clauses).Meets
      (fun drawn => drawn.size = clauses.size + count ∧ ∀ c ∈ drawn, Agrees hidden c) Endless
  | 0, _, hs => .pure ⟨rfl, hs⟩
  | count + 1, clauses, hs => by
    unfold drawClauses
    refine (meets_drawClause h).bind fun c hc => ?_
    have hpush : ∀ d ∈ clauses.push c, Agrees hidden d := by
      intro d hd
      rcases Array.mem_push.1 hd with hd | rfl
      · exact hs d hd
      · exact hc
    refine (meets_drawClauses h count hpush).mono (fun drawn hdrawn => ?_) fun _ he => he
    obtain ⟨hsize, hagrees⟩ := hdrawn
    rw [Array.size_push] at hsize
    exact ⟨by omega, hagrees⟩

/-! ## Whole instances -/

section
variable {f : Formula} (h : ∀ c ∈ f.clauses, Agrees hidden c)
include h

/-- Variables that occur in no clause may be left out at the end. -/
theorem numVars_le : f.numVars ≤ hidden.size :=
  Formula.numVars_le_iff.2 fun c hc => (h c hc).lt

/-- The values of the variables that the formula counts are enough to satisfy it. -/
theorem satisfiedBy_firstValues : f.SatisfiedBy (hidden.firstValues f.numVars) := by
  have hcovers : f.Covers (hidden.firstValues f.numVars) :=
    Nat.le_of_eq (Assignment.size_firstValues hidden (numVars_le h)).symm
  rw [hcovers.satisfiedBy_iff]
  intro c hc
  rw [← (h c hc).holds]
  apply Clause.holds_congr
  intro l hl
  exact Assignment.valueD_firstValues hidden (Formula.var_lt hc hl)

theorem satisfiable_of_agrees : f.Satisfiable :=
  ⟨_, hidden.size_firstValues (numVars_le h), satisfiedBy_firstValues h⟩

end

variable {numClauses : Option Nat} {planted : Instance}

theorem generate_of_lt (h : n < clauseWidth) (g : Generator) :
    generate n numClauses g = .ok (.error (.tooFewVariables n), g) := by
  rw [generate, if_pos h]
  rfl

theorem meets_drawClauses_empty (h : clauseWidth ≤ hidden.size) (count : Nat) :
    (drawClauses hidden count #[]).Meets
      (fun drawn => drawn.size = count ∧ ∀ c ∈ drawn, Agrees hidden c) Endless := by
  have hnone : ∀ c ∈ (#[] : Array Clause), Agrees hidden c := fun c hc =>
    absurd hc (Array.not_mem_empty c)
  refine (meets_drawClauses h count hnone).mono (fun drawn hdrawn => ?_) fun _ he => he
  rwa [Array.size_empty, Nat.zero_add] at hdrawn

/-- The draws that an instance is made of. -/
theorem generate_cases {drawn : Except Error Instance} (h : generate n numClauses g = .ok (drawn, g')) :
    (n < clauseWidth ∧ drawn = .error (.tooFewVariables n) ∧ g' = g) ∨
    (clauseWidth ≤ n ∧ ∃ hidden g₁ clauses,
      Assignment.random n g = .ok (hidden, g₁) ∧ hidden.size = n ∧
      clauses.size = numClauses.getD (clauseCountFor n defaultRatio) ∧
      (∀ c ∈ clauses, Agrees hidden c) ∧ drawn = .ok ⟨.ofClauses clauses, hidden⟩) := by
  by_cases hwidth : n < clauseWidth
  · rw [generate_of_lt hwidth] at h
    cases h
    exact .inl ⟨hwidth, rfl, rfl⟩
  · rw [generate, if_neg hwidth] at h
    obtain ⟨hidden, g₁, hrandom, h⟩ := bind_eq_ok h
    obtain ⟨_, g₂, -, h⟩ := bind_eq_ok h
    obtain ⟨clauses, g₃, hclauses, h⟩ := bind_eq_ok h
    cases h
    have hsize : hidden.size = n := Assignment.size_of_random_eq_ok hrandom
    obtain ⟨hcount, hagrees⟩ := (meets_drawClauses_empty (by omega) _).value hclauses
    exact .inr ⟨by omega, hidden, g₁, clauses, hrandom, hsize, hcount, hagrees, rfl⟩

/-- **What is drawn for an instance.** The hidden assignment is the first thing that the generator
gives, and it makes every clause true. -/
theorem generate_eq_ok (h : generate n numClauses g = .ok (.ok planted, g')) :
    (∃ g₁, Assignment.random n g = .ok (planted.hidden, g₁)) ∧ planted.hidden.size = n ∧
      ∀ c ∈ planted.formula.clauses, Agrees planted.hidden c := by
  rcases generate_cases h with ⟨-, herror, -⟩ | ⟨-, hidden, g₁, clauses, hrandom, hsize, -, hagrees, hok⟩
  · cases herror
  · cases hok
    exact ⟨⟨g₁, hrandom⟩, hsize, hagrees⟩

/-- Without a result, a table is too large or no word is ever accepted. -/
theorem generate_eq_error {e : Fault} (h : generate n numClauses g = .error e) :
    clauseWidth ≤ n ∧ (e = .endlessDraw ∨ e = .capacityOverflow) := by
  by_cases hwidth : n < clauseWidth
  · rw [generate_of_lt hwidth] at h
    cases h
  · refine ⟨by omega, ?_⟩
    rw [generate, if_neg hwidth] at h
    rcases bind_eq_error h with h | ⟨hidden, g₁, hrandom, h⟩
    · exact .inr (Assignment.random_eq_error h)
    have hsize : hidden.size = n := Assignment.size_of_random_eq_ok hrandom
    rcases bind_eq_error h with h | ⟨_, g₂, -, h⟩
    · exact .inr (reserve_eq_error (lift_eq_error h))
    rcases bind_eq_error h with h | ⟨clauses, g₃, -, h⟩
    · exact .inl ((meets_drawClauses_empty (by omega) _).fault h)
    · cases h

/-- **What a planted instance promises.** Fewer than three variables are refused without a draw, and
nothing else is. Every instance has a hidden value for each variable and the number of clauses that was asked
for, the default being the one for 4.3 clauses to a variable. Each clause has three literals over
different variables, and the hidden values satisfy it; so the formula is satisfiable. -/
theorem generate_exact (n : Nat) (numClauses : Option Nat) (g : Generator) :
    (n < 3 → generate n numClauses g = .ok (.error (.tooFewVariables n), g)) ∧
    (∀ e g', generate n numClauses g = .ok (.error e, g') → n < 3 ∧ e = .tooFewVariables n) ∧
    (∀ planted g', generate n numClauses g = .ok (.ok planted, g') →
      3 ≤ n ∧ planted.hidden.size = n ∧
      planted.formula.numClauses = numClauses.getD (clauseCountFor n 4.3) ∧
      (∀ c ∈ planted.formula.clauses, c.literals.length = 3 ∧ (c.literals.map Literal.var).Nodup ∧
        ∀ l ∈ c.literals, l.var < n) ∧
      planted.formula.SatisfiedBy planted.hidden ∧
      planted.formula.Satisfiable ∧ planted.formula.numVars ≤ n) ∧
    ∀ e, generate n numClauses g = .error e → 3 ≤ n ∧ (e = .endlessDraw ∨ e = .capacityOverflow) := by
  refine ⟨fun h => generate_of_lt h g, fun e g' h => ?_, fun planted g' h => ?_, fun e => generate_eq_error⟩
  · rcases generate_cases h with ⟨hlt, herror, -⟩ | ⟨-, hidden, g₁, clauses, -, -, -, -, hok⟩
    · cases herror
      exact ⟨hlt, rfl⟩
    · cases hok
  · rcases generate_cases h with ⟨-, herror, -⟩ | ⟨hle, hidden, g₁, clauses, -, rfl, hcount, hagrees, hok⟩
    · cases herror
    · cases hok
      refine ⟨hle, rfl, hcount, fun c hc => ?_, fun c hc => (hagrees c hc).isSatisfiedBy,
        satisfiable_of_agrees (f := .ofClauses clauses) hagrees, numVars_le (f := .ofClauses clauses) hagrees⟩
      have hsample := (hagrees c hc).sample
      have hlength : c.literals.length = 3 := (List.length_map _).symm.trans hsample.length_eq
      exact ⟨hlength, hsample.nodup, (hagrees c hc).lt⟩

theorem generate_exact_brief :
    generate 2 none (.ofSeed 0) = .ok (.error (.tooFewVariables 2), .ofSeed 0) ∧
    ∃ planted g', generate 5 (some 2) (.ofSeed 3) = .ok (.ok planted, g') ∧
      planted.hidden.size = 5 ∧ planted.formula.numClauses = 2 ∧ planted.formula.Satisfiable := by
  refine ⟨(generate_exact 2 none (.ofSeed 0)).1 (by decide), ?_⟩
  obtain ⟨hdrawn, hok⟩ : ∃ drawn, (generate 5 (some 2) (.ofSeed 3)) = .ok drawn :=
    exists_eq_ok_of_isOk (by decide +kernel)
  obtain ⟨drawn, g'⟩ := hdrawn
  obtain ⟨-, herror, hplanted, -⟩ := generate_exact 5 (some 2) (.ofSeed 3)
  cases drawn with
  | error e => exact absurd (herror e g' hok).1 (by decide)
  | ok planted =>
    obtain ⟨-, hsize, hcount, -, -, hsatisfiable, -⟩ := hplanted planted g' hok
    exact ⟨planted, g', hok, hsize, hcount, hsatisfiable⟩

end Planted

end SatSearch
