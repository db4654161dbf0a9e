import SatSearch.Proofs.Cnf.Flips
/-!
# Flips compose by parity

A second flip of a variable undoes the first, whatever was flipped in between, so all that is left of a list
of flips is which variables it has an odd number of times. The result differs from what was flipped on those
variables, and nothing else of the list can be told from it (`flipAll_eq_flipAll_iff`). A list with a variable
that the assignment lacks fails at the first one (`flipAll_eq_error_iff`). Main statement: `flipAll_exact`.
-/

namespace SatSearch

namespace Assignment

variable {a b c : Assignment} {vs ws : List Nat} {v : Nat}

/-! ## Assignments told apart by their values -/

/-- Assignments of one size are equal as soon as every variable has the same value in both. -/
theorem eq_iff_valueD_eq (hsize : b.size = c.size) : b = c ↔ ∀ v, b.valueD v = c.valueD v := by
  constructor
  · rintro rfl v
    rfl
  · intro h
    obtain ⟨values⟩ := b
    obtain ⟨values'⟩ := c
    congr 1
    apply Array.ext hsize
    intro v hv hv'
    have hvalue := h v
    unfold valueD at hvalue
    simpa [hv, hv'] using hvalue

/-! ## Lists of flips -/

theorem flip_of_le (h : a.size ≤ v) : a.flip v = .error (.outOfRange a.size v) := by
  have hv : ¬ v < a.values.size := Nat.not_lt.2 h
  unfold flip
  dsimp only
  rw [dif_neg hv]
  rfl

/-- Flipping ends at the first variable that the assignment lacks. -/
theorem flipAll_eq_error_iff {e : Fault} : ∀ {vs : List Nat} {a : Assignment}, a.flipAll vs = .error e ↔
    ∃ v, vs.find? (a.size ≤ ·) = some v ∧ e = .outOfRange a.size v
  | [], a => by simp [flipAll]
  | v :: vs, a => by
    by_cases hv : a.size ≤ v
    · simp [flipAll, flip_of_le hv, hv, eq_comm]
    · obtain ⟨b, hb, hsize, -⟩ := flip_spec (Nat.lt_of_not_le hv)
      have ih : b.flipAll vs = .error e ↔ ∃ u, vs.find? (b.size ≤ ·) = some u ∧ e = .outOfRange b.size u :=
        flipAll_eq_error_iff
      rw [hsize] at ih
      simp only [flipAll, hb, ih, List.find?_cons, decide_eq_false hv]

/-- Only variables of the assignment are listed, so the parity alone says which ones change. -/
theorem mem_differing_iff_odd (hlt : ∀ v ∈ vs, v < a.size) (h : a.flipAll vs = .ok b) :
    v ∈ a.differing b ↔ vs.count v % 2 = 1 := by
  obtain ⟨b', hb', hsize, hval⟩ := flipAll_spec hlt
  rw [h] at hb'
  cases hb'
  rw [mem_differing_flipAll hsize hval]
  constructor
  · exact And.right
  · intro hodd
    exact ⟨hlt v (List.count_pos_iff.1 (by omega)), hodd⟩

/-- **What is left of a list of flips** is the parity of each variable. -/
theorem flipAll_eq_flipAll_iff (hvs : ∀ v ∈ vs, v < a.size) (hws : ∀ w ∈ ws, w < a.size) :
    a.flipAll vs = a.flipAll ws ↔ ∀ v, vs.count v % 2 = ws.count v % 2 := by
  obtain ⟨b, hb, hbsize, hbval⟩ := flipAll_spec hvs
  obtain ⟨c, hc, hcsize, hcval⟩ := flipAll_spec hws
  rw [hb, hc, Except.ok.injEq, eq_iff_valueD_eq (hbsize.trans hcsize.symm)]
  refine forall_congr' fun v => ?_
  -- both results are the value in `a` changed by a parity, so they agree just where the parities do
  rw [hbval, hcval, Bool.xor_right_inj, Bool.eq_iff_iff, beq_iff_eq, beq_iff_eq]
  omega

/-- The order of the flips does not count. -/
theorem flipAll_perm (h : ws.Perm vs) (hvs : ∀ v ∈ vs, v < a.size) : a.flipAll ws = a.flipAll vs := by
  have hws : ∀ w ∈ ws, w < a.size := fun w hw => hvs w (h.mem_iff.1 hw)
  refine (flipAll_eq_flipAll_iff hws hvs).2 fun v => ?_
  rw [h.count_eq]

/-- **Flips compose by parity.** A list of flips fails exactly if the assignment lacks one of the variables, and
then at the first such. Every other list, in any order and with any repetitions, leads to an assignment of the
same size. The variables on which it differs from the first one are those that are listed an odd number of
times, and `differing` gives them in ascending order. The order of the list does not matter, and another list
leads to the same assignment exactly if every variable has the same parity in both. -/
theorem flipAll_exact (a : Assignment) (vs : List Nat) :
    (∀ e, a.flipAll vs = .error e ↔ ∃ v, vs.find? (a.size ≤ ·) = some v ∧ e = .outOfRange a.size v) ∧
    ((∀ v ∈ vs, v < a.size) → ∃ b, a.flipAll vs = .ok b ∧ b.size = a.size ∧
      (a.differing b).Pairwise (· < ·) ∧
      (∀ v, v ∈ a.differing b ↔ vs.count v % 2 = 1) ∧
      (∀ ws : List Nat, ws.Perm vs → a.flipAll ws = .ok b) ∧
      ∀ ws : List Nat, (∀ w ∈ ws, w < a.size) →
        (a.flipAll ws = .ok b ↔ ∀ v, ws.count v % 2 = vs.count v % 2)) := by
  refine ⟨fun e => flipAll_eq_error_iff, fun hvs => ?_⟩
  obtain ⟨b, hb, hsize, -⟩ := flipAll_spec hvs
  refine ⟨b, hb, hsize, pairwise_differing a b, fun v => mem_differing_iff_odd hvs hb, fun ws hperm => ?_,
    fun ws hws => ?_⟩
  · rw [flipAll_perm hperm hvs, hb]
  · rw [← hb]
    exact flipAll_eq_flipAll_iff hws hvs

/-- Variable 3 is flipped back, variable 1 is flipped three times and variable 0 once. -/
theorem flipAll_exact_repeated : (∀ v ∈ [3, 1, 3, 0, 1, 1], v < (allFalse 5).size) ∧
    ∃ b, (allFalse 5).flipAll [3, 1, 3, 0, 1, 1] = .ok b ∧ b.size = 5 ∧
      (∀ v, v ∈ (allFalse 5).differing b ↔ v = 0 ∨ v = 1) ∧
      (allFalse 5).flipAll [1, 1, 0, 3, 1, 3] = .ok b ∧
      (allFalse 5).flipAll [1, 0] = .ok b ∧ (allFalse 5).flipAll [1, 0, 2] ≠ .ok b := by
  have hvs : ∀ v ∈ [3, 1, 3, 0, 1, 1], v < (allFalse 5).size := by decide
  obtain ⟨b, hb, hsize, -, hmem, hperm, hparity⟩ := (flipAll_exact (allFalse 5) [3, 1, 3, 0, 1, 1]).2 hvs
  have hcount : ∀ v, [1, 0].count v % 2 = [3, 1, 3, 0, 1, 1].count v % 2 := by
    intro v
    simp only [List.count_cons, List.count_nil]
    omega
  refine ⟨hvs, b, hb, hsize, fun v => ?_, hperm _ (by decide), (hparity _ (by decide)).2 hcount, fun hother => ?_⟩
  · rw [hmem, ← hcount]
    simp only [List.count_cons, List.count_nil, beq_iff_eq]
    split <;> split <;> omega
  · exact absurd ((hparity _ (by decide)).1 hother 2) (by decide)

end Assignment

end SatSearch
