import SatSearch.Cnf.Assignment
/-!
# Flips

Flipping the listed variables one after another negates just those that are listed an odd number of
times (`flipAll_spec`), so a variable that is not listed keeps its value.
-/

namespace SatSearch

namespace Assignment

theorem valueD_of_le {a : Assignment} {v : Nat} (h : a.size ≤ v) : a.valueD v = false := by
  unfold valueD
  rw [Array.getD_eq_getD_getElem?, Array.getElem?_eq_none h]
  rfl

theorem flip_spec {a : Assignment} {v : Nat} (h : v < a.size) : ∃ b, a.flip v = .ok b ∧ b.size = a.size ∧
    ∀ u, b.valueD u = (a.valueD u ^^ (u == v)) := by
  obtain ⟨values⟩ := a
  have h : v < values.size := h
  have hb : flip ⟨values⟩ v = .ok ⟨values.set v (!values[v])⟩ := dif_pos h
  refine ⟨_, hb, size_flip hb, fun u => ?_⟩
  unfold valueD
  dsimp only
  rw [Array.getD_eq_getD_getElem?, Array.getD_eq_getD_getElem?, Array.getElem?_set]
  by_cases hu : v = u
  · subst hu
    simp [h]
  · rw [if_neg hu, beq_false_of_ne (Ne.symm hu), Bool.xor_false]

theorem flipAll_singleton (a : Assignment) (v : Nat) : a.flipAll [v] = a.flip v := by
  rw [flipAll]
  cases a.flip v <;> rfl

theorem flipAll_spec : ∀ {vs : List Nat} {a : Assignment}, (∀ v ∈ vs, v < a.size) →
    ∃ b, a.flipAll vs = .ok b ∧ b.size = a.size ∧
      ∀ u, b.valueD u = (a.valueD u ^^ (vs.count u % 2 == 1))
  | [], a, _ => ⟨a, rfl, rfl, by simp⟩
  | v :: vs, a, h => by
    obtain ⟨hv, hvs⟩ := List.forall_mem_cons.1 h
    obtain ⟨b, hb, hsize, hval⟩ := flip_spec hv
    obtain ⟨c, hc, hsize', hval'⟩ := flipAll_spec (a := b) fun u hu => hsize ▸ hvs u hu
    refine ⟨c, by rw [flipAll, hb]; exact hc, hsize'.trans hsize, fun u => ?_⟩
    rw [hval', hval, List.count_cons, Bool.xor_assoc]
    congr 1
    by_cases hu : v = u
    · subst hu
      rcases Nat.mod_two_eq_zero_or_one (vs.count v) with h | h <;> simp [Nat.add_mod, h]
    · simp [hu, beq_false_of_ne (Ne.symm hu)]

/-- The variables that change are those that are listed an odd number of times. -/
theorem mem_differing_flipAll {a b : Assignment} {vs : List Nat} (hsize : b.size = a.size)
    (hval : ∀ u, b.valueD u = (a.valueD u ^^ (vs.count u % 2 == 1))) {u : Nat} :
    u ∈ a.differing b ↔ u < a.size ∧ vs.count u % 2 = 1 := by
  rw [mem_differing, hsize, hval]
  cases a.valueD u <;> simp

/-- A variable that is not among the listed ones keeps its value. -/
theorem mem_of_mem_differing_flipAll {a b : Assignment} {vs : List Nat} (hsize : b.size = a.size)
    (hval : ∀ u, b.valueD u = (a.valueD u ^^ (vs.count u % 2 == 1))) {u : Nat} (hu : u ∈ a.differing b) :
    u ∈ vs := by
  have hodd := ((mem_differing_flipAll hsize hval).1 hu).2
  exact List.count_pos_iff.1 (by omega)

theorem pairwise_differing (a b : Assignment) : (a.differing b).Pairwise (· < ·) :=
  List.pairwise_lt_range.sublist List.filter_sublist

/-- Variables that are listed once each are just the ones that change. -/
theorem mergeSort_eq_differing {a b : Assignment} {vs : List Nat} (hsize : b.size = a.size)
    (hval : ∀ u, b.valueD u = (a.valueD u ^^ (vs.count u % 2 == 1))) (hlt : ∀ v ∈ vs, v < a.size)
    (hnd : vs.Nodup) : vs.mergeSort (· ≤ ·) = a.differing b := by
  have hperm : vs.Perm (a.differing b) := by
    refine (List.perm_ext_iff_of_nodup hnd ((pairwise_differing a b).imp Nat.ne_of_lt)).2 fun u => ?_
    rw [mem_differing_flipAll hsize hval]
    constructor
    · intro hu
      exact ⟨hlt u hu, by rw [hnd.count, if_pos hu]⟩
    · intro hu
      exact List.count_pos_iff.1 (by omega)
  have hsorted : (vs.mergeSort (· ≤ ·)).Pairwise fun u v => decide (u ≤ v) = true :=
    List.pairwise_mergeSort (by simpa using fun _ _ _ => Nat.le_trans) (by simpa using Nat.le_total) vs
  have hdiffering : (a.differing b).Pairwise fun u v => decide (u ≤ v) = true :=
    (pairwise_differing a b).imp fun hlt => decide_eq_true (Nat.le_of_lt hlt)
  refine List.Perm.eq_of_pairwise ?_ hsorted hdiffering ((List.mergeSort_perm vs _).trans hperm)
  intro u v _ _ huv hvu
  exact Nat.le_antisymm (of_decide_eq_true huv) (of_decide_eq_true hvu)

end Assignment

end SatSearch
