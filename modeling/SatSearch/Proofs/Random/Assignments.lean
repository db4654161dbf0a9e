import SatSearch.Cnf.Planted
import SatSearch.Proofs.Random.Draws
/-!
# Random assignments

A random assignment has a value for each of its variables, and only a table that no memory holds
keeps it from being drawn. From one generator a smaller assignment is the start of a larger one
(`random_prefix`), because the values are drawn in order.
-/

namespace SatSearch

namespace Generator

theorem size_bools : ∀ (n : Nat) (drawn : Array Bool) (g : Generator),
    (g.bools n drawn).1.size = drawn.size + n
  | 0, _, _ => rfl
  | n + 1, drawn, g => by
    rw [bools, size_bools n, Array.size_push]
    omega

theorem bools_add : ∀ (m n : Nat) (drawn : Array Bool) (g : Generator),
    g.bools (m + n) drawn = (g.bools m drawn).2.bools n (g.bools m drawn).1
  | 0, n, _, _ => by rw [Nat.zero_add, bools]
  | m + 1, n, drawn, g => by
    rw [Nat.succ_add]
    exact bools_add m n (drawn.push g.nextBool.1) g.nextBool.2

/-- What was drawn before stays where it is. -/
theorem take_bools : ∀ (n : Nat) (drawn : Array Bool) (g : Generator),
    (g.bools n drawn).1.toList.take drawn.size = drawn.toList
  | 0, drawn, _ => by
    rw [bools, ← Array.length_toList, List.take_length]
  | n + 1, drawn, g => by
    have ih := take_bools n (drawn.push g.nextBool.1) g.nextBool.2
    have h := congrArg (List.take drawn.size) ih
    rw [List.take_take, Array.size_push, Nat.min_eq_left (Nat.le_succ _), Array.toList_push,
      ← Array.length_toList, List.take_left, Array.length_toList] at h
    exact h

end Generator

theorem reserve_eq_error {count entryBytes : Nat} {e : Fault} (h : reserve count entryBytes = .error e) :
    e = .capacityOverflow := by
  unfold reserve at h
  split at h
  · cases h
  · cases h
    rfl

namespace Assignment

theorem random_apply {n : Nat} (h : n ≤ maxTableBytes) (g : Generator) :
    random n g = .ok (⟨(g.bools n #[]).1⟩, (g.bools n #[]).2) := by
  have hr : reserve n 1 = .ok () := if_pos (by rwa [Nat.mul_one])
  unfold random
  rw [hr]
  rfl

theorem meets_random {n : Nat} (h : n ≤ maxTableBytes) {Q : Fault → Prop} :
    (random n).Meets (·.size = n) Q where
  value hd := by
    rw [random_apply h] at hd
    cases hd
    exact (Generator.size_bools n #[] _).trans (Nat.zero_add n)
  fault hd := by
    rw [random_apply h] at hd
    cases hd

theorem le_of_random_eq_ok {n : Nat} {a : Assignment} {g g' : Generator}
    (h : random n g = .ok (a, g')) : n ≤ maxTableBytes := by
  by_cases hle : n ≤ maxTableBytes
  · exact hle
  · have hr : reserve n 1 = .error .capacityOverflow := if_neg (by rwa [Nat.mul_one])
    unfold random at h
    rw [hr] at h
    cases h

/-- No draw goes wrong, only the table may be too large. -/
theorem random_eq_error {n : Nat} {g : Generator} {e : Fault} (h : random n g = .error e) :
    e = .capacityOverflow := by
  rcases Draw.bind_eq_error h with h | ⟨_, g', -, h⟩
  · exact reserve_eq_error (Draw.lift_eq_error h)
  · cases h

theorem size_of_random_eq_ok {n : Nat} {a : Assignment} {g g' : Generator}
    (h : random n g = .ok (a, g')) : a.size = n :=
  (meets_random (Q := fun _ => True) (le_of_random_eq_ok h)).value h

/-- The first `m` values of an assignment. -/
def firstValues (a : Assignment) (m : Nat) : Assignment := ⟨(a.values.toList.take m).toArray⟩

theorem size_firstValues (a : Assignment) {m : Nat} (h : m ≤ a.size) : (a.firstValues m).size = m := by
  rw [firstValues, size, List.size_toArray, List.length_take, Array.length_toList]
  exact Nat.min_eq_left h

theorem valueD_firstValues (a : Assignment) {m v : Nat} (h : v < m) :
    (a.firstValues m).valueD v = a.valueD v := by
  unfold valueD firstValues
  rw [Array.getD_eq_getD_getElem?, Array.getD_eq_getD_getElem?, List.getElem?_toArray,
    List.getElem?_take_of_lt h, Array.getElem?_toList]

/-- A smaller assignment from the same generator is the start of the larger one. -/
theorem random_prefix {m n : Nat} {a : Assignment} {g g' : Generator} (hn : m ≤ n)
    (h : random n g = .ok (a, g')) : ∃ g'', random m g = .ok (a.firstValues m, g'') := by
  have hle : n ≤ maxTableBytes := le_of_random_eq_ok h
  rw [random_apply hle] at h
  cases h
  refine ⟨(g.bools m #[]).2, ?_⟩
  rw [random_apply (Nat.le_trans hn hle)]
  have hsize := Generator.size_bools m #[] g
  have htake := Generator.take_bools (n - m) (g.bools m #[]).1 (g.bools m #[]).2
  rw [← Generator.bools_add, Nat.add_sub_cancel' hn, hsize, Array.size_empty, Nat.zero_add] at htake
  simp only [firstValues, htake]

end Assignment

end SatSearch
