import SatSearch.Proofs.Random.Draws
import SatSearch.Random.Sample
/-!
# Samples

`Draw.sample n k` gives `k` different numbers below `n` whichever of its three methods it uses
(`meets_sample`). Shuffling only ever permutes the table of all numbers; growing and redrawing add
one number that is not there yet (`IsSample.cons`), and where it is put does not matter.
-/

namespace SatSearch

namespace Draw

/-- `k` different numbers below `n`. -/
structure IsSample (n k : Nat) (xs : List Nat) : Prop where
  length_eq : xs.length = k
  nodup : xs.Nodup
  lt : ∀ x ∈ xs, x < n

theorem IsSample.nil (n : Nat) : IsSample n 0 [] := ⟨rfl, List.nodup_nil, by simp⟩

theorem IsSample.perm {n k : Nat} {xs ys : List Nat} (h : IsSample n k xs) (hp : ys.Perm xs) :
    IsSample n k ys :=
  ⟨hp.length_eq.trans h.length_eq, hp.nodup_iff.2 h.nodup, fun x hx => h.lt x (hp.mem_iff.1 hx)⟩

theorem IsSample.cons {n n' k x : Nat} {xs : List Nat} (h : IsSample n k xs) (hx : x ∉ xs)
    (hn : n ≤ n') (hlt : x < n') : IsSample n' (k + 1) (x :: xs) where
  length_eq := by rw [List.length_cons, h.length_eq]
  nodup := List.nodup_cons.2 ⟨hx, h.nodup⟩
  lt y hy := by
    rcases List.mem_cons.1 hy with rfl | hy
    · exact hlt
    · have := h.lt y hy
      omega

/-! ## Shuffling -/

theorem perm_swapIfInBounds (table : Array Nat) (i j : Nat) :
    (table.swapIfInBounds i j).toList.Perm table.toList := by
  rw [Array.swapIfInBounds_def]
  split
  · split
    · exact (Array.swap_perm _ _).toList
    · exact .refl _
  · exact .refl _

theorem meets_shuffleStart : ∀ (count i : Nat) (table : Array Nat), i + count ≤ table.size →
    (shuffleStart count i table).Meets (fun shuffled => shuffled.toList.Perm table.toList) Endless
  | 0, _, _, _ => .pure (.refl _)
  | count + 1, i, table, h => by
    refine (meets_below .narrow (by omega)).bind fun j _ => ?_
    have hp := perm_swapIfInBounds table i (i + j)
    have hs : (table.swapIfInBounds i (i + j)).size = table.size := hp.length_eq
    refine (meets_shuffleStart count (i + 1) _ (by omega)).mono (fun t ht => ?_) fun _ he => he
    exact ht.trans hp

theorem meets_shuffleDown : ∀ (i : Nat) (table : Array Nat),
    (shuffleDown i table).Meets (fun shuffled => shuffled.toList.Perm table.toList) Endless
  | 0, _ => .pure (.refl _)
  | i + 1, table => by
    refine (meets_below .narrow (by omega)).bind fun j _ => ?_
    refine (meets_shuffleDown i _).mono (fun t ht => ?_) fun _ he => he
    exact ht.trans (perm_swapIfInBounds table (i + 1) j)

/-- The start of a permutation of all numbers below `n`. -/
theorem isSample_take {n k : Nat} {xs : List Nat} (h : k ≤ n) (hp : xs.Perm (List.range n)) :
    IsSample n k (xs.take k) where
  length_eq := by
    rw [List.length_take, hp.length_eq, List.length_range]
    omega
  nodup := (hp.nodup_iff.2 List.nodup_range).sublist (List.take_sublist k xs)
  lt x hx := List.mem_range.1 (hp.mem_iff.1 (List.mem_of_mem_take hx))

/-! ## Growing -/

theorem perm_insertBefore (old new : Nat) (xs : List Nat) :
    (insertBefore old new xs).Perm (new :: xs) := by
  unfold insertBefore
  refine List.perm_middle.trans ?_
  rw [List.takeWhile_append_dropWhile]

theorem meets_grow (short : Bool) : ∀ (count j k : Nat) (drawn : List Nat), IsSample j k drawn →
    (grow short count j drawn).Meets (IsSample (j + count) (k + count)) Endless
  | 0, _, _, _, h => .pure h
  | count + 1, j, k, drawn, h => by
    refine (meets_below .narrow (by omega)).bind fun t ht => ?_
    rw [show j + (count + 1) = j + 1 + count by omega, show k + (count + 1) = k + 1 + count by omega]
    -- the end of the range is new, since all numbers before it came from smaller ranges
    have hj : j ∉ drawn := fun hm => by
      have := h.lt j hm
      omega
    have hend := h.cons hj (Nat.le_succ j) (Nat.lt_succ_self j)
    apply meets_grow
    split
    · split
      · exact hend.perm (perm_insertBefore t j drawn)
      · exact hend.perm List.perm_append_comm
    · next hc =>
      have hnew : t ∉ drawn := fun hm => hc (List.contains_iff_mem.2 hm)
      exact (h.cons hnew (Nat.le_succ j) ht).perm List.perm_append_comm

/-! ## Redrawing -/

theorem meets_redraw (size : WordSize) {bound : Nat} (hb : 0 < bound) :
    ∀ (count k : Nat) (drawn : Array Nat) (seen : Std.HashSet Nat), IsSample bound k drawn.toList →
      (∀ t, t ∈ seen ↔ t ∈ drawn.toList) →
      (redraw size bound count drawn seen).Meets (fun xs => IsSample bound (k + count) xs.toList) Endless
  | 0, _, _, _, h, _ => .pure h
  | count + 1, k, drawn, seen, h, hseen => by
    have hnew : (untilAccepted size fun word =>
        (scaled size bound (fullZone size bound) word).filter fun t => !seen.contains t).Meets
        (fun t => t < bound ∧ t ∉ drawn.toList) Endless := by
      refine meets_untilAccepted fun word t hw ht => ?_
      obtain ⟨hs, hc⟩ := Option.filter_eq_some_iff.1 ht
      refine ⟨scaled_lt hb hw hs, fun hm => ?_⟩
      simp [(hseen t).2 hm] at hc
    refine hnew.bind fun t ht => ?_
    rw [show k + (count + 1) = k + 1 + count by omega]
    apply meets_redraw size hb
    · rw [Array.toList_push]
      exact (h.cons ht.2 (Nat.le_refl _) ht.1).perm List.perm_append_comm
    · intro u
      rw [Std.HashSet.mem_insert, Array.toList_push, List.mem_append, List.mem_singleton, hseen u,
        beq_iff_eq, or_comm, eq_comm]

/-! ## The sample -/

/-- **Sampling is right.** -/
theorem meets_sample {n k : Nat} (h : k ≤ n) : (sample n k).Meets (IsSample n k) Endless := by
  -- nothing is drawn from an empty range, so `redraw` may take its bound to be positive
  have hredraw : ∀ size, (redraw size n k #[] ∅).Meets (fun xs => IsSample n k xs.toList) Endless := by
    intro size
    cases k with
    | zero => exact .pure (.nil n)
    | succ k =>
      have := meets_redraw size (by omega : 0 < n) (k + 1) 0 #[] ∅ (.nil n) (by simp)
      rwa [Nat.zero_add] at this
  have hgrow : ∀ short, (grow short k (n - k) []).Meets (IsSample n k) Endless := by
    intro short
    have := meets_grow short k (n - k) 0 [] (.nil _)
    rwa [Nat.zero_add, Nat.sub_add_cancel h] at this
  unfold sample
  split
  · exact (hredraw .wide).bind fun xs hxs => .pure hxs
  · split
    · refine (meets_shuffleStart k 0 (Array.range n) (by simpa using h)).bind fun table ht => .pure ?_
      rw [Array.toList_range] at ht
      exact isSample_take h ht
    · split
      · exact hgrow true
      · refine (hgrow false).bind fun drawn hd => ?_
        refine (meets_shuffleDown (k - 1) drawn.toArray).bind fun table ht => .pure ?_
        exact hd.perm ht
    · exact (hredraw .narrow).bind fun xs hxs => .pure hxs

end Draw

end SatSearch
