import SatSearch.Proofs.Cnf.Evaluation
import SatSearch.Proofs.Random.Draws
import SatSearch.Search.UnsatSet
/-!
# Membership in the set of unsatisfied clauses

The member list and the table of places describe one finite set as long as each is the inverse of
the other, which is what `Indexed` says. Every operation keeps this: insertion adds one member,
removal takes one away although it moves another, and `refreshAll` decides the membership of
the clauses it is given and of no others (`refreshAll_spec`).
-/

namespace SatSearch

namespace UnsatSet

/-- The table holds the place of each member, and nothing for the clauses that are not members. -/
structure Indexed (s : UnsatSet) (capacity : Nat) : Prop where
  size_positions : s.positions.size = capacity
  place_iff : ∀ i p : Nat, s.positions[i]? = some (some p) ↔ s.members[p]? = some i

variable {s t : UnsatSet} {n i j p q : Nat}

theorem mem_toList_iff : i ∈ s.toList ↔ ∃ p : Nat, s.members[p]? = some i := by
  unfold toList
  rw [Array.mem_toList_iff, Array.mem_iff_getElem?]

namespace Indexed

theorem mem_iff (h : s.Indexed n) : i ∈ s.toList ↔ ∃ p, s.positions[i]? = some (some p) := by
  rw [mem_toList_iff]
  exact exists_congr fun p => (h.place_iff i p).symm

theorem lt_of_mem (h : s.Indexed n) (hi : i ∈ s.toList) : i < n := by
  obtain ⟨p, hp⟩ := h.mem_iff.1 hi
  rw [← h.size_positions]
  exact (Array.getElem?_eq_some_iff.1 hp).1

theorem clause_ne_error {f : Formula} (h : s.Indexed f.numClauses) (hi : i ∈ s.toList) (e : Fault) :
    f.clause i ≠ .error e := by
  intro he
  have hle := (entryAt_eq_error_iff.1 he).1
  have hlt : i < f.clauses.size := h.lt_of_mem hi
  omega

theorem place_unique (h : s.Indexed n) (hp : s.members[p]? = some i) (hq : s.members[q]? = some i) :
    p = q := by
  have e := (h.place_iff i p).2 hp
  rw [(h.place_iff i q).2 hq] at e
  cases e
  rfl

theorem nodup (h : s.Indexed n) : s.toList.Nodup := by
  rw [List.nodup_iff_pairwise_ne, List.pairwise_iff_getElem]
  intro p q hp hq hpq e
  have hp' : s.members[p]? = some s.toList[p] := by simp [toList]
  have hq' : s.members[q]? = some s.toList[q] := by simp [toList]
  rw [e] at hp'
  have := h.place_unique hp' hq'
  omega

/-- The entry of a clause that is not a member is empty. -/
theorem absent (h : s.Indexed n) (hi : i < n) (hm : i ∉ s.toList) : s.positions[i]? = some none := by
  have hlt : i < s.positions.size := by rw [h.size_positions]; exact hi
  rw [Array.getElem?_eq_getElem hlt]
  cases hp : s.positions[i] with
  | none => rfl
  | some p => exact absurd (h.mem_iff.2 ⟨p, by rw [Array.getElem?_eq_getElem hlt, hp]⟩) hm

theorem contains_eq (h : s.Indexed n) (hi : i < n) : s.contains i = .ok (decide (i ∈ s.toList)) := by
  unfold contains
  by_cases hm : i ∈ s.toList
  · obtain ⟨p, hp⟩ := h.mem_iff.1 hm
    rw [entryAt_eq_ok_iff.2 hp, decide_eq_true hm]
    rfl
  · rw [entryAt_eq_ok_iff.2 (h.absent hi hm), decide_eq_false hm]
    rfl

end Indexed

/-! ## Insertion -/

theorem indexed_withCapacity (n : Nat) : (withCapacity n).Indexed n where
  size_positions := Array.size_replicate
  place_iff i p := by simp [withCapacity, Array.getElem?_replicate]

theorem Indexed.push (h : s.Indexed n) (hi : i < n) (hm : i ∉ s.toList) :
    (UnsatSet.mk (s.members.push i) (s.positions.setIfInBounds i (some s.members.size))).Indexed n where
  size_positions := by rw [Array.size_setIfInBounds, h.size_positions]
  place_iff j p := by
    have hlt : i < s.positions.size := by rw [h.size_positions]; exact hi
    have hno : s.members[p]? ≠ some i := fun hp => hm (mem_toList_iff.2 ⟨p, hp⟩)
    rw [Array.getElem?_push, Array.getElem?_setIfInBounds]
    by_cases hj : i = j
    · subst hj
      by_cases hp : p = s.members.size <;> simp [hp, hlt, hno, eq_comm]
    · rw [if_neg hj, h.place_iff]
      by_cases hp : p = s.members.size <;> simp [hp, hj]

theorem Indexed.insert_of_not_mem (h : s.Indexed n) (hi : i < n) (hm : i ∉ s.toList) :
    s.insert i = .ok (⟨s.members.push i, s.positions.setIfInBounds i (some s.members.size)⟩, true) := by
  have he : entryAt s.positions i = .ok none := entryAt_eq_ok_iff.2 (h.absent hi hm)
  simp [insert, he]

theorem Indexed.insert_of_mem (h : s.Indexed n) (hm : i ∈ s.toList) : s.insert i = .ok (s, false) := by
  obtain ⟨p, hp⟩ := h.mem_iff.1 hm
  simp [insert, entryAt_eq_ok_iff.2 hp]

theorem insert_spec (h : s.Indexed n) (hi : i < n) : ∃ t, s.insert i = .ok (t, decide (i ∉ s.toList)) ∧
    t.Indexed n ∧ ∀ j, j ∈ t.toList ↔ j = i ∨ j ∈ s.toList := by
  by_cases hm : i ∈ s.toList
  · refine ⟨s, by rw [h.insert_of_mem hm, decide_eq_false (not_not_intro hm)], h, fun j => ⟨.inr, ?_⟩⟩
    rintro (rfl | hj)
    · exact hm
    · exact hj
  · refine ⟨_, by rw [h.insert_of_not_mem hi hm, decide_eq_true hm], h.push hi hm, fun j => ?_⟩
    simp [toList, or_comm]

theorem insertAll_spec : ∀ {is : List Nat} {s : UnsatSet}, s.Indexed n → (∀ i ∈ is, i < n) →
    ∃ t, insertAll s is = .ok t ∧ t.Indexed n ∧ ∀ j, j ∈ t.toList ↔ j ∈ is ∨ j ∈ s.toList
  | [], s, h, _ => ⟨s, rfl, h, by simp⟩
  | i :: is, s, h, hlt => by
    obtain ⟨hi, his⟩ := List.forall_mem_cons.1 hlt
    obtain ⟨t, ht, hn, hmem⟩ := insert_spec h hi
    obtain ⟨u, hu, hn', hmem'⟩ := insertAll_spec hn his
    refine ⟨u, by rw [insertAll, ht]; exact hu, hn', fun j => ?_⟩
    rw [hmem', hmem, List.mem_cons]
    constructor
    · rintro (h1 | h1 | h1)
      · exact .inl (.inr h1)
      · exact .inl (.inl h1)
      · exact .inr h1
    · rintro ((h1 | h1) | h1)
      · exact .inr (.inl h1)
      · exact .inl h1
      · exact .inr (.inr h1)

theorem indexed_of_insertAll (is : List Nat) (hlt : ∀ i ∈ is, i < n) (h : insertAll (withCapacity n) is = .ok s) :
    s.Indexed n := by
  obtain ⟨t, ht, hn, -⟩ := insertAll_spec (indexed_withCapacity n) hlt
  rw [h] at ht
  cases ht
  exact hn

/-! ## Removal -/

/-- Entry `q` after the last entry has taken the place `p`. -/
theorem getElem?_dropAt {members : Array Nat} (hp : p < members.size) :
    (dropAt members p)[q]? =
      if q + 1 < members.size then if q = p then members[members.size - 1]? else members[q]? else none := by
  have hlast : members[members.size - 1]? = some (members.getD (members.size - 1) 0) := by
    simp [Array.getD_eq_getD_getElem?, show members.size - 1 < members.size by omega]
  unfold dropAt
  rw [Array.getElem?_pop, Array.size_setIfInBounds, Array.getElem?_setIfInBounds]
  by_cases hq : q + 1 < members.size
  · rw [if_pos (by omega), if_pos hq]
    by_cases hqp : p = q
    · rw [if_pos hqp, if_pos hp, if_pos hqp.symm, hlast]
    · rw [if_neg hqp, if_neg (Ne.symm hqp)]
  · rw [if_neg (by omega), if_neg hq]

/-- The last member leaves no gap. -/
theorem Indexed.drop_last (h : s.Indexed n) (hp : s.members[p]? = some i) (hend : s.members.size = p + 1) :
    (UnsatSet.mk (dropAt s.members p) (s.positions.setIfInBounds i none)).Indexed n where
  size_positions := by simp [h.size_positions]
  place_iff j q := by
    have hi : i < s.positions.size := by
      rw [h.size_positions]
      exact h.lt_of_mem (mem_toList_iff.2 ⟨p, hp⟩)
    rw [getElem?_dropAt (by omega), Array.getElem?_setIfInBounds]
    by_cases hji : i = j
    · subst hji
      have hq : s.members[q]? = some i → q = p := fun hq => h.place_unique hq hp
      grind
    · rw [if_neg hji, h.place_iff]
      have hq : s.members[q]? = some j → q < s.members.size ∧ q ≠ p := by
        intro hm
        refine ⟨(Array.getElem?_eq_some_iff.1 hm).1, ?_⟩
        rintro rfl
        rw [hp] at hm
        exact hji (Option.some.inj hm)
      grind

/-- Another member leaves a gap, which the last one takes over. -/
theorem Indexed.drop_moved (h : s.Indexed n) (hp : s.members[p]? = some i) (hend : p + 1 < s.members.size)
    {last : Nat} (hlast : s.members[s.members.size - 1]? = some last) :
    (UnsatSet.mk (dropAt s.members p)
      ((s.positions.setIfInBounds last (some p)).setIfInBounds i none)).Indexed n where
  size_positions := by simp [h.size_positions]
  place_iff j q := by
    have hi : i < s.positions.size := by
      rw [h.size_positions]
      exact h.lt_of_mem (mem_toList_iff.2 ⟨p, hp⟩)
    have hlast' : last < s.positions.size := by
      rw [h.size_positions]
      exact h.lt_of_mem (mem_toList_iff.2 ⟨_, hlast⟩)
    have hne : i ≠ last := by
      rintro rfl
      have := h.place_unique hp hlast
      omega
    rw [getElem?_dropAt (by omega), Array.getElem?_setIfInBounds, Array.getElem?_setIfInBounds]
    by_cases hji : i = j
    · subst hji
      -- no place but `p` held `i`, and `last` is there now
      have hq : q ≠ p → s.members[q]? ≠ some i := fun hqp hq => hqp (h.place_unique hq hp)
      by_cases hqp : q = p
      · subst hqp
        simp [hi, hlast, hne.symm]
      · simpa [hi, hqp] using fun _ => hq hqp
    · by_cases hjl : last = j
      · subst hjl
        have hq : q + 1 < s.members.size → s.members[q]? ≠ some last := by
          intro hq hm
          have := h.place_unique hm hlast
          omega
        by_cases hqp : q = p
        · subst hqp
          simp [hji, hlast', hend, hlast]
        · simpa [hji, hlast', hqp, Ne.symm hqp] using hq
      · rw [if_neg hji, if_neg hjl, h.place_iff]
        have hq : s.members[q]? = some j → q + 1 < s.members.size ∧ q ≠ p := by
          intro hm
          have hqlt := (Array.getElem?_eq_some_iff.1 hm).1
          constructor
          · by_cases he : q = s.members.size - 1
            · rw [he, hlast] at hm
              exact absurd (Option.some.inj hm) hjl
            · omega
          · rintro rfl
            rw [hp] at hm
            exact hji (Option.some.inj hm)
        grind

/-- What removing the member `i` from place `p` leaves: the table, and the list in which the last
member stands at `p` now. -/
theorem Indexed.remove_eq (h : s.Indexed n) (hp : s.members[p]? = some i) :
    ∃ positions, s.remove i = .ok (⟨dropAt s.members p, positions⟩, true) ∧
      (UnsatSet.mk (dropAt s.members p) positions).Indexed n := by
  have hlt : p < s.members.size := (Array.getElem?_eq_some_iff.1 hp).1
  have he : entryAt s.positions i = .ok (some p) := entryAt_eq_ok_iff.2 ((h.place_iff i p).2 hp)
  by_cases hend : p + 1 < s.members.size
  · obtain ⟨last, hlast⟩ : ∃ last, s.members[s.members.size - 1]? = some last :=
      ⟨_, Array.getElem?_eq_getElem (by omega)⟩
    have hmoved : (dropAt s.members p)[p]? = some last := by
      rw [getElem?_dropAt hlt, if_pos hend, if_pos rfl, hlast]
    have hposition : last < s.positions.size := by
      rw [h.size_positions]
      exact h.lt_of_mem (mem_toList_iff.2 ⟨_, hlast⟩)
    exact ⟨_, by simp [remove, he, hlt, hmoved, hposition], h.drop_moved hp hend hlast⟩
  · have hnone : (dropAt s.members p)[p]? = none := by
      rw [getElem?_dropAt hlt, if_neg hend]
    exact ⟨_, by simp only [remove, he, if_pos hlt, hnone], h.drop_last hp (by omega)⟩

theorem Indexed.mem_drop (h : s.Indexed n) (hp : s.members[p]? = some i) :
    j ∈ (dropAt s.members p).toList ↔ j ≠ i ∧ j ∈ s.toList := by
  have hlt : p < s.members.size := (Array.getElem?_eq_some_iff.1 hp).1
  rw [mem_toList_iff, Array.mem_toList_iff, Array.mem_iff_getElem?]
  constructor
  · rintro ⟨q, hq⟩
    rw [getElem?_dropAt hlt] at hq
    split at hq
    · split at hq
      · refine ⟨?_, _, hq⟩
        rintro rfl
        have := h.place_unique hp hq
        omega
      · next hqp =>
        refine ⟨?_, q, hq⟩
        rintro rfl
        exact hqp (h.place_unique hq hp)
    · cases hq
  · rintro ⟨hne, q, hq⟩
    have hqlt := (Array.getElem?_eq_some_iff.1 hq).1
    have hqp : q ≠ p := by
      rintro rfl
      rw [hp] at hq
      exact hne (Option.some.inj hq).symm
    by_cases hend : q + 1 < s.members.size
    · exact ⟨q, by rw [getElem?_dropAt hlt, if_pos hend, if_neg hqp, hq]⟩
    · refine ⟨p, ?_⟩
      rw [getElem?_dropAt hlt, if_pos (by omega), if_pos rfl, ← hq]
      congr 1
      omega

theorem Indexed.remove_of_not_mem (h : s.Indexed n) (hi : i < n) (hm : i ∉ s.toList) :
    s.remove i = .ok (s, false) := by
  have he : entryAt s.positions i = .ok none := entryAt_eq_ok_iff.2 (h.absent hi hm)
  simp [remove, he]

theorem remove_spec (h : s.Indexed n) (hi : i < n) : ∃ t, s.remove i = .ok (t, decide (i ∈ s.toList)) ∧
    t.Indexed n ∧ ∀ j, j ∈ t.toList ↔ j ≠ i ∧ j ∈ s.toList := by
  by_cases hm : i ∈ s.toList
  · obtain ⟨p, hp⟩ := mem_toList_iff.1 hm
    obtain ⟨positions, hremove, hindexed⟩ := h.remove_eq hp
    rw [decide_eq_true hm]
    exact ⟨_, hremove, hindexed, fun j => h.mem_drop hp⟩
  · have hremove := h.remove_of_not_mem hi hm
    refine ⟨s, by rw [hremove, decide_eq_false hm], h, fun j => ⟨fun hj => ⟨?_, hj⟩, And.right⟩⟩
    rintro rfl
    exact hm hj

/-! ## Refreshing -/

variable {f : Formula} {a : Assignment}

theorem refresh_eq (s : UnsatSet) (f : Formula) (a : Assignment) (i : Nat) : s.refresh f a i =
    match f.verdict a i with
    | .ok true => (·.1) <$> s.remove i
    | .ok false => (·.1) <$> s.insert i
    | .error e => .error e := by
  unfold refresh Formula.verdict
  cases f.clause i with
  | error e => rfl
  | ok c =>
    dsimp only
    cases c.isSatisfiedBy a with
    | error e => rfl
    | ok satisfied => cases satisfied <;> rfl

/-- A clause that evaluation has an answer for becomes a member exactly if the answer is no. -/
theorem refresh_of_verdict (h : s.Indexed n) (hi : i < n) {satisfied : Bool}
    (hv : f.verdict a i = .ok satisfied) : ∃ t, s.refresh f a i = .ok t ∧ t.Indexed n ∧
      ∀ j, j ∈ t.toList ↔ (j = i ∧ satisfied = false) ∨ (j ≠ i ∧ j ∈ s.toList) := by
  rw [refresh_eq, hv]
  cases satisfied with
  | true =>
    obtain ⟨t, ht, hn, hmem⟩ := remove_spec h hi
    refine ⟨t, by rw [ht]; rfl, hn, fun j => ?_⟩
    simp [hmem]
  | false =>
    obtain ⟨t, ht, hn, hmem⟩ := insert_spec h hi
    refine ⟨t, by rw [ht]; rfl, hn, fun j => ?_⟩
    rw [hmem]
    by_cases hj : j = i <;> simp [hj]

theorem refresh_spec (h : s.Indexed f.numClauses) (hc : f.Covers a) (hi : i < f.numClauses) :
    ∃ t, s.refresh f a i = .ok t ∧ t.Indexed f.numClauses ∧
      ∀ j, j ∈ t.toList ↔ (j = i ∧ f.Fails a j) ∨ (j ≠ i ∧ j ∈ s.toList) := by
  obtain ⟨satisfied, hv⟩ := hc.exists_verdict hi
  obtain ⟨t, ht, hn, hmem⟩ := refresh_of_verdict h hi hv
  refine ⟨t, ht, hn, fun j => ?_⟩
  rw [hmem]
  refine or_congr_left (and_congr_right ?_)
  rintro rfl
  rw [Formula.fails_iff_verdict, hv, Except.ok.injEq]

/-- **Refreshing decides the membership of the listed clauses**, however often they are listed, and
leaves the others as they are. -/
theorem refreshAll_spec : ∀ {is : List Nat} {s : UnsatSet}, s.Indexed f.numClauses → f.Covers a →
    (∀ i ∈ is, i < f.numClauses) → ∃ t, refreshAll f a s is = .ok t ∧ t.Indexed f.numClauses ∧
      ∀ j, j ∈ t.toList ↔ (j ∈ is ∧ f.Fails a j) ∨ (j ∉ is ∧ j ∈ s.toList)
  | [], s, h, _, _ => ⟨s, rfl, h, by simp⟩
  | i :: is, s, h, hc, hlt => by
    obtain ⟨hi, his⟩ := List.forall_mem_cons.1 hlt
    obtain ⟨t, ht, hn, hmem⟩ := refresh_spec h hc hi
    obtain ⟨u, hu, hn', hmem'⟩ := refreshAll_spec hn hc his
    refine ⟨u, by rw [refreshAll, ht]; exact hu, hn', fun j => ?_⟩
    rw [hmem', hmem, List.mem_cons]
    by_cases hj : j = i
    · subst hj
      by_cases hjs : j ∈ is <;> simp [hjs]
    · simp [hj]

theorem refreshAll_append : ∀ {is js : List Nat} {s : UnsatSet}, refreshAll f a s (is ++ js) =
    match refreshAll f a s is with
    | .ok t => refreshAll f a t js
    | .error e => .error e
  | [], _, _ => rfl
  | i :: is, js, s => by
    rw [List.cons_append, refreshAll, refreshAll]
    cases s.refresh f a i with
    | error e => rfl
    | ok t => exact refreshAll_append

/-- The set of an assignment has exactly the clauses that it does not satisfy. -/
theorem ofAssignment_spec (hc : f.Covers a) : ∃ t, ofAssignment f a = .ok t ∧
    t.Indexed f.numClauses ∧ ∀ j, j ∈ t.toList ↔ f.Fails a j := by
  obtain ⟨found, hfound, -, hmem⟩ := hc.unsatisfiedClauses
  obtain ⟨t, ht, hn, hmem'⟩ :=
    insertAll_spec (indexed_withCapacity f.numClauses) fun i hi => ((hmem i).1 hi).lt
  refine ⟨t, by rw [ofAssignment, hfound]; exact ht, hn, fun j => ?_⟩
  rw [hmem', hmem]
  simp [withCapacity, toList]

/-! ## Drawing a member -/

theorem isEmpty_iff : s.isEmpty = true ↔ ∀ i, i ∉ s.toList := by
  rw [← List.eq_nil_iff_forall_not_mem, isEmpty, beq_iff_eq, toList, Array.toList_eq_nil_iff]
  exact Array.size_eq_zero_iff

/-- Nothing is drawn from the empty set only, and from every other a member. -/
theorem meets_choose (s : UnsatSet) :
    s.choose.Meets (fun drawn => (drawn = none ↔ s.isEmpty = true) ∧ ∀ i, drawn = some i → i ∈ s.toList)
      Draw.Endless := by
  unfold choose
  split
  · next he => exact .pure ⟨by simp [he], fun i hi => by cases hi⟩
  · next he =>
    have hpos : 0 < s.size := Nat.pos_of_ne_zero fun h0 => he (by rw [isEmpty, h0]; rfl)
    refine (Draw.meets_below .wide hpos).bind fun place hplace => ?_
    obtain ⟨i, hi⟩ : ∃ i, s.members[place]? = some i := ⟨_, Array.getElem?_eq_getElem hplace⟩
    rw [entryAt_eq_ok_iff.2 hi]
    refine Draw.Meets.pure ⟨by simp [he], fun j hj => ?_⟩
    cases hj
    exact mem_toList_iff.2 ⟨place, hi⟩

end UnsatSet

end SatSearch
