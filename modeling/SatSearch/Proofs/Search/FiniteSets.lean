import Mathlib.Data.Finset.Card
import Mathlib.Data.List.Sort
import SatSearch.Proofs.Search.Membership
/-!
# The set of unsatisfied clauses as a finite set

The member list with its table of places is one way to keep a finite set of clause indices. A `Change`
is an operation on it, and the same change of a `Finset` says what it is to do. Both go through any history of
changes side by side (`History.agree`), and where they are after it, every question to the list is answered
as the finite set answers it (`Holds.shows`).

The order of the members is part of what a seed means, so it is fixed as well: insertion adds at the end,
and removal fills the gap with the last member. Main statement: `history_exact`.
-/

namespace SatSearch

namespace UnsatSet

variable {s t : UnsatSet} {n i p : Nat} {X : Finset Nat}

/-! ## Changes and histories -/

/-- A clause is put in, taken out, or made a member exactly if an assignment does not satisfy it. -/
inductive Change where
  | insert (i : Nat)
  | remove (i : Nat)
  | refresh (f : Formula) (a : Assignment) (i : Nat)

namespace Change

def index : Change → Nat
  | insert i => i
  | remove i => i
  | refresh _ _ i => i

def apply (s : UnsatSet) : Change → Except Fault UnsatSet
  | insert i => (·.1) <$> s.insert i
  | remove i => (·.1) <$> s.remove i
  | refresh f a i => s.refresh f a i

/-- The same change of a finite set; only evaluating the clause can fail. -/
def applyTo (X : Finset Nat) : Change → Except Fault (Finset Nat)
  | insert i => .ok (X ∪ {i})
  | remove i => .ok (X \ {i})
  | refresh f a i => do
    let c ← f.clause i
    let satisfied ← c.isSatisfiedBy a
    pure (if satisfied then X \ {i} else X ∪ {i})

end Change

/-- A set without members, or the set of an assignment. -/
inductive Origin where
  | empty (capacity : Nat)
  | assigned (f : Formula) (a : Assignment)

namespace Origin

def capacity : Origin → Nat
  | empty capacity => capacity
  | assigned f _ => f.numClauses

def start : Origin → Except Fault UnsatSet
  | empty capacity => .ok (withCapacity capacity)
  | assigned f a => ofAssignment f a

def elements : Origin → Except Fault (Finset Nat)
  | empty _ => .ok ∅
  | assigned f a => (·.toList.toFinset) <$> f.unsatisfiedClauses a

end Origin

/-- Changes of clauses that the set has room for, one after another. -/
structure History where
  origin : Origin
  changes : List Change
  index_lt : ∀ c ∈ changes, c.index < origin.capacity

namespace History

/-- The set that the operations lead to. -/
def run (h : History) : Except Fault UnsatSet := do
  let s ← h.origin.start
  h.changes.foldlM Change.apply s

/-- The finite set that the same changes lead to. -/
def elements (h : History) : Except Fault (Finset Nat) := do
  let X ← h.origin.elements
  h.changes.foldlM Change.applyTo X

end History

/-! ## Both ways agree -/

/-- The table of places fits the members, and these are the elements of `X`. -/
structure Holds (s : UnsatSet) (n : Nat) (X : Finset Nat) : Prop where
  indexed : s.Indexed n
  mem_iff : ∀ i, i ∈ s.toList ↔ i ∈ X

/-- Both ways end in the same fault, or in a set and its elements. -/
inductive Agree (n : Nat) : Except Fault UnsatSet → Except Fault (Finset Nat) → Prop
  | ok {s : UnsatSet} {X : Finset Nat} : s.Holds n X → Agree n (.ok s) (.ok X)
  | fault (e : Fault) : Agree n (.error e) (.error e)

theorem Holds.insert (h : s.Holds n X) (hi : i < n) : ∃ t, s.insert i = .ok (t, decide (i ∉ X)) ∧
    t.Holds n (X ∪ {i}) := by
  obtain ⟨t, ht, hn, hmem⟩ := insert_spec h.indexed hi
  refine ⟨t, by simpa [h.mem_iff] using ht, hn, fun j => ?_⟩
  rw [hmem, h.mem_iff, Finset.mem_union, Finset.mem_singleton, or_comm]

theorem Holds.remove (h : s.Holds n X) (hi : i < n) : ∃ t, s.remove i = .ok (t, decide (i ∈ X)) ∧
    t.Holds n (X \ {i}) := by
  obtain ⟨t, ht, hn, hmem⟩ := remove_spec h.indexed hi
  refine ⟨t, by simpa [h.mem_iff] using ht, hn, fun j => ?_⟩
  rw [hmem, h.mem_iff, Finset.mem_sdiff, Finset.mem_singleton, and_comm]

theorem Holds.agree_insert (h : s.Holds n X) (hi : i < n) :
    Agree n ((·.1) <$> s.insert i) (.ok (X ∪ {i})) := by
  obtain ⟨t, ht, hholds⟩ := h.insert hi
  rw [ht]
  exact .ok hholds

theorem Holds.agree_remove (h : s.Holds n X) (hi : i < n) :
    Agree n ((·.1) <$> s.remove i) (.ok (X \ {i})) := by
  obtain ⟨t, ht, hholds⟩ := h.remove hi
  rw [ht]
  exact .ok hholds

/-- The step lemma, one case for each kind of change. -/
theorem Holds.agree_apply (h : s.Holds n X) {c : Change} (hc : c.index < n) :
    Agree n (c.apply s) (c.applyTo X) := by
  cases c with
  | insert i => exact h.agree_insert hc
  | remove i => exact h.agree_remove hc
  | refresh f a i =>
    simp only [Change.apply, Change.applyTo, refresh, bind, Except.bind]
    cases f.clause i with
    | error e => exact .fault e
    | ok c =>
      dsimp only
      cases c.isSatisfiedBy a with
      | error e => exact .fault e
      | ok satisfied =>
        cases satisfied with
        | true => exact h.agree_remove hc
        | false => exact h.agree_insert hc

/-- The run lemma: they still agree after any number of changes. -/
theorem Holds.agree_foldlM : ∀ {cs : List Change} {s : UnsatSet} {X : Finset Nat}, s.Holds n X →
    (∀ c ∈ cs, c.index < n) → Agree n (cs.foldlM Change.apply s) (cs.foldlM Change.applyTo X)
  | [], _, _, h, _ => .ok h
  | c :: cs, s, X, h, hlt => by
    obtain ⟨hc, hcs⟩ := List.forall_mem_cons.1 hlt
    have hstep := h.agree_apply hc
    rw [List.foldlM_cons, List.foldlM_cons]
    generalize c.apply s = next at hstep
    generalize c.applyTo X = next' at hstep
    cases hstep with
    | ok hnext => exact hnext.agree_foldlM hcs
    | fault e => exact .fault e

/-! ## Where a history starts -/

/-- New members are appended in the order in which they are inserted. -/
theorem insertAll_of_nodup : ∀ {is : List Nat} {s : UnsatSet}, s.Indexed n → (∀ i ∈ is, i < n) →
    (s.toList ++ is).Nodup → ∃ t, insertAll s is = .ok t ∧ t.Indexed n ∧ t.toList = s.toList ++ is
  | [], s, h, _, _ => ⟨s, rfl, h, by simp⟩
  | i :: is, s, h, hlt, hnd => by
    obtain ⟨hi, his⟩ := List.forall_mem_cons.1 hlt
    have hm : i ∉ s.toList := fun hm => (List.nodup_append.1 hnd).2.2 i hm i (by simp) rfl
    have hinsert := h.insert_of_not_mem hi hm
    have hlist : (UnsatSet.mk (s.members.push i)
        (s.positions.setIfInBounds i (some s.members.size))).toList = s.toList ++ [i] := by simp [toList]
    obtain ⟨t, ht, hn, hmem⟩ := insertAll_of_nodup (h.push hi hm) his (by simpa [hlist] using hnd)
    exact ⟨t, by rw [insertAll, hinsert]; exact ht, hn, by rw [hmem, hlist, List.append_assoc]; rfl⟩

/-- The members of the set of an assignment are listed as evaluation finds them. -/
theorem ofAssignment_of_ok {f : Formula} {a : Assignment} {found : Array Nat}
    (h : f.unsatisfiedClauses a = .ok found) : found.toList.Pairwise (· < ·) ∧
      ∃ s, ofAssignment f a = .ok s ∧ s.Indexed f.numClauses ∧ s.toList = found.toList := by
  have hfound := Formula.unsatisfiedClauses_eq_ok h
  have hlt : found.toList.Pairwise (· < ·) := by
    rw [hfound]
    exact Formula.pairwise_falseFrom a 0 _
  have hrange : ∀ i ∈ found.toList, i < f.numClauses := by
    intro i hi
    rw [hfound, Formula.mem_falseFrom] at hi
    obtain ⟨c, -, hc, -⟩ := hi
    simpa [Formula.numClauses] using (List.getElem?_eq_some_iff.1 hc).1
  obtain ⟨s, hs, hn, hlist⟩ := insertAll_of_nodup (indexed_withCapacity f.numClauses) hrange
    (hlt.imp Nat.ne_of_lt)
  exact ⟨hlt, s, by rw [ofAssignment, h]; exact hs, hn, hlist⟩

theorem ofAssignment_of_error {f : Formula} {a : Assignment} {e : Fault}
    (h : f.unsatisfiedClauses a = .error e) : ofAssignment f a = .error e := by
  rw [ofAssignment, h]

theorem Origin.agree (o : Origin) : Agree o.capacity o.start o.elements := by
  cases o with
  | empty n => exact .ok ⟨indexed_withCapacity n, by simp [withCapacity, toList]⟩
  | assigned f a =>
    rw [start, elements]
    cases hfound : f.unsatisfiedClauses a with
    | error e =>
      rw [ofAssignment_of_error hfound]
      exact .fault e
    | ok found =>
      obtain ⟨-, s, hs, hn, hlist⟩ := ofAssignment_of_ok hfound
      rw [hs]
      exact .ok ⟨hn, fun i => by rw [hlist, List.mem_toFinset]⟩

theorem History.agree (h : History) : Agree h.origin.capacity h.run h.elements := by
  have hstart := h.origin.agree
  unfold run elements
  generalize h.origin.start = start at hstart
  generalize h.origin.elements = elements at hstart
  cases hstart with
  | ok hholds => exact hholds.agree_foldlM h.index_lt
  | fault e => exact .fault e

theorem History.holds_of_run {h : History} (hs : h.run = .ok s) :
    ∃ X, h.elements = .ok X ∧ s.Holds h.origin.capacity X := by
  have hagree := h.agree
  rw [hs] at hagree
  generalize h.elements = elements at hagree
  cases hagree with
  | ok hholds => exact ⟨_, rfl, hholds⟩

theorem History.run_eq_error_iff {h : History} {e : Fault} : h.run = .error e ↔ h.elements = .error e := by
  have hagree := h.agree
  generalize h.run = result at hagree
  generalize h.elements = elements at hagree
  cases hagree with
  | ok _ => simp
  | fault e' => simp

/-! ## What the set shows -/

theorem toList_dropAt_last {members : Array Nat} {before : List Nat} (h : members.toList = before ++ [i]) :
    (dropAt members before.length).toList = before := by
  simp [dropAt, h]

theorem toList_dropAt_inner {members : Array Nat} {before after : List Nat} {last : Nat}
    (h : members.toList = before ++ i :: (after ++ [last])) :
    (dropAt members before.length).toList = before ++ last :: after := by
  have hlast : members.getD (members.size - 1) 0 = last := by
    rw [Array.getD_eq_getD_getElem?, ← Array.getElem?_toList, ← Array.length_toList, h]
    simp
  have hset : (before ++ i :: (after ++ [last])).set before.length last =
      (before ++ last :: after) ++ [last] := by simp
  rw [dropAt, hlast, Array.toList_pop, Array.toList_setIfInBounds, h, hset, List.dropLast_concat]

theorem getElem?_members {before after : List Nat} (h : s.toList = before ++ i :: after) :
    s.members[before.length]? = some i := by
  rw [← Array.getElem?_toList, show s.members.toList = before ++ i :: after from h]
  simp

/-- The member list fixes the table of places. -/
theorem Indexed.eq_of_toList_eq (hs : s.Indexed n) (ht : t.Indexed n) (h : s.toList = t.toList) : s = t := by
  obtain ⟨members, places⟩ := s
  obtain ⟨members', places'⟩ := t
  obtain rfl : members = members' := Array.toList_inj.1 h
  suffices hplaces : places = places' by rw [hplaces]
  apply Array.ext_getElem?
  intro i
  by_cases hi : i < n
  · by_cases hm : i ∈ members.toList
    · obtain ⟨p, hp⟩ := hs.mem_iff.1 hm
      rw [hp, (ht.place_iff i p).2 ((hs.place_iff i p).1 hp)]
    · rw [hs.absent hi hm, ht.absent hi hm]
  · rw [Array.getElem?_eq_none, Array.getElem?_eq_none]
    · exact Nat.le_trans (Nat.le_of_eq ht.size_positions) (Nat.le_of_not_lt hi)
    · exact Nat.le_trans (Nat.le_of_eq hs.size_positions) (Nat.le_of_not_lt hi)

/-- What the operations tell of a set with room for `n` clauses whose elements are those of `X`, and what
they do to the order of its members. -/
structure Shows (s : UnsatSet) (n : Nat) (X : Finset Nat) : Prop where
  contains : ∀ i < n, s.contains i = .ok (decide (i ∈ X))
  insert : ∀ i < n, ∃ t, s.insert i = .ok (t, decide (i ∉ X)) ∧
    t.toList = if i ∈ X then s.toList else s.toList ++ [i]
  remove : ∀ i < n, ∃ t, s.remove i = .ok (t, decide (i ∈ X)) ∧ (i ∉ X → t = s) ∧
    (∀ before, s.toList = before ++ [i] → t.toList = before) ∧
    ∀ before after last, s.toList = before ++ i :: (after ++ [last]) → t.toList = before ++ last :: after
  size : s.size = X.card
  toSortedList : s.toSortedList.Pairwise (· < ·) ∧ s.toSortedList.toFinset = X
  choose : ∀ g drawn g', s.choose g = .ok (drawn, g') →
    (drawn = none ↔ X = ∅) ∧ ∀ i, drawn = some i → i ∈ X
  choose_fault : ∀ g e, s.choose g = .error e → e = .endlessDraw

theorem Holds.toFinset_eq (h : s.Holds n X) : s.toList.toFinset = X := by
  ext i
  rw [List.mem_toFinset, h.mem_iff]

theorem Holds.contains (h : s.Holds n X) (hi : i < n) : s.contains i = .ok (decide (i ∈ X)) := by
  rw [h.indexed.contains_eq hi]
  simp only [h.mem_iff]

theorem Holds.insert_order (h : s.Holds n X) (hi : i < n) : ∃ t, s.insert i = .ok (t, decide (i ∉ X)) ∧
    t.toList = if i ∈ X then s.toList else s.toList ++ [i] := by
  by_cases hX : i ∈ X
  · refine ⟨s, ?_, by rw [if_pos hX]⟩
    rw [h.indexed.insert_of_mem ((h.mem_iff i).2 hX), decide_eq_false (not_not_intro hX)]
  · have hm : i ∉ s.toList := fun hm => hX ((h.mem_iff i).1 hm)
    refine ⟨_, by rw [h.indexed.insert_of_not_mem hi hm, decide_eq_true hX], ?_⟩
    rw [if_neg hX, toList, Array.toList_push, toList]

theorem Holds.remove_order (h : s.Holds n X) (hi : i < n) : ∃ t, s.remove i = .ok (t, decide (i ∈ X)) ∧
    (i ∉ X → t = s) ∧ (∀ before, s.toList = before ++ [i] → t.toList = before) ∧
    ∀ before after last, s.toList = before ++ i :: (after ++ [last]) → t.toList = before ++ last :: after := by
  by_cases hX : i ∈ X
  · obtain ⟨p, hp⟩ := mem_toList_iff.1 ((h.mem_iff i).2 hX)
    obtain ⟨places, hremove, -⟩ := h.indexed.remove_eq hp
    refine ⟨_, by rw [hremove, decide_eq_true hX], fun hn => absurd hX hn, fun before hs => ?_,
      fun before after last hs => ?_⟩
    · rw [h.indexed.place_unique hp (getElem?_members hs)]
      exact toList_dropAt_last hs
    · rw [h.indexed.place_unique hp (getElem?_members hs)]
      exact toList_dropAt_inner hs
  · have hm : i ∉ s.toList := fun hm => hX ((h.mem_iff i).1 hm)
    refine ⟨s, by rw [h.indexed.remove_of_not_mem hi hm, decide_eq_false hX], fun _ => rfl, fun before hs => ?_,
      fun before after last hs => ?_⟩
    · exact absurd (by rw [hs]; simp) hm
    · exact absurd (by rw [hs]; simp) hm

theorem Holds.toSortedList (h : s.Holds n X) :
    s.toSortedList.Pairwise (· < ·) ∧ s.toSortedList.toFinset = X := by
  have hperm : s.toSortedList.Perm s.toList := List.mergeSort_perm _ _
  have hle : s.toSortedList.Pairwise (· ≤ ·) := List.pairwise_mergeSort' (· ≤ ·) s.toList
  refine ⟨?_, by rw [List.toFinset_eq_of_perm _ _ hperm, h.toFinset_eq]⟩
  have hne : s.toSortedList.Pairwise (· ≠ ·) := hperm.nodup_iff.2 h.indexed.nodup
  exact (hle.and hne).imp fun hij => Nat.lt_of_le_of_ne hij.1 hij.2

theorem Holds.shows (h : s.Holds n X) : s.Shows n X where
  contains _ := h.contains
  insert _ := h.insert_order
  remove _ := h.remove_order
  size := by
    rw [← h.toFinset_eq, List.toFinset_card_of_nodup h.indexed.nodup]
    exact Array.length_toList.symm
  toSortedList := h.toSortedList
  choose g drawn g' hdrawn := by
    obtain ⟨hnone, hsome⟩ := s.meets_choose.value hdrawn
    refine ⟨?_, fun i hi => (h.mem_iff i).1 (hsome i hi)⟩
    rw [hnone, isEmpty_iff, Finset.eq_empty_iff_forall_notMem]
    exact forall_congr' fun i => not_congr (h.mem_iff i)
  choose_fault _ _ he := s.meets_choose.fault he

/-- **The list of members is a finite set.** A history leads to a set exactly if the same changes of a
finite set do, and then the set shows what the finite set holds. Two sets with room for the same clauses are
equal exactly if they list the same members in the same order. The set of an assignment starts with the
clauses that evaluation finds false, in ascending order. -/
theorem history_exact (h : History) :
    (∀ e, h.run = .error e ↔ h.elements = .error e) ∧
    (∀ s, h.run = .ok s → ∃ X, h.elements = .ok X ∧ s.Shows h.origin.capacity X ∧
      ∀ (h' : History) s', h'.origin.capacity = h.origin.capacity → h'.run = .ok s' →
        (s = s' ↔ s.toList = s'.toList)) ∧
    ∀ f a found, f.unsatisfiedClauses a = .ok found → found.toList.Pairwise (· < ·) ∧
      ∃ s, (Origin.assigned f a).start = .ok s ∧ s.toList = found.toList := by
  refine ⟨fun e => History.run_eq_error_iff, fun s hs => ?_, fun f a found hfound => ?_⟩
  · obtain ⟨X, hX, hholds⟩ := History.holds_of_run hs
    refine ⟨X, hX, hholds.shows, fun h' s' hcapacity hs' => ⟨fun heq => by rw [heq], fun hlist => ?_⟩⟩
    obtain ⟨X', -, hholds'⟩ := History.holds_of_run hs'
    rw [hcapacity] at hholds'
    exact hholds.indexed.eq_of_toList_eq hholds'.indexed hlist
  · obtain ⟨hlt, s, hs, -, hlist⟩ := ofAssignment_of_ok hfound
    exact ⟨hlt, s, hs, hlist⟩

/-- Three clauses, of which the first two are false at the start, and changes that lead back there. -/
def backAndForth : History where
  origin := .assigned (.ofClauses #[⟨[⟨0, true⟩]⟩, ⟨[]⟩, ⟨[⟨0, false⟩]⟩]) (.allFalse 1)
  changes :=
    [.insert 2, .remove 0, .refresh (.ofClauses #[⟨[⟨0, true⟩]⟩]) (.allFalse 1) 0, .insert 2,
      .refresh (.ofClauses #[⟨[]⟩, ⟨[]⟩, ⟨[⟨0, false⟩]⟩]) (.allFalse 1) 2]
  index_lt := by decide

theorem history_exact_backAndForth : ∃ s, backAndForth.run = .ok s ∧ s.toList = [0, 1] ∧
    s.Shows 3 {0, 1} := by
  have hrun : backAndForth.run = .ok ⟨#[0, 1], #[some 0, some 1, none]⟩ := by decide
  obtain ⟨X, hX, hshows, -⟩ := (history_exact backAndForth).2.1 _ hrun
  obtain ⟨Y, hY, helements⟩ := exists_eq_ok_of_map (x := backAndForth.elements)
    (f := fun X => decide (X = {0, 1})) (b := true) (by decide +kernel)
  rw [hX] at hY
  cases hY
  rw [of_decide_eq_true helements] at hshows
  exact ⟨_, hrun, rfl, hshows⟩

end UnsatSet

end SatSearch
