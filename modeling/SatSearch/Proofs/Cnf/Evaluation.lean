import SatSearch.Cnf.Formula
/-!
# Evaluating formulas

The number of variables of a formula is the least bound of its literals (`numVars_le_iff`), so an
assignment of that many variables, which `f.Covers a` says, is never asked for one that it lacks.
Evaluation then agrees with `holds`, the list of unsatisfied clauses has exactly the false ones
(`Covers.unsatisfiedClauses`), and their number and the number of satisfied clauses add up.
-/

namespace SatSearch

theorem foldl_max_le_iff {α : Type} (f : α → Nat) {b : Nat} : ∀ (xs : List α) (n : Nat),
    xs.foldl (fun n x => max n (f x)) n ≤ b ↔ n ≤ b ∧ ∀ x ∈ xs, f x ≤ b
  | [], n => by simp
  | x :: xs, n => by
    rw [List.foldl_cons, foldl_max_le_iff f xs, Nat.max_le, and_assoc, List.forall_mem_cons]

/-- Where the evaluation of a literal comes to an end, no variable beyond the assignment was asked for. -/
theorem Literal.holds_of_isSatisfiedBy {l : Literal} {a : Assignment} {b : Bool}
    (h : l.isSatisfiedBy a = .ok b) : l.holds a = b := by
  unfold isSatisfiedBy Assignment.value at h
  split at h
  · next hv =>
    cases h
    rw [holds, Assignment.valueD, Array.getD_eq_getD_getElem?, entryAt_eq_ok_iff.1 hv, Option.getD_some]
  · cases h

namespace Clause

theorem varBound_le_iff {c : Clause} {b : Nat} : c.varBound ≤ b ↔ ∀ l ∈ c.literals, l.var < b := by
  unfold varBound
  rw [foldl_max_le_iff fun l : Literal => l.var + 1]
  simp only [Nat.zero_le, true_and, Nat.succ_le_iff]

theorem holds_congr {c : Clause} {a b : Assignment}
    (h : ∀ l ∈ c.literals, a.valueD l.var = b.valueD l.var) : c.holds a = c.holds b := by
  unfold holds
  rw [Bool.eq_iff_iff, List.any_eq_true, List.any_eq_true]
  refine exists_congr fun l => and_congr_right fun hl => ?_
  rw [Literal.holds, Literal.holds, h l hl]

theorem anySatisfied_eq_ok {a : Assignment} {b : Bool} : ∀ {ls : List Literal},
    anySatisfied a ls = .ok b → ls.any (·.holds a) = b
  | [], h => Except.ok.inj h
  | l :: ls, h => by
    unfold anySatisfied at h
    split at h
    · next hl =>
      cases h
      rw [List.any_cons, Literal.holds_of_isSatisfiedBy hl, Bool.true_or]
    · next hl => rw [List.any_cons, Literal.holds_of_isSatisfiedBy hl, Bool.false_or, anySatisfied_eq_ok h]
    · cases h

theorem holds_of_isSatisfiedBy {c : Clause} {a : Assignment} {b : Bool} (h : c.isSatisfiedBy a = .ok b) :
    c.holds a = b := anySatisfied_eq_ok h

end Clause

namespace Formula

variable {f : Formula} {a b : Assignment} {c : Clause}

/-- The number of variables is the least bound of all that occur. -/
theorem numVars_le_iff {n : Nat} : f.numVars ≤ n ↔ ∀ c ∈ f.clauses, ∀ l ∈ c.literals, l.var < n := by
  rw [f.numVars_eq, varBound, ← Array.foldl_toList, foldl_max_le_iff Clause.varBound]
  simp [Clause.varBound_le_iff]

theorem var_lt (hc : c ∈ f.clauses) {l : Literal} (hl : l ∈ c.literals) : l.var < f.numVars :=
  numVars_le_iff.1 (Nat.le_refl _) c hc l hl

theorem foldl_length_eq (cs : List Clause) (n : Nat) :
    cs.foldl (fun n c => n + c.length) n = n + (cs.flatMap Clause.literals).length := by
  induction cs generalizing n with
  | nil => simp
  | cons c cs ih =>
    rw [List.foldl_cons, ih, List.flatMap_cons, List.length_append, Nat.add_assoc]
    rfl

theorem numLiterals_eq (f : Formula) : f.numLiterals = (f.clauses.toList.flatMap Clause.literals).length := by
  rw [numLiterals, ← Array.foldl_toList, foldl_length_eq, Nat.zero_add]

/-- The variables of all literals, in the order of the text. -/
def vars (f : Formula) : List Nat := (f.clauses.toList.flatMap Clause.literals).map Literal.var

theorem mem_vars_iff {v : Nat} : v ∈ f.vars ↔ ∃ c ∈ f.clauses, ∃ l ∈ c.literals, l.var = v := by
  simp only [vars, List.mem_map, List.mem_flatMap, Array.mem_toList_iff]
  constructor
  · rintro ⟨l, ⟨c, hc, hl⟩, rfl⟩
    exact ⟨c, hc, l, hl, rfl⟩
  · rintro ⟨c, hc, l, hl, rfl⟩
    exact ⟨l, ⟨c, hc, hl⟩, rfl⟩

/-- The assignment has a value for every variable of the formula. -/
def Covers (f : Formula) (a : Assignment) : Prop := f.numVars ≤ a.size

theorem Covers.isSatisfiedBy (h : f.Covers a) (hc : c ∈ f.clauses) :
    c.isSatisfiedBy a = .ok (c.holds a) :=
  Clause.isSatisfiedBy_of_lt fun _ hl => Nat.lt_of_lt_of_le (var_lt hc hl) h

/-! ## False clauses -/

/-- Clause `i` exists and the assignment does not satisfy it. -/
def Fails (f : Formula) (a : Assignment) (i : Nat) : Prop :=
  ∃ c, f.clauses[i]? = some c ∧ c.isSatisfiedBy a = .ok false

/-- What the evaluation of clause `i` answers. -/
def verdict (f : Formula) (a : Assignment) (i : Nat) : Except Fault Bool :=
  match f.clause i with
  | .ok c => c.isSatisfiedBy a
  | .error e => .error e

theorem verdict_eq_ok_iff {i : Nat} {satisfied : Bool} : f.verdict a i = .ok satisfied ↔
    ∃ c, f.clauses[i]? = some c ∧ c.isSatisfiedBy a = .ok satisfied := by
  unfold verdict
  split
  · next c hc => simp [entryAt_eq_ok_iff.1 hc]
  · next e he =>
    have hnone := Array.getElem?_eq_none (entryAt_eq_error_iff.1 he).1
    simp [hnone]

theorem fails_iff_verdict {i : Nat} : f.Fails a i ↔ f.verdict a i = .ok false := verdict_eq_ok_iff.symm

/-- The assignment satisfies every clause. -/
def SatisfiedBy (f : Formula) (a : Assignment) : Prop := ∀ c ∈ f.clauses, c.isSatisfiedBy a = .ok true

/-- Some assignment of the formula's variables satisfies every clause. -/
def Satisfiable (f : Formula) : Prop := ∃ a : Assignment, a.size = f.numVars ∧ f.SatisfiedBy a

theorem Covers.fails_iff (h : f.Covers a) {i : Nat} :
    f.Fails a i ↔ ∃ c, f.clauses[i]? = some c ∧ c.holds a = false := by
  unfold Fails
  refine exists_congr fun c => and_congr_right fun hc => ?_
  rw [h.isSatisfiedBy (Array.mem_of_getElem? hc), Except.ok.injEq]

theorem Covers.fails_iff_holds (h : f.Covers a) {i : Nat} (hc : f.clauses[i]? = some c) :
    f.Fails a i ↔ c.holds a = false := by
  rw [h.fails_iff, hc]
  simp

theorem Covers.exists_verdict (h : f.Covers a) {i : Nat} (hi : i < f.numClauses) :
    ∃ satisfied, f.verdict a i = .ok satisfied := by
  have hc : f.clauses[i]? = some f.clauses[i] := Array.getElem?_eq_getElem hi
  exact ⟨_, verdict_eq_ok_iff.2 ⟨_, hc, h.isSatisfiedBy (Array.mem_of_getElem? hc)⟩⟩

theorem Fails.lt {i : Nat} (h : f.Fails a i) : i < f.numClauses := by
  obtain ⟨c, hc, -⟩ := h
  exact (Array.getElem?_eq_some_iff.1 hc).1

theorem Covers.satisfiedBy_iff (h : f.Covers a) : f.SatisfiedBy a ↔ ∀ c ∈ f.clauses, c.holds a = true := by
  unfold SatisfiedBy
  refine forall_congr' fun c => forall_congr' fun hc => ?_
  rw [h.isSatisfiedBy hc, Except.ok.injEq]

theorem Covers.satisfiedBy_iff_not_fails (h : f.Covers a) : f.SatisfiedBy a ↔ ∀ i, ¬ f.Fails a i := by
  rw [h.satisfiedBy_iff]
  constructor
  · intro hs i hi
    obtain ⟨c, hc, hf⟩ := h.fails_iff.1 hi
    rw [hs c (Array.mem_of_getElem? hc)] at hf
    cases hf
  · intro hn c hc
    obtain ⟨i, hi⟩ := Array.getElem?_of_mem hc
    cases hb : c.holds a with
    | true => rfl
    | false => exact absurd (h.fails_iff.2 ⟨c, hi, hb⟩) (hn i)

/-! ## Lists of false clauses -/

/-- The indices, counted from `i`, of the clauses of the list that are false. -/
def falseFrom (a : Assignment) (i : Nat) (cs : List Clause) : List Nat :=
  ((cs.zipIdx i).filter fun p => !p.1.holds a).map Prod.snd

theorem mem_falseFrom {i j : Nat} {cs : List Clause} :
    j ∈ falseFrom a i cs ↔ ∃ c, i ≤ j ∧ cs[j - i]? = some c ∧ c.holds a = false := by
  unfold falseFrom
  rw [List.mem_map]
  constructor
  · rintro ⟨⟨c, k⟩, hp, rfl⟩
    obtain ⟨hm, hf⟩ := List.mem_filter.1 hp
    obtain ⟨hle, hc⟩ := List.mem_zipIdx_iff_le_and_getElem?_sub.1 hm
    exact ⟨c, hle, hc, by simpa using hf⟩
  · rintro ⟨c, hle, hc, hf⟩
    refine ⟨(c, j), List.mem_filter.2 ⟨?_, by simp [hf]⟩, rfl⟩
    exact List.mem_zipIdx_iff_le_and_getElem?_sub.2 ⟨hle, hc⟩

/-- The indices come in ascending order. -/
theorem pairwise_falseFrom (a : Assignment) (i : Nat) (cs : List Clause) :
    (falseFrom a i cs).Pairwise (· < ·) := by
  have h : (falseFrom a i cs).Sublist (List.range' i cs.length) := by
    rw [← List.zipIdx_map_snd i cs]
    exact List.filter_sublist.map Prod.snd
  exact (List.pairwise_lt_range' 1).sublist h

theorem length_falseFrom (a : Assignment) : ∀ (i : Nat) (cs : List Clause),
    (falseFrom a i cs).length + cs.countP (·.holds a) = cs.length
  | _, [] => rfl
  | i, c :: cs => by
    have ih := length_falseFrom a (i + 1) cs
    unfold falseFrom at ih ⊢
    rw [List.zipIdx_cons, List.filter_cons, List.countP_cons, List.length_cons]
    cases c.holds a <;> simp at ih ⊢ <;> omega

theorem unsatisfiedFrom_eq : ∀ {cs : List Clause} (i : Nat) (found : Array Nat),
    (∀ c ∈ cs, c.isSatisfiedBy a = .ok (c.holds a)) →
    unsatisfiedFrom a i found cs = .ok (found ++ (falseFrom a i cs).toArray)
  | [], _, _, _ => by simp [unsatisfiedFrom, falseFrom]
  | c :: cs, i, found, h => by
    obtain ⟨hc, hcs⟩ := List.forall_mem_cons.1 h
    rw [unsatisfiedFrom, hc]
    cases hb : c.holds a <;> simp [unsatisfiedFrom_eq _ _ hcs, falseFrom, hb]

theorem isSatisfiedBy_of_unsatisfiedFrom : ∀ {cs : List Clause} {i : Nat} {found found' : Array Nat},
    unsatisfiedFrom a i found cs = .ok found' → ∀ c ∈ cs, c.isSatisfiedBy a = .ok (c.holds a)
  | [], _, _, _, _ => by simp
  | c :: cs, i, found, found', h => by
    unfold unsatisfiedFrom at h
    rw [List.forall_mem_cons]
    split at h
    · next hc => exact ⟨by rw [hc, Clause.holds_of_isSatisfiedBy hc], isSatisfiedBy_of_unsatisfiedFrom h⟩
    · next hc => exact ⟨by rw [hc, Clause.holds_of_isSatisfiedBy hc], isSatisfiedBy_of_unsatisfiedFrom h⟩
    · cases h

/-- What is listed, also for an assignment that is too short but is not asked for what it lacks. -/
theorem unsatisfiedClauses_eq_ok {found : Array Nat} (h : f.unsatisfiedClauses a = .ok found) :
    found.toList = falseFrom a 0 f.clauses.toList := by
  have he := unsatisfiedFrom_eq 0 #[] (isSatisfiedBy_of_unsatisfiedFrom h)
  unfold unsatisfiedClauses at h
  rw [h] at he
  cases he
  simp

theorem countFrom_eq : ∀ {cs : List Clause} {n : Nat}, (∀ c ∈ cs, c.isSatisfiedBy a = .ok (c.holds a)) →
    countFrom a n cs = .ok (n + cs.countP (·.holds a))
  | [], _, _ => rfl
  | c :: cs, n, h => by
    obtain ⟨hc, hcs⟩ := List.forall_mem_cons.1 h
    rw [countFrom, hc, List.countP_cons]
    cases hb : c.holds a
    · exact countFrom_eq hcs
    · simp only [if_true]
      rw [countFrom_eq hcs, Nat.add_assoc, Nat.add_comm 1]

/-- The clauses that the assignment does not satisfy are listed in ascending order and no others. -/
theorem Covers.unsatisfiedClauses (h : f.Covers a) : ∃ found, f.unsatisfiedClauses a = .ok found ∧
    found.toList.Pairwise (· < ·) ∧ ∀ i, i ∈ found.toList ↔ f.Fails a i := by
  have he := unsatisfiedFrom_eq 0 #[] fun c hc => h.isSatisfiedBy (Array.mem_toList_iff.1 hc)
  refine ⟨_, he, ?_, fun i => ?_⟩
  · simpa using pairwise_falseFrom a 0 f.clauses.toList
  · rw [h.fails_iff]
    simp [mem_falseFrom]

/-- The satisfied clauses and the others are all clauses. -/
theorem Covers.countSatisfied (h : f.Covers a) {is : List Nat} (hnd : is.Nodup)
    (his : ∀ i, i ∈ is ↔ f.Fails a i) :
    ∃ n, f.countSatisfied a = .ok n ∧ is.length + n = f.numClauses := by
  have he := countFrom_eq (n := 0) fun c hc => h.isSatisfiedBy (Array.mem_toList_iff.1 hc)
  refine ⟨_, he, ?_⟩
  have hperm : is.Perm (falseFrom a 0 f.clauses.toList) := by
    have hlt := pairwise_falseFrom a 0 f.clauses.toList
    refine (List.perm_ext_iff_of_nodup hnd (hlt.imp Nat.ne_of_lt)).2 fun i => ?_
    rw [his, h.fails_iff]
    simp [mem_falseFrom]
  have hlen := length_falseFrom a 0 f.clauses.toList
  rw [hperm.length_eq, Nat.zero_add, hlen]
  exact Array.length_toList

end Formula

end SatSearch
