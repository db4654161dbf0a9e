import Mathlib.Order.Bounds.Basic
import SatSearch.Cnf.Valence
import SatSearch.Proofs.Cnf.Evaluation
import SatSearch.Text.Numeral
/-!
# What evaluation asks for

A clause is read from left to right up to its first true literal, so an assignment may lack a variable
and still be evaluated, as long as no clause comes to it (`Clause.Reaches`). `f.Evaluates a` says that none
does. Where it holds, more values behind the others change nothing, and the results are what the
literals say; where an assignment covers the formula, it holds. Main statement: `evaluation_exact`.
-/

namespace SatSearch

variable {a b : Assignment} {l : Literal} {c : Clause} {f : Formula}

/-! ## Values -/

namespace Assignment

/-- What an assignment has a value for keeps it when others are appended. -/
theorem value_of_prefix (h : a.toList <+: b.toList) {v : Nat} (hv : v < a.size) : b.value v = a.value v := by
  obtain ⟨rest, hrest⟩ := h
  have hb : b.values.toList = a.values.toList ++ rest := hrest.symm
  have hget : b.values[v]? = a.values[v]? := by
    rw [← Array.getElem?_toList, hb, List.getElem?_append_left (by simpa [size] using hv),
      Array.getElem?_toList]
  simp only [size] at hv
  simp [value, entryAt, hget, hv]

end Assignment

/-! ## Literals and clauses -/

namespace Literal

theorem isSatisfiedBy_congr (h : a.value l.var = b.value l.var) : l.isSatisfiedBy a = l.isSatisfiedBy b := by
  simp [isSatisfiedBy, h]

theorem var_lt_of_isSatisfiedBy {x : Bool} (h : l.isSatisfiedBy a = .ok x) : l.var < a.size := by
  unfold isSatisfiedBy Assignment.value at h
  split at h
  · next hv => exact (Array.getElem?_eq_some_iff.1 (entryAt_eq_ok_iff.1 hv)).1
  · cases h

theorem isSatisfiedBy_of_prefix (h : a.toList <+: b.toList) {x : Bool} (hx : l.isSatisfiedBy a = .ok x) :
    l.isSatisfiedBy b = .ok x := by
  rw [← hx]
  exact isSatisfiedBy_congr (Assignment.value_of_prefix h (var_lt_of_isSatisfiedBy hx))

end Literal

namespace Clause

theorem anySatisfied_congr : ∀ {ls : List Literal}, (∀ l ∈ ls, l.isSatisfiedBy a = l.isSatisfiedBy b) →
    anySatisfied a ls = anySatisfied b ls
  | [], _ => rfl
  | l :: ls, h => by
    obtain ⟨hl, hls⟩ := List.forall_mem_cons.1 h
    simp only [anySatisfied, hl, anySatisfied_congr hls]

theorem isSatisfiedBy_congr (h : ∀ l ∈ c.literals, a.value l.var = b.value l.var) :
    c.isSatisfiedBy a = c.isSatisfiedBy b :=
  anySatisfied_congr fun l hl => Literal.isSatisfiedBy_congr (h l hl)

/-- A clause is evaluated up to its first true literal, and that far no variable may be missing. -/
theorem anySatisfied_of_prefix (h : a.toList <+: b.toList) {x : Bool} : ∀ {ls : List Literal},
    anySatisfied a ls = .ok x → anySatisfied b ls = .ok x
  | [], hx => hx
  | l :: ls, hx => by
    unfold anySatisfied at hx ⊢
    split at hx
    · next hl =>
      rw [Literal.isSatisfiedBy_of_prefix h hl]
      exact hx
    · next hl =>
      rw [Literal.isSatisfiedBy_of_prefix h hl]
      exact anySatisfied_of_prefix h hx
    · cases hx

theorem isSatisfiedBy_of_prefix (h : a.toList <+: b.toList) {x : Bool} (hx : c.isSatisfiedBy a = .ok x) :
    c.isSatisfiedBy b = .ok x := anySatisfied_of_prefix h hx

/-- All literals in front of `l` are false, so that evaluation comes to it. -/
def Reaches (c : Clause) (a : Assignment) (l : Literal) : Prop :=
  ∃ before after, c.literals = before ++ l :: after ∧ ∀ k ∈ before, k.isSatisfiedBy a = .ok false

theorem anySatisfied_ok_iff : ∀ {ls : List Literal}, (∃ x, anySatisfied a ls = .ok x) ↔
    ∀ before l after, ls = before ++ l :: after → (∀ k ∈ before, k.isSatisfiedBy a = .ok false) →
      l.var < a.size
  | [] => by simp [anySatisfied]
  | l :: ls => by
    constructor
    · rintro ⟨x, hx⟩ before k after hls hbefore
      unfold anySatisfied at hx
      cases before with
      | nil =>
        obtain ⟨rfl, -⟩ := List.cons_eq_cons.1 hls
        split at hx
        · next hl => exact Literal.var_lt_of_isSatisfiedBy hl
        · next hl => exact Literal.var_lt_of_isSatisfiedBy hl
        · cases hx
      | cons l' before =>
        obtain ⟨rfl, rfl⟩ := List.cons_eq_cons.1 hls
        obtain ⟨hl, hbefore⟩ := List.forall_mem_cons.1 hbefore
        rw [hl] at hx
        exact anySatisfied_ok_iff.1 ⟨x, hx⟩ before k after rfl hbefore
    · intro h
      have hl := Literal.isSatisfiedBy_of_lt (h [] l ls rfl (by simp))
      unfold anySatisfied
      rw [hl]
      cases hv : l.holds a with
      | true => exact ⟨true, rfl⟩
      | false =>
        rw [hv] at hl
        refine anySatisfied_ok_iff.2 fun before k after hls hbefore => ?_
        exact h (l :: before) k after (by rw [hls]; rfl) (List.forall_mem_cons.2 ⟨hl, hbefore⟩)

theorem isSatisfiedBy_ok_iff : (∃ x, c.isSatisfiedBy a = .ok x) ↔ ∀ l, c.Reaches a l → l.var < a.size := by
  unfold isSatisfiedBy
  rw [anySatisfied_ok_iff]
  constructor
  · rintro h l ⟨before, after, hls, hbefore⟩
    exact h before l after hls hbefore
  · intro h before l after hls hbefore
    exact h l ⟨before, after, hls, hbefore⟩

theorem anySatisfied_eq_false_iff : ∀ {ls : List Literal},
    anySatisfied a ls = .ok false ↔ ∀ l ∈ ls, l.isSatisfiedBy a = .ok false
  | [] => by simp [anySatisfied]
  | l :: ls => by
    rw [List.forall_mem_cons, ← anySatisfied_eq_false_iff, anySatisfied]
    split <;> simp_all

theorem exists_of_anySatisfied : ∀ {ls : List Literal},
    anySatisfied a ls = .ok true → ∃ l ∈ ls, l.isSatisfiedBy a = .ok true
  | [], h => by simp [anySatisfied] at h
  | l :: ls, h => by
    unfold anySatisfied at h
    split at h
    · next hl => exact ⟨l, by simp, hl⟩
    · obtain ⟨k, hk, htrue⟩ := exists_of_anySatisfied h
      exact ⟨k, by simp [hk], htrue⟩
    · cases h

/-- Of a clause that is evaluated, the result is false exactly if no literal is true. -/
theorem isSatisfiedBy_eq_false_iff {x : Bool} (h : c.isSatisfiedBy a = .ok x) :
    x = false ↔ ∀ l ∈ c.literals, l.isSatisfiedBy a ≠ .ok true := by
  constructor
  · rintro rfl l hl htrue
    rw [anySatisfied_eq_false_iff.1 h l hl] at htrue
    cases htrue
  · intro hnone
    cases x with
    | false => rfl
    | true =>
      obtain ⟨l, hl, htrue⟩ := exists_of_anySatisfied h
      exact absurd htrue (hnone l hl)

end Clause

/-! ## Formulas -/

namespace Formula

theorem unsatisfiedFrom_congr : ∀ {cs : List Clause} {i : Nat} {found : Array Nat},
    (∀ c ∈ cs, c.isSatisfiedBy a = c.isSatisfiedBy b) → unsatisfiedFrom a i found cs = unsatisfiedFrom b i found cs
  | [], _, _, _ => rfl
  | c :: cs, i, found, h => by
    obtain ⟨hc, hcs⟩ := List.forall_mem_cons.1 h
    simp only [unsatisfiedFrom, hc, unsatisfiedFrom_congr hcs]

theorem countFrom_congr : ∀ {cs : List Clause} {n : Nat},
    (∀ c ∈ cs, c.isSatisfiedBy a = c.isSatisfiedBy b) → countFrom a n cs = countFrom b n cs
  | [], _, _ => rfl
  | c :: cs, n, h => by
    obtain ⟨hc, hcs⟩ := List.forall_mem_cons.1 h
    simp only [countFrom, hc, countFrom_congr hcs]

/-- Assignments that every clause finds alike are alike for the formula. -/
theorem evaluation_congr (h : ∀ c ∈ f.clauses, c.isSatisfiedBy a = c.isSatisfiedBy b) :
    f.unsatisfiedClauses a = f.unsatisfiedClauses b ∧ f.countSatisfied a = f.countSatisfied b ∧
    Objective.valence f a = Objective.valence f b := by
  have hlist : ∀ c ∈ f.clauses.toList, c.isSatisfiedBy a = c.isSatisfiedBy b :=
    fun c hc => h c (Array.mem_toList_iff.1 hc)
  have hcount : f.countSatisfied a = f.countSatisfied b := countFrom_congr hlist
  refine ⟨unsatisfiedFrom_congr hlist, hcount, ?_⟩
  simp only [Objective.valence, hcount]

/-- No clause comes to a variable that the assignment lacks. -/
def Evaluates (f : Formula) (a : Assignment) : Prop := ∀ c ∈ f.clauses, ∃ x, c.isSatisfiedBy a = .ok x

theorem Covers.evaluates (h : f.Covers a) : f.Evaluates a := fun _ hc => ⟨_, h.isSatisfiedBy hc⟩

theorem Evaluates.isSatisfiedBy (h : f.Evaluates a) : ∀ c ∈ f.clauses.toList, c.isSatisfiedBy a = .ok (c.holds a) := by
  intro c hc
  obtain ⟨x, hx⟩ := h c (Array.mem_toList_iff.1 hc)
  rw [hx, Clause.holds_of_isSatisfiedBy hx]

theorem evaluates_of_unsatisfiedClauses {found : Array Nat} (h : f.unsatisfiedClauses a = .ok found) :
    f.Evaluates a := fun c hc =>
  ⟨_, isSatisfiedBy_of_unsatisfiedFrom h c (Array.mem_toList_iff.2 hc)⟩

theorem isSatisfiedBy_of_countFrom : ∀ {cs : List Clause} {n m : Nat},
    countFrom a n cs = .ok m → ∀ c ∈ cs, ∃ x, c.isSatisfiedBy a = .ok x
  | [], _, _, _ => by simp
  | c :: cs, n, m, h => by
    unfold countFrom at h
    rw [List.forall_mem_cons]
    split at h
    · next hc => exact ⟨⟨true, hc⟩, isSatisfiedBy_of_countFrom h⟩
    · next hc => exact ⟨⟨false, hc⟩, isSatisfiedBy_of_countFrom h⟩
    · cases h

theorem evaluates_of_countSatisfied {n : Nat} (h : f.countSatisfied a = .ok n) : f.Evaluates a := fun c hc =>
  isSatisfiedBy_of_countFrom h c (Array.mem_toList_iff.2 hc)

/-- The list and the count are there together, and make up all clauses. -/
theorem Evaluates.results (h : f.Evaluates a) : ∃ found n, f.unsatisfiedClauses a = .ok found ∧
    f.countSatisfied a = .ok n ∧ found.size + n = f.numClauses := by
  refine ⟨_, _, unsatisfiedFrom_eq 0 #[] h.isSatisfiedBy, countFrom_eq h.isSatisfiedBy, ?_⟩
  have hlength := length_falseFrom a 0 f.clauses.toList
  simpa [numClauses] using hlength

theorem exists_unsatisfiedClauses_iff : (∃ found, f.unsatisfiedClauses a = .ok found) ↔ f.Evaluates a := by
  constructor
  · rintro ⟨found, hfound⟩
    exact evaluates_of_unsatisfiedClauses hfound
  · intro h
    obtain ⟨found, -, hfound, -⟩ := h.results
    exact ⟨found, hfound⟩

theorem exists_countSatisfied_iff : (∃ n, f.countSatisfied a = .ok n) ↔ f.Evaluates a := by
  constructor
  · rintro ⟨n, hn⟩
    exact evaluates_of_countSatisfied hn
  · intro h
    obtain ⟨-, n, -, hn, -⟩ := h.results
    exact ⟨n, hn⟩

theorem Evaluates.of_prefix (h : f.Evaluates a) (hab : a.toList <+: b.toList) :
    ∀ c ∈ f.clauses, c.isSatisfiedBy b = c.isSatisfiedBy a := by
  intro c hc
  obtain ⟨x, hx⟩ := h c hc
  rw [hx, Clause.isSatisfiedBy_of_prefix hab hx]

theorem Evaluates.mem_iff (h : f.Evaluates a) {found : Array Nat} (hfound : f.unsatisfiedClauses a = .ok found)
    (i : Nat) : i ∈ found.toList ↔
      ∃ c, f.clauses[i]? = some c ∧ ∀ l ∈ c.literals, l.isSatisfiedBy a ≠ .ok true := by
  rw [unsatisfiedClauses_eq_ok hfound, mem_falseFrom]
  refine exists_congr fun c => ?_
  simp only [Nat.zero_le, true_and, Nat.sub_zero, Array.getElem?_toList]
  refine and_congr_right fun hc => ?_
  obtain ⟨x, hx⟩ := h c (Array.mem_of_getElem? hc)
  rw [Clause.holds_of_isSatisfiedBy hx]
  exact Clause.isSatisfiedBy_eq_false_iff hx

theorem isLeast_numVars (f : Formula) : IsLeast {n | ∀ c ∈ f.clauses, ∀ l ∈ c.literals, l.var < n} f.numVars :=
  ⟨fun _ hc _ hl => var_lt hc hl, fun _ hn => numVars_le_iff.2 hn⟩

/-- **What evaluation asks for.** The number of variables is the least bound of those that occur, and it fits a
64-bit word if the variables leave room for it. An assignment of that many values is never asked for one that it
lacks, and two that answer alike below that number have the same unsatisfied clauses, the same count and the
same valence. A shorter assignment is evaluated exactly if no clause comes to a variable that it lacks; whatever
is appended to it then, the results stay. They are the strictly ascending list of the clauses without
a true literal, and the number of all the other clauses. -/
theorem evaluation_exact (f : Formula) :
    IsLeast {n | ∀ c ∈ f.clauses, ∀ l ∈ c.literals, l.var < n} f.numVars ∧
    ((∀ c ∈ f.clauses, ∀ l ∈ c.literals, l.var < Numeral.countLimit - 1) → f.numVars < Numeral.countLimit) ∧
    (∀ a, f.numVars ≤ a.size → ∃ found n, f.unsatisfiedClauses a = .ok found ∧ f.countSatisfied a = .ok n) ∧
    (∀ a b, (∀ v < f.numVars, a.value v = b.value v) →
      f.unsatisfiedClauses a = f.unsatisfiedClauses b ∧ f.countSatisfied a = f.countSatisfied b ∧
      Objective.valence f a = Objective.valence f b) ∧
    (∀ a, ((∃ found, f.unsatisfiedClauses a = .ok found) ↔ ∃ n, f.countSatisfied a = .ok n) ∧
      ((∃ found, f.unsatisfiedClauses a = .ok found) ↔ ∀ c ∈ f.clauses, ∀ l, c.Reaches a l → l.var < a.size)) ∧
    ∀ a found, f.unsatisfiedClauses a = .ok found →
      (∀ b, a.toList <+: b.toList → f.unsatisfiedClauses b = .ok found ∧
        f.countSatisfied b = f.countSatisfied a ∧ Objective.valence f b = Objective.valence f a) ∧
      found.toList.Pairwise (· < ·) ∧
      (∀ i, i ∈ found.toList ↔ ∃ c, f.clauses[i]? = some c ∧ ∀ l ∈ c.literals, l.isSatisfiedBy a ≠ .ok true) ∧
      ∃ n, f.countSatisfied a = .ok n ∧ found.size + n = f.numClauses := by
  refine ⟨isLeast_numVars f, fun h => ?_, fun a h => ?_, fun a b h => ?_, fun a => ?_, fun a found hfound => ?_⟩
  · have hle : f.numVars ≤ Numeral.countLimit - 1 := numVars_le_iff.2 h
    have hlimit : Numeral.countLimit = 18446744073709551616 := rfl
    omega
  · obtain ⟨found, n, hfound, hn, -⟩ := (Covers.evaluates h).results
    exact ⟨found, n, hfound, hn⟩
  · apply evaluation_congr
    intro c hc
    apply Clause.isSatisfiedBy_congr
    intro l hl
    exact h l.var (var_lt hc hl)
  · rw [exists_unsatisfiedClauses_iff, exists_countSatisfied_iff]
    refine ⟨Iff.rfl, ?_⟩
    exact forall_congr' fun c => forall_congr' fun _ => Clause.isSatisfiedBy_ok_iff
  · have heval := evaluates_of_unsatisfiedClauses hfound
    refine ⟨fun b hab => ?_, ?_, heval.mem_iff hfound, ?_⟩
    · obtain ⟨hlist, hrest⟩ := evaluation_congr (heval.of_prefix hab)
      exact ⟨hlist.trans hfound, hrest⟩
    · rw [unsatisfiedClauses_eq_ok hfound]
      exact pairwise_falseFrom a 0 _
    · obtain ⟨found', n, hfound', hn, hsum⟩ := heval.results
      rw [hfound] at hfound'
      cases hfound'
      exact ⟨n, hn, hsum⟩

/-- A clause whose far variable is not looked at once its first literal is true, and a clause that fails. -/
def farSighted : Formula := .ofClauses #[⟨[⟨0, true⟩, ⟨5, true⟩]⟩, ⟨[⟨1, false⟩, ⟨1, false⟩]⟩]

theorem evaluation_exact_farSighted :
    (∀ c ∈ farSighted.clauses, ∀ l ∈ c.literals, l.var < Numeral.countLimit - 1) ∧
    farSighted.numVars < Numeral.countLimit ∧
    farSighted.unsatisfiedClauses ⟨#[true, true]⟩ = .ok #[1] ∧
    farSighted.unsatisfiedClauses ⟨#[true, true, false]⟩ = .ok #[1] ∧
    (∃ n, farSighted.countSatisfied ⟨#[true, true]⟩ = .ok n ∧ #[1].size + n = 2) ∧
    (∃ found n, farSighted.unsatisfiedClauses (.allFalse 6) = .ok found ∧
      farSighted.countSatisfied (.allFalse 6) = .ok n) ∧
    farSighted.unsatisfiedClauses (.allFalse 6) = farSighted.unsatisfiedClauses ⟨#[false, false, false, false,
      false, false, true]⟩ := by
  obtain ⟨-, hfits, hcovers, hagree, -, hshort⟩ := evaluation_exact farSighted
  have hvars : ∀ c ∈ farSighted.clauses, ∀ l ∈ c.literals, l.var < Numeral.countLimit - 1 := by decide
  have hfound : farSighted.unsatisfiedClauses ⟨#[true, true]⟩ = .ok #[1] := rfl
  obtain ⟨hextends, -, -, hcount⟩ := hshort _ _ hfound
  obtain ⟨hlong, -⟩ := hextends ⟨#[true, true, false]⟩ ⟨[false], rfl⟩
  refine ⟨hvars, hfits hvars, hfound, hlong, hcount, hcovers _ (by decide), (hagree _ _ ?_).1⟩
  decide

end Formula

end SatSearch
