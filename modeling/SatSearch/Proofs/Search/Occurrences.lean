import SatSearch.Proofs.Cnf.Evaluation
import SatSearch.Search.Occurrences
/-!
# The occurrences are exact

`f.occurrencesOf v` says in closed form what the list of a variable has to be: the index of each
clause as often as the clause has a literal of the variable, in clause order. The tables that `build`
makes hold just these lists (`lists_build`), so a clause stands in the list of each of its variables
and in no other (`mem_occurrencesOf`).
-/

namespace SatSearch

/-- The indices, counted from `i`, of the clauses of the list, each once for every literal of `v`. -/
def occurrencesFrom (v i : Nat) (cs : List Clause) : List Nat :=
  (cs.zipIdx i).flatMap fun p => List.replicate (p.1.literals.countP (·.var == v)) p.2

/-- The clauses in which a variable occurs, once for every literal. -/
def Formula.occurrencesOf (f : Formula) (v : Nat) : List Nat := occurrencesFrom v 0 f.clauses.toList

theorem Formula.mem_occurrencesOf {f : Formula} {v i : Nat} :
    i ∈ f.occurrencesOf v ↔ ∃ c, f.clauses[i]? = some c ∧ ∃ l ∈ c.literals, l.var = v := by
  unfold Formula.occurrencesOf occurrencesFrom
  rw [List.mem_flatMap]
  constructor
  · rintro ⟨⟨c, k⟩, hp, hi⟩
    obtain ⟨hne, rfl⟩ := List.mem_replicate.1 hi
    rw [List.mem_zipIdx_iff_getElem?, Array.getElem?_toList] at hp
    obtain ⟨l, hl, hv⟩ := List.countP_pos_iff.1 (Nat.pos_of_ne_zero hne)
    exact ⟨c, hp, l, hl, by simpa using hv⟩
  · rintro ⟨c, hc, l, hl, hv⟩
    refine ⟨(c, i), ?_, List.mem_replicate.2 ⟨?_, rfl⟩⟩
    · rw [List.mem_zipIdx_iff_getElem?, Array.getElem?_toList]
      exact hc
    · exact Nat.ne_of_gt (List.countP_pos_iff.2 ⟨l, hl, by simpa using hv⟩)

/-- One of the listed variables occurs in clause `i`. -/
def Formula.Touches (f : Formula) (vars : List Nat) (i : Nat) : Prop :=
  ∃ v ∈ vars, i ∈ f.occurrencesOf v

namespace Occurrences

variable {lists : Array (Array Nat)} {v : Nat}

/-- The entry of `v` as a list, if there is one. -/
def row? (lists : Array (Array Nat)) (v : Nat) : Option (List Nat) := lists[v]?.map Array.toList

theorem row?_modify (lists : Array (Array Nat)) (u i v : Nat) :
    row? (lists.modify u (·.push i)) v =
      (row? lists v).map (· ++ if u = v then [i] else []) := by
  unfold row?
  rw [Array.getElem?_modify]
  cases lists[v]? <;> by_cases h : u = v <;> simp [h]

theorem row?_addLiterals (i : Nat) : ∀ (ls : List Literal) (lists : Array (Array Nat)),
    row? (ls.foldl (fun lists l => lists.modify l.var (·.push i)) lists) v =
      (row? lists v).map (· ++ List.replicate (ls.countP (·.var == v)) i)
  | [], lists => by simp
  | l :: ls, lists => by
    rw [List.foldl_cons, row?_addLiterals i ls, row?_modify, Option.map_map, List.countP_cons]
    congr 1
    funext is
    by_cases h : l.var = v <;> simp [h, List.replicate_succ]

theorem row?_addClauses : ∀ (cs : List Clause) (i : Nat) (lists : Array (Array Nat)),
    row? (addClauses lists i cs) v = (row? lists v).map (· ++ occurrencesFrom v i cs)
  | [], i, lists => by simp [addClauses, occurrencesFrom]
  | c :: cs, i, lists => by
    rw [addClauses, row?_addClauses cs, addClause, row?_addLiterals, Option.map_map]
    congr 1
    funext is
    simp [occurrencesFrom]

theorem size_addClause (lists : Array (Array Nat)) (i : Nat) (c : Clause) :
    (addClause lists i c).size = lists.size := by
  unfold addClause
  generalize c.literals = ls
  induction ls generalizing lists with
  | nil => rfl
  | cons l ls ih => rw [List.foldl_cons, ih, Array.size_modify]

theorem size_addClauses : ∀ (cs : List Clause) (i : Nat) (lists : Array (Array Nat)),
    (addClauses lists i cs).size = lists.size
  | [], _, _ => rfl
  | c :: cs, i, lists => by rw [addClauses, size_addClauses cs, size_addClause]

/-! ## The built tables -/

variable {f : Formula} {o : Occurrences}

/-- What an accepted formula has, and what its occurrences are. -/
theorem build_eq_ok (h : build f = .ok o) : f.numLiterals ≠ 0 ∧ f.numVars ≤ maxVariables ∧
    o.lists = addClauses (Array.replicate f.numVars #[]) 0 f.clauses.toList := by
  unfold build at h
  split at h
  · cases h
  · next hl =>
    split at h
    · cases h
    · next hv =>
      cases h
      exact ⟨hl, Nat.le_of_not_lt hv, rfl⟩

theorem exists_build (hsome : 0 < f.numLiterals) (hfew : f.numVars ≤ maxVariables) :
    ∃ o, build f = .ok o := by
  refine ⟨⟨addClauses (Array.replicate f.numVars #[]) 0 f.clauses.toList⟩, ?_⟩
  rw [build, if_neg (by omega), if_neg (by omega)]

theorem numVars_build (h : build f = .ok o) : o.numVars = f.numVars := by
  rw [numVars, (build_eq_ok h).2.2, size_addClauses, Array.size_replicate]

theorem lists_build (h : build f = .ok o) (hv : v < f.numVars) :
    ∃ is, o.clausesOf v = .ok is ∧ is.toList = f.occurrencesOf v := by
  have hrow := row?_addClauses f.clauses.toList 0 (Array.replicate f.numVars #[]) (v := v)
  rw [← (build_eq_ok h).2.2] at hrow
  unfold row? at hrow
  rw [Array.getElem?_replicate, if_pos hv] at hrow
  obtain ⟨is, his, hlist⟩ := Option.map_eq_some_iff.1 hrow
  exact ⟨is, entryAt_eq_ok_iff.2 his, by rw [hlist]; exact List.nil_append _⟩

end Occurrences

end SatSearch
