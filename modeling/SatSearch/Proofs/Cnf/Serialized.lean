import SatSearch.Cnf.Json
import SatSearch.Proofs.Cnf.Evaluation
import SatSearch.Proofs.Json.Printed
/-!
# Formulas and assignments read back

A literal, a clause, a formula and an assignment are each made of what JSON text says in full, so both forms of
their text are read as what was written (`Formula.json_exact`). The number of variables is in none of these texts:
only a list of clauses is read as a formula, and the number is one more than the largest variable of those.
-/

namespace SatSearch

open Json (Value parse?)

/-- What is read back item by item is read back as a list. -/
theorem mapM_map_of_forall {α : Type} {write : α → Value} {read : Value → Option α} : ∀ {xs : List α},
    (∀ x ∈ xs, read (write x) = some x) → (xs.map write).mapM read = some xs
  | [], _ => rfl
  | x :: xs, h => by
    obtain ⟨hx, hxs⟩ := List.forall_mem_cons.1 h
    simp [hx, mapM_map_of_forall hxs]

theorem faithful_array_map {α : Type} {write : α → Value} (h : ∀ x, (write x).Faithful) (xs : List α) :
    (Value.array (xs.map write)).Faithful := by
  refine .array fun v hv => ?_
  obtain ⟨x, -, rfl⟩ := List.mem_map.1 hv
  exact h x

/-! ## Literals and clauses -/

theorem Literal.faithful_toJson (l : Literal) : l.toJson.Faithful := by
  refine .object fun m hm => ?_
  rcases List.mem_cons.1 hm with rfl | hm
  · exact .count l.var
  · obtain rfl := List.mem_singleton.1 hm
    exact .bool l.polarity

theorem count?_ofNat {n : Nat} (h : n < Numeral.countLimit) : (Value.ofNat n).count? = some n := by
  rw [Value.ofNat, Value.count?, Numeral.toList_toString, Numeral.digits?_toDigits, Option.filter_some]
  simpa using h

theorem Literal.ofJson?_toJson {l : Literal} (h : l.var < Numeral.countLimit) : ofJson? l.toJson = some l := by
  have hfields : l.toJson.fields? ["var", "polarity"] = some [some (.ofNat l.var), some (.bool l.polarity)] := by
    simp [toJson, Value.ofMembers, Value.fields?, Value.membersNamed]
  simp [ofJson?, hfields, count?_ofNat h, Value.bool?]

theorem Clause.faithful_toJson (c : Clause) : c.toJson.Faithful :=
  faithful_array_map Literal.faithful_toJson c.literals

theorem Clause.ofJson?_toJson {c : Clause} (h : ∀ l ∈ c.literals, l.var < Numeral.countLimit) :
    ofJson? c.toJson = some c := by
  have hread := mapM_map_of_forall fun l hl => Literal.ofJson?_toJson (h l hl)
  simp [ofJson?, toJson, Value.items?, hread]

theorem Clause.maxVar?_eq_some_iff {c : Clause} {n : Nat} :
    c.maxVar? = some n ↔ (∃ l ∈ c.literals, l.var = n) ∧ ∀ l ∈ c.literals, l.var ≤ n := by
  rw [maxVar?, List.max?_eq_some_iff, List.mem_map]
  simp

theorem Clause.exists_maxVar? {c : Clause} {l : Literal} (h : l ∈ c.literals) : ∃ n, c.maxVar? = some n := by
  cases hmax : c.maxVar? with
  | none =>
    rw [maxVar?, List.max?_eq_none_iff, List.map_eq_nil_iff] at hmax
    rw [hmax] at h
    cases h
  | some n => exact ⟨n, rfl⟩

/-! ## Assignments -/

namespace Assignment

theorem faithful_toJson (a : Assignment) : a.toJson.Faithful := faithful_array_map .bool a.toList

theorem ofJson?_toJson (a : Assignment) : ofJson? a.toJson = some a := by
  have hread : (a.toList.map Value.bool).mapM Value.bool? = some a.toList := mapM_map_of_forall fun _ _ => rfl
  rw [ofJson?, toJson, Value.items?, Option.bind_eq_bind, Option.bind_some, hread]
  rfl

end Assignment

/-! ## Formulas -/

namespace Formula

variable {f g : Formula}

theorem faithful_toJson (f : Formula) : f.toJson.Faithful :=
  faithful_array_map Clause.faithful_toJson f.clauses.toList

theorem ofClauses_clauses (f : Formula) : ofClauses f.clauses = f := by
  obtain ⟨clauses, numVars, rfl⟩ := f
  rfl

theorem ofJson?_toJson (h : ∀ v ∈ f.vars, v < Numeral.countLimit) : ofJson? f.toJson = some f := by
  have hread : (f.clauses.toList.map Clause.toJson).mapM Clause.ofJson? = some f.clauses.toList := by
    refine mapM_map_of_forall fun c hc => Clause.ofJson?_toJson fun l hl => ?_
    exact h l.var (mem_vars_iff.2 ⟨c, Array.mem_toList_iff.1 hc, l, hl, rfl⟩)
  simp [ofJson?, toJson, Value.items?, hread, ofClauses_clauses]

/-- The number of variables is one more than the largest that occurs, or zero. -/
theorem numVars_eq_max? (f : Formula) : f.numVars = f.vars.max?.elim 0 (· + 1) := by
  cases h : f.vars.max? with
  | none =>
    have hnil := List.max?_eq_none_iff.1 h
    refine Nat.le_zero.1 (numVars_le_iff.2 fun c hc l hl => ?_)
    have hmem := mem_vars_iff.2 ⟨c, hc, l, hl, rfl⟩
    rw [hnil] at hmem
    cases hmem
  | some m =>
    obtain ⟨hmem, hle⟩ := List.max?_eq_some_iff.1 h
    obtain ⟨c, hc, l, hl, rfl⟩ := mem_vars_iff.1 hmem
    refine Nat.le_antisymm (numVars_le_iff.2 fun c' hc' l' hl' => ?_) (var_lt hc hl)
    exact Nat.lt_succ_of_le (hle _ (mem_vars_iff.2 ⟨c', hc', l', hl', rfl⟩))

/-- The largest variable that occurs is the largest of those that are the largest in their clauses. -/
theorem max?_vars (f : Formula) : f.vars.max? = (f.clauses.toList.filterMap Clause.maxVar?).max? := by
  -- a clause in which a variable occurs has a largest one
  have hlargest : ∀ v ∈ f.vars, ∃ n ∈ f.clauses.toList.filterMap Clause.maxVar?, v ≤ n := by
    intro v hv
    obtain ⟨c, hc, l, hl, rfl⟩ := mem_vars_iff.1 hv
    obtain ⟨n, hn⟩ := Clause.exists_maxVar? hl
    exact ⟨n, List.mem_filterMap.2 ⟨c, Array.mem_toList_iff.2 hc, hn⟩, (Clause.maxVar?_eq_some_iff.1 hn).2 l hl⟩
  cases hmax : (f.clauses.toList.filterMap Clause.maxVar?).max? with
  | none =>
    have hnone := List.max?_eq_none_iff.1 hmax
    refine List.max?_eq_none_iff.2 (List.eq_nil_iff_forall_not_mem.2 fun v hv => ?_)
    obtain ⟨n, hn, -⟩ := hlargest v hv
    rw [hnone] at hn
    cases hn
  | some n =>
    obtain ⟨hn, hle⟩ := List.max?_eq_some_iff.1 hmax
    obtain ⟨c, hc, hcn⟩ := List.mem_filterMap.1 hn
    obtain ⟨⟨l, hl, rfl⟩, -⟩ := Clause.maxVar?_eq_some_iff.1 hcn
    refine List.max?_eq_some_iff.2 ⟨mem_vars_iff.2 ⟨c, Array.mem_toList_iff.1 hc, l, hl, rfl⟩, fun v hv => ?_⟩
    obtain ⟨n', hn', hv'⟩ := hlargest v hv
    exact Nat.le_trans hv' (hle n' hn')

/-- So the number of variables can be counted clause by clause. -/
theorem numVars_eq_maxVar? (f : Formula) :
    f.numVars = (f.clauses.toList.filterMap Clause.maxVar?).max?.elim 0 (· + 1) := by
  rw [numVars_eq_max?, max?_vars]

/-- Only a list is read as a formula, and only for the clauses that are its items. -/
theorem ofJson?_eq_some_iff {v : Value} : ofJson? v = some f ↔
    ∃ items, v = .array items ∧ items.mapM Clause.ofJson? = some f.clauses.toList := by
  constructor
  · intro h
    obtain ⟨items, hitems, h⟩ := Option.bind_eq_some_iff.1 h
    obtain ⟨clauses, hclauses, h⟩ := Option.bind_eq_some_iff.1 h
    cases h
    cases v with
    | array items' =>
      cases hitems
      exact ⟨items, rfl, hclauses⟩
    | _ => cases hitems
  · rintro ⟨items, rfl, hitems⟩
    simp [ofJson?, Value.items?, hitems, ofClauses_clauses]

/-- **Formulas and assignments are read back from their text**, and the number of variables from the clauses. -/
theorem json_exact (f : Formula) (hf : ∀ c ∈ f.clauses, ∀ l ∈ c.literals, l.var < 18446744073709551615)
    (a : Assignment) :
    ((parse? f.toJson.text).bind ofJson? = some f ∧ (parse? f.toJson.indentedText).bind ofJson? = some f) ∧
    ((parse? a.toJson.text).bind Assignment.ofJson? = some a ∧
      (parse? a.toJson.indentedText).bind Assignment.ofJson? = some a) ∧
    f.numVars < 18446744073709551616 ∧
    ∀ text g, (parse? text).bind ofJson? = some g →
      g.numVars = g.vars.max?.elim 0 (· + 1) ∧
        ∃ items, parse? text = some (.array items) ∧ items.mapM Clause.ofJson? = some g.clauses.toList := by
  have hread : ofJson? f.toJson = some f := by
    refine ofJson?_toJson fun v hv => ?_
    obtain ⟨c, hc, l, hl, rfl⟩ := mem_vars_iff.1 hv
    exact Nat.lt_succ_of_lt (hf c hc l hl)
  refine ⟨⟨?_, ?_⟩, ⟨?_, ?_⟩, Nat.lt_succ_of_le (numVars_le_iff.2 hf), fun text g h => ?_⟩
  · rw [Json.parse?_text f.faithful_toJson, Option.bind_some, hread]
  · rw [Json.parse?_indentedText f.faithful_toJson, Option.bind_some, hread]
  · rw [Json.parse?_text a.faithful_toJson, Option.bind_some, a.ofJson?_toJson]
  · rw [Json.parse?_indentedText a.faithful_toJson, Option.bind_some, a.ofJson?_toJson]
  · obtain ⟨v, hv, h⟩ := Option.bind_eq_some_iff.1 h
    obtain ⟨items, rfl, hitems⟩ := ofJson?_eq_some_iff.1 h
    exact ⟨g.numVars_eq_max?, items, hv, hitems⟩

/-- An empty clause, a literal that is repeated and the largest variable there is. -/
def nearLimit : Formula :=
  ofClauses #[⟨[]⟩, ⟨[⟨18446744073709551614, false⟩, ⟨0, true⟩, ⟨0, true⟩]⟩]

theorem json_exact_nearLimit :
    (parse? nearLimit.toJson.text).bind ofJson? = some nearLimit ∧ nearLimit.numVars = 18446744073709551615 ∧
      (parse? (Assignment.toJson ⟨#[true, false]⟩).text).bind Assignment.ofJson? = some ⟨#[true, false]⟩ := by
  obtain ⟨⟨hformula, -⟩, ⟨hassignment, -⟩, -, hread⟩ := json_exact nearLimit (by decide) ⟨#[true, false]⟩
  exact ⟨hformula, (hread _ _ hformula).1.trans (by decide), hassignment⟩

end Formula

end SatSearch
