import SatSearch.Cnf.Dimacs
import SatSearch.Proofs.Text.Numerals
import SatSearch.Proofs.Text.Tokens
/-!
# What a DIMACS line adds

The tokens of a line settle what it adds (`takeLine_eq_takeTokens`): blanks around it make no
difference, and the look ahead for a character that a number could have passes over no clause. So the
clauses that are read are those of the lines (`toList_clauses_parse`), and each has a literal.
-/

namespace SatSearch

namespace Dimacs

variable {c : Char} {cs : List Char} {k : Clause}

/-- The sizes that the tokens of a header declare. -/
def sizes : (tokens : List (List Char)) → Option Nat × Option Nat
  | [_, _, vars, clauses] => (Numeral.count? vars, Numeral.count? clauses)
  | _ => (none, none)

/-- The clause of tokens that are all numbers, if a literal is left after dropping zeros. -/
def clauseOf? (tokens : List (List Char)) : Option Clause :=
  match tokens.mapM Numeral.signed? with
  | none => none
  | some xs => match xs.filterMap Literal.ofSigned? with
    | [] => none
    | literals => some ⟨literals⟩

/-- Takes in the tokens of a line. -/
def Progress.takeTokens (p : Progress) : (tokens : List (List Char)) → Progress
  | [] => p
  | token :: tokens =>
    if token.head? = some 'c' ∨ token.head? = some '%' then p
    else if token.head? = some 'p' then
      let (vars, clauses) := sizes (token :: tokens)
      { p with declaredVars := vars, declaredClauses := clauses }
    else
      match clauseOf? (token :: tokens) with
      | some clause => { p with clauses := p.clauses.push clause }
      | none => p

theorem header_eq (line : List Char) : header line = sizes (Blank.tokens line) := rfl

theorem clause?_eq (line : List Char) : clause? line = clauseOf? (Blank.tokens line) := rfl

/-- The first token of a line of numbers is a number. -/
theorem signed?_of_clauseOf? {token : List Char} {tokens : List (List Char)}
    (h : clauseOf? (token :: tokens) = some k) : ∃ x, Numeral.signed? token = some x := by
  unfold clauseOf? at h
  cases hx : Numeral.signed? token with
  | some x => exact ⟨x, rfl⟩
  | none => simp [hx] at h

/-- A clause is never passed over for want of a digit. -/
theorem mayHoldNumbers_of_clause? (hc : Blank.isBlank c = false) (h : clause? (c :: cs) = some k) :
    mayHoldNumbers (c :: cs) = true := by
  rw [clause?_eq, Blank.tokens_cons hc] at h
  obtain ⟨x, hx⟩ := signed?_of_clauseOf? h
  obtain ⟨d, ds, hdigit, htoken⟩ := Numeral.exists_digit_of_signed? hx
  have hd : d ∈ c :: (Blank.splitToken cs).1 := by
    rcases htoken with htoken | htoken | htoken <;> simp [htoken]
  have hmem : d ∈ c :: cs :=
    (List.cons_prefix_cons.2 ⟨rfl, Blank.splitToken_isPrefix cs⟩).subset hd
  rw [mayHoldNumbers, List.any_eq_true]
  exact ⟨d, hmem, by simp [hdigit]⟩

/-- The tokens of a line settle what it adds. -/
theorem takeLine_eq_takeTokens (p : Progress) (line : List Char) :
    p.takeLine line = p.takeTokens (Blank.tokens line) := by
  rw [← Blank.tokens_trim, Progress.takeLine]
  cases htrim : Blank.trim line with
  | nil => rfl
  | cons c cs =>
    have hc : Blank.isBlank c = false := Blank.not_isBlank_of_trim htrim
    have htokens : Blank.tokens (c :: cs) = (c :: (Blank.splitToken cs).1) :: (Blank.splitToken cs).2 :=
      Blank.tokens_cons hc
    have hclause : clause? (c :: cs) = clauseOf? (Blank.tokens (c :: cs)) := clause?_eq _
    rw [htokens] at hclause
    simp only [header_eq, htokens, Progress.takeTokens, List.head?_cons, Option.some.injEq, ← hclause]
    cases hadds : clause? (c :: cs) with
    | none => simp
    | some k => simp [mayHoldNumbers_of_clause? hc hadds]

/-- A line of numbers is neither a comment nor a header. -/
theorem takeTokens_of_clauseOf? (p : Progress) {tokens : List (List Char)}
    (h : clauseOf? tokens = some k) : p.takeTokens tokens = { p with clauses := p.clauses.push k } := by
  cases tokens with
  | nil => cases h
  | cons token tokens =>
    obtain ⟨x, hx⟩ := signed?_of_clauseOf? h
    obtain ⟨d, ds, hdigit, htoken⟩ := Numeral.exists_digit_of_signed? hx
    have hhead : ∀ c : Char, c.isDigit = false → c ≠ '-' → c ≠ '+' → token.head? ≠ some c := by
      rintro c hc hminus hplus hhead
      rcases htoken with rfl | rfl | rfl
      · exact hminus (Option.some.inj hhead).symm
      · exact hplus (Option.some.inj hhead).symm
      · rw [Option.some.inj hhead, hc] at hdigit
        cases hdigit
    have hcomment : ¬ (token.head? = some 'c' ∨ token.head? = some '%') :=
      not_or.2 ⟨hhead 'c' (by decide) (by decide) (by decide),
        hhead '%' (by decide) (by decide) (by decide)⟩
    rw [Progress.takeTokens, if_neg hcomment,
      if_neg (hhead 'p' (by decide) (by decide) (by decide)), h]

/-! ## Clauses that are read -/

theorem literals_ne_nil_of_clauseOf? {tokens : List (List Char)} (h : clauseOf? tokens = some k) :
    k.literals ≠ [] := by
  unfold clauseOf? at h
  split at h
  · cases h
  · split at h
    · cases h
    · next hne =>
      cases h
      exact hne

theorem clauses_takeTokens (p : Progress) (tokens : List (List Char)) :
    (p.takeTokens tokens).clauses.toList = p.clauses.toList ++ (clauseOf? tokens).toList := by
  cases h : clauseOf? tokens with
  | some k => simp [takeTokens_of_clauseOf? p h]
  | none =>
    cases tokens with
    | nil => simp [Progress.takeTokens]
    | cons token tokens =>
      rw [Progress.takeTokens, h]
      split
      · simp
      · split <;> simp

theorem clauses_foldl_takeLine (p : Progress) (lines : List (List Char)) :
    (lines.foldl Progress.takeLine p).clauses.toList =
      p.clauses.toList ++ lines.filterMap fun line => clauseOf? (Blank.tokens line) := by
  induction lines generalizing p with
  | nil => simp
  | cons line lines ih =>
    rw [List.foldl_cons, ih, takeLine_eq_takeTokens, clauses_takeTokens, List.filterMap_cons]
    cases clauseOf? (Blank.tokens line) <;> simp

/-- The clauses that are read are those of the lines, in their order. -/
theorem toList_clauses_parse (text : String) : (parse text).formula.clauses.toList =
    (Pieces.pieces '\n' text.toList).filterMap fun line => clauseOf? (Blank.tokens line) := by
  have hread := clauses_foldl_takeLine {} (Pieces.pieces '\n' text.toList)
  simpa [parse, Progress.finish, Formula.ofClauses] using hread

/-- No clause that is read is empty. -/
theorem literals_ne_nil_of_parse {text : String} (h : k ∈ (parse text).formula.clauses) :
    k.literals ≠ [] := by
  rw [← Array.mem_toList_iff, toList_clauses_parse] at h
  obtain ⟨line, -, hline⟩ := List.mem_filterMap.1 h
  exact literals_ne_nil_of_clauseOf? hline

end Dimacs

end SatSearch
