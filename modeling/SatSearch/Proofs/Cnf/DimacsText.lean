import SatSearch.Proofs.Cnf.DimacsLines
import SatSearch.Proofs.Cnf.LiteralWords
import SatSearch.Proofs.Cnf.Planted
/-!
# Written formulas read back

The text of a formula is one line for the header and one for each clause, each of them words with a
blank behind all but the last (`toList_render`). Such a line is read as its words, so what is read
back are the sizes and the clauses that were written (`parse_render_eq`). Only a clause without
literals is lost: its line is the mark that ends a clause and nothing else.
-/

namespace SatSearch

namespace Formula

variable {f g : Formula}

theorem eq_iff_clauses_eq : f = g ↔ f.clauses = g.clauses := by
  constructor
  · rintro rfl
    rfl
  · obtain ⟨fs, n, rfl⟩ := f
    obtain ⟨gs, m, rfl⟩ := g
    rintro rfl
    rfl

/-- Empty clauses have no variables. -/
theorem numVars_filter_isEmpty (f : Formula) :
    (ofClauses (f.clauses.filter (!·.isEmpty))).numVars = f.numVars := by
  apply Nat.le_antisymm
  · refine numVars_le_iff.2 fun c hc l hl => var_lt ?_ hl
    exact (Array.mem_filter.1 hc).1
  · refine numVars_le_iff.2 fun c hc l hl => var_lt ?_ hl
    refine Array.mem_filter.2 ⟨hc, ?_⟩
    cases hempty : c.isEmpty with
    | false => rfl
    | true =>
      rw [List.isEmpty_iff.1 hempty] at hl
      cases hl

end Formula

namespace Dimacs

open Blank (IsWord)

variable {f : Formula} {c : Clause}

/-! ## The text as lines -/

theorem toList_foldl {α : Type} {g : String → α → String} {h : α → List Char}
    (hg : ∀ text x, (g text x).toList = text.toList ++ h x) :
    ∀ (xs : List α) (text : String), (xs.foldl g text).toList = text.toList ++ xs.flatMap h
  | [], text => by simp
  | x :: xs, text => by
    rw [List.foldl_cons, toList_foldl hg xs, hg, List.flatMap_cons, List.append_assoc]

/-- A line of words, with a blank behind all but the last. -/
def wordLine (words : List (List Char)) (last : List Char) : List Char :=
  words.flatMap (· ++ [' ']) ++ last

section
variable {words : List (List Char)} {last : List Char}
variable (hwords : ∀ w ∈ words, IsWord w) (hlast : IsWord last)
include hwords hlast

theorem tokens_wordLine : Blank.tokens (wordLine words last) = words ++ [last] := by
  rw [wordLine, Blank.tokens_words (by decide) hwords, Blank.tokens_word hlast]

theorem newline_not_mem_wordLine : '\n' ∉ wordLine words last := by
  have hword : ∀ {w : List Char}, IsWord w → '\n' ∉ w := fun hw => hw.not_mem (by decide)
  simp only [wordLine, List.mem_append, List.mem_flatMap, not_or, not_exists, not_and]
  refine ⟨fun w hw => ⟨hword (hwords w hw), by decide⟩, hword hlast⟩

end

/-- The words of a clause's line before the mark at its end. -/
def literalWords (c : Clause) : List (List Char) := c.literals.map fun l => l.text.toList

def clauseChars (c : Clause) : List Char := wordLine (literalWords c) ['0']

def headerChars (f : Formula) : List Char :=
  wordLine [['p'], ['c', 'n', 'f'], (toString f.numVars).toList] (toString f.numClauses).toList

theorem isWord_literalWords : ∀ w ∈ literalWords c, IsWord w := by
  intro w hw
  obtain ⟨l, -, rfl⟩ := List.mem_map.1 hw
  exact Blank.isWord_toString_int l.toSigned

theorem isWord_zero : IsWord ['0'] := .singleton (by decide)

theorem isWord_headerWords :
    ∀ w ∈ [['p'], ['c', 'n', 'f'], (toString f.numVars).toList], IsWord w := by
  intro w hw
  simp only [List.mem_cons, List.not_mem_nil, or_false] at hw
  rcases hw with rfl | rfl | rfl
  · exact .singleton (by decide)
  · exact .cons (by decide) (.cons (by decide) (.singleton (by decide)))
  · exact Blank.isWord_toString f.numVars

theorem toList_clauseLine (c : Clause) : (clauseLine c).toList = clauseChars c ++ ['\n'] := by
  have hg : ∀ (line : String) (l : Literal), (line ++ l.text ++ " ").toList =
      line.toList ++ (l.text.toList ++ [' ']) := by
    intro line l
    simp
  rw [clauseLine, String.toList_append, toList_foldl hg, clauseChars, wordLine, literalWords,
    List.flatMap_map]
  simp

theorem toList_headerLine (f : Formula) : (headerLine f).toList = headerChars f ++ ['\n'] := by
  simp [headerLine, headerChars, wordLine]

/-- The text of a formula is its header and the lines of its clauses. -/
theorem toList_render (f : Formula) : (render f).toList =
    (headerChars f :: f.clauses.toList.map clauseChars).flatMap (· ++ ['\n']) := by
  have hg : ∀ (text : String) (c : Clause), (text ++ clauseLine c).toList =
      text.toList ++ (clauseChars c ++ ['\n']) := by
    intro text c
    rw [String.toList_append, toList_clauseLine]
  rw [render, ← Array.foldl_toList, toList_foldl hg, toList_headerLine, List.flatMap_cons,
    List.flatMap_map]

theorem pieces_render (f : Formula) : Pieces.pieces '\n' (render f).toList =
    headerChars f :: (f.clauses.toList.map clauseChars ++ [[]]) := by
  rw [toList_render, Pieces.pieces_lines, List.cons_append]
  intro line hline
  rcases List.mem_cons.1 hline with rfl | hline
  · exact newline_not_mem_wordLine isWord_headerWords (Blank.isWord_toString _)
  · obtain ⟨c, -, rfl⟩ := List.mem_map.1 hline
    exact newline_not_mem_wordLine isWord_literalWords isWord_zero

/-! ## Reading the lines -/

theorem takeLine_headerChars (p : Progress) (f : Formula) : p.takeLine (headerChars f) =
    { p with
      declaredVars := Numeral.count? (toString f.numVars).toList
      declaredClauses := Numeral.count? (toString f.numClauses).toList } := by
  rw [takeLine_eq_takeTokens, headerChars, tokens_wordLine isWord_headerWords (Blank.isWord_toString _)]
  rfl

theorem mapM_literalWords (h : ∀ l ∈ c.literals, l.var + 1 < Numeral.signedLimit) :
    (literalWords c ++ [['0']]).mapM Numeral.signed? = some (c.literals.map Literal.toSigned ++ [0]) := by
  obtain ⟨ls⟩ := c
  unfold literalWords
  dsimp only at h ⊢
  induction ls with
  | nil => rfl
  | cons l ls ih =>
    obtain ⟨hl, hls⟩ := List.forall_mem_cons.1 h
    rw [List.map_cons, List.cons_append, List.mapM_cons, (Literal.Convertible.of_lt hl).signed?_text, ih hls]
    rfl

theorem filterMap_ofSigned? {ls : List Literal} (h : ∀ l ∈ ls, l.var + 1 < Numeral.signedLimit) :
    (ls.map Literal.toSigned ++ [0]).filterMap Literal.ofSigned? = ls := by
  induction ls with
  | nil => rfl
  | cons l ls ih =>
    obtain ⟨hl, hls⟩ := List.forall_mem_cons.1 h
    rw [List.map_cons, List.cons_append, List.filterMap_cons, Literal.ofSigned?_toSigned hl, ih hls]

/-- The line of a clause adds the clause, and nothing if the clause is empty. -/
theorem takeLine_clauseChars (p : Progress) (h : ∀ l ∈ c.literals, l.var + 1 < Numeral.signedLimit) :
    p.takeLine (clauseChars c) = if c.isEmpty then p else { p with clauses := p.clauses.push c } := by
  rw [takeLine_eq_takeTokens, clauseChars, tokens_wordLine isWord_literalWords isWord_zero]
  have hread := mapM_literalWords h
  have hliterals := filterMap_ofSigned? h
  obtain ⟨_ | ⟨l, ls⟩⟩ := c
  · rfl
  · refine takeTokens_of_clauseOf? p ?_
    rw [clauseOf?, hread]
    dsimp only at hliterals ⊢
    rw [hliterals]

theorem foldl_takeLine_clauseChars {cs : List Clause} (p : Progress)
    (h : ∀ c ∈ cs, ∀ l ∈ c.literals, l.var + 1 < Numeral.signedLimit) :
    (cs.map clauseChars).foldl Progress.takeLine p =
      { p with clauses := p.clauses ++ (cs.filter (!·.isEmpty)).toArray } := by
  induction cs generalizing p with
  | nil => simp
  | cons c cs ih =>
    obtain ⟨hc, hcs⟩ := List.forall_mem_cons.1 h
    rw [List.map_cons, List.foldl_cons, takeLine_clauseChars p hc, ih _ hcs]
    cases hempty : c.isEmpty <;> simp [hempty]

/-! ## Round trips -/

section
variable (h : ∀ c ∈ f.clauses, ∀ l ∈ c.literals, l.var + 1 < Numeral.signedLimit)
include h

theorem parse_render_eq : parse (render f) =
    { declaredVars := Numeral.count? (toString f.numVars).toList
      declaredClauses := Numeral.count? (toString f.numClauses).toList
      formula := .ofClauses (f.clauses.filter (!·.isEmpty)) } := by
  have hlist : ∀ c ∈ f.clauses.toList, ∀ l ∈ c.literals, l.var + 1 < Numeral.signedLimit :=
    fun c hc => h c (Array.mem_toList_iff.1 hc)
  have hnil : ∀ p : Progress, p.takeLine [] = p := fun _ => rfl
  rw [parse, pieces_render, List.foldl_cons, takeLine_headerChars, List.foldl_append,
    foldl_takeLine_clauseChars _ hlist, List.foldl_cons, List.foldl_nil, hnil, Progress.finish,
    ← Array.toList_filter, Array.toArray_toList, Array.empty_append]

theorem numVars_lt : f.numVars < Numeral.signedLimit := by
  have hle : f.numVars ≤ Numeral.signedLimit - 1 := by
    refine Formula.numVars_le_iff.2 fun c hc l hl => ?_
    have hl := h c hc l hl
    omega
  have hpos : 0 < Numeral.signedLimit := by decide
  omega

end

/-- **Written formulas read back.** If each variable, counted from 1, is a signed 64-bit number, then
reading what is written gives the numbers of variables and of clauses, the latter as far as 64-bit
counts go, and a formula with the same number of variables whose clauses are those that have a
literal. So it is the formula that was written just if each of its clauses has a literal, as in
formulas that were read themselves and in planted ones. -/
theorem parse_render (f : Formula)
    (h : ∀ c ∈ f.clauses, ∀ l ∈ c.literals, l.var + 1 < Numeral.signedLimit) :
    (parse (render f)).declaredVars = some f.numVars ∧
    (parse (render f)).declaredClauses =
      (if f.numClauses < Numeral.countLimit then some f.numClauses else none) ∧
    (parse (render f)).formula.clauses = f.clauses.filter (!·.isEmpty) ∧
    (parse (render f)).formula.numVars = f.numVars ∧
    ((parse (render f)).formula = f ↔ ∀ c ∈ f.clauses, c.literals ≠ []) ∧
    (∀ text, f = (parse text).formula → (parse (render f)).formula = f) ∧
    (∀ n numClauses g planted g', Planted.generate n numClauses g = .ok (.ok planted, g') →
      f = planted.formula → (parse (render f)).formula = f) := by
  have hread := parse_render_eq h
  have hvars : f.numVars < Numeral.countLimit := Nat.lt_trans (numVars_lt h) (by decide)
  have hback : (parse (render f)).formula = f ↔ ∀ c ∈ f.clauses, c.literals ≠ [] := by
    rw [hread, Formula.eq_iff_clauses_eq]
    simp [Formula.ofClauses, Clause.isEmpty]
  refine ⟨?_, ?_, ?_, ?_, hback, ?_, ?_⟩
  · rw [hread, Numeral.count?_toString, if_pos hvars]
  · rw [hread]
    exact Numeral.count?_toString f.numClauses
  · rw [hread]
    rfl
  · rw [hread]
    exact f.numVars_filter_isEmpty
  · rintro text rfl
    exact hback.2 fun c hc => literals_ne_nil_of_parse hc
  · rintro n numClauses g planted g' hplanted rfl
    obtain ⟨-, -, hagrees⟩ := Planted.generate_eq_ok hplanted
    exact hback.2 fun c hc => (hagrees c hc).literals_ne_nil

/-- Repeated literals, an empty clause and the largest variable that can be written. -/
def extremes : Formula :=
  .ofClauses #[⟨[⟨0, true⟩, ⟨0, true⟩]⟩, ⟨[]⟩, ⟨[⟨Numeral.signedLimit - 2, false⟩]⟩]

theorem parse_render_extremes :
    (∀ c ∈ extremes.clauses, ∀ l ∈ c.literals, l.var + 1 < Numeral.signedLimit) ∧
    (parse (render extremes)).declaredVars = some (Numeral.signedLimit - 1) ∧
    (parse (render extremes)).declaredClauses = some 3 ∧
    (parse (render extremes)).formula.clauses =
      #[⟨[⟨0, true⟩, ⟨0, true⟩]⟩, ⟨[⟨Numeral.signedLimit - 2, false⟩]⟩] ∧
    (parse (render extremes)).formula ≠ extremes := by
  have h : ∀ c ∈ extremes.clauses, ∀ l ∈ c.literals, l.var + 1 < Numeral.signedLimit := by
    decide
  obtain ⟨hvars, hclauses, hread, -, hback, -, -⟩ := parse_render extremes h
  refine ⟨h, hvars, hclauses, hread, fun heq => ?_⟩
  exact hback.1 heq ⟨[]⟩ (by simp [extremes, Formula.ofClauses]) rfl

end Dimacs

end SatSearch
