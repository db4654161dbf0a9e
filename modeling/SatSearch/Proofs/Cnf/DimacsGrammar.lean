import Mathlib.Data.List.Forall2
import SatSearch.Proofs.Cnf.DimacsLines
import SatSearch.Proofs.Cnf.Evaluation
import SatSearch.Proofs.Text.Lines
/-!
# The grammar of DIMACS texts

Which lines are clauses and which are headers is said here without the reader: a line is its words, a clause
is a line of signed numbers that are not all zero (`IsClauseLine`), a header is a line whose first
word begins with `p` (`IsHeaderLine`). Every text is read by this grammar, and what is on no such line
adds nothing (`parse_grammar`).
-/

namespace SatSearch

namespace Dimacs

open Numeral (IsCount IsSigned)

variable {p : Progress} {line : List Char} {words : List (List Char)} {lines : List (List Char)} {k : Clause}

/-! ## Lines of the grammar -/

/-- The first word begins with the character. -/
def BeginsWith (c : Char) (words : List (List Char)) : Prop :=
  ∃ word rest, words = (c :: word) :: rest

/-- The literal of a number other than 0: its variable is counted from 1, its polarity is the sign. -/
def literalOf (x : Int) : Literal := ⟨x.natAbs - 1, decide (0 < x)⟩

/-- The line has words, it is no comment and no header, all of its words are signed numbers, and the clause is
made of those that are not 0, of which there is one. -/
def IsClauseLine (line : List Char) (k : Clause) : Prop :=
  ∃ words xs, Blank.Runs line words ∧ words ≠ [] ∧ (∀ c ∈ ['c', '%', 'p'], ¬ BeginsWith c words) ∧
    List.Forall₂ IsSigned words xs ∧ (∃ x ∈ xs, x ≠ 0) ∧ k.literals = (xs.filter (· ≠ 0)).map literalOf

/-- The line is a header, made of these words. -/
def IsHeaderLine (line : List Char) (words : List (List Char)) : Prop :=
  Blank.Runs line words ∧ BeginsWith 'p' words

/-- None of the lines is a header. -/
def NoHeader (lines : List (List Char)) : Prop := ∀ line ∈ lines, ∀ words, ¬ IsHeaderLine line words

/-- The header declares `n` with the word at place `i`: it has just four words, and this one is a count. -/
def Declares (words : List (List Char)) (i n : Nat) : Prop :=
  words.length = 4 ∧ ∃ word, words[i]? = some word ∧ IsCount word n

/-! ## Words that are numbers -/

theorem mapM_signed?_eq_some_iff {xs : List Int} :
    words.mapM Numeral.signed? = some xs ↔ List.Forall₂ IsSigned words xs := by
  induction words generalizing xs with
  | nil => simp [eq_comm]
  | cons word words ih =>
    constructor
    · intro h
      simp only [List.mapM_cons, Option.bind_eq_bind, Option.bind_eq_some_iff, Option.pure_def,
        Option.some.injEq] at h
      obtain ⟨x, hx, rest, hrest, rfl⟩ := h
      exact .cons (Numeral.signed?_eq_some_iff.1 hx) (ih.1 hrest)
    · intro h
      cases h with
      | cons hx hrest => simp [List.mapM_cons, Numeral.signed?_eq_some_iff.2 hx, ih.2 hrest]

theorem filterMap_ofSigned?_eq (xs : List Int) :
    xs.filterMap Literal.ofSigned? = (xs.filter (· ≠ 0)).map literalOf := by
  induction xs with
  | nil => rfl
  | cons x xs ih => by_cases hx : x = 0 <;> simp [hx, Literal.ofSigned?, literalOf, ih]

theorem clauseOf?_eq_some_iff : clauseOf? words = some k ↔ ∃ xs, List.Forall₂ IsSigned words xs ∧
    (∃ x ∈ xs, x ≠ 0) ∧ k.literals = (xs.filter (· ≠ 0)).map literalOf := by
  have hne : ∀ xs : List Int, (xs.filter (· ≠ 0)).map literalOf ≠ [] ↔ ∃ x ∈ xs, x ≠ 0 := by
    intro xs
    simp [List.filter_eq_nil_iff]
  obtain ⟨literals⟩ := k
  unfold clauseOf?
  constructor
  · intro h
    split at h
    · cases h
    · next xs hxs =>
      rw [filterMap_ofSigned?_eq] at h
      split at h
      · cases h
      · next hliterals =>
        cases h
        exact ⟨xs, mapM_signed?_eq_some_iff.1 hxs, (hne xs).1 hliterals, rfl⟩
  · rintro ⟨xs, hxs, hx, rfl⟩
    rw [mapM_signed?_eq_some_iff.2 hxs]
    dsimp only
    rw [filterMap_ofSigned?_eq]
    split
    · next hnil => exact absurd hnil ((hne xs).2 hx)
    · rfl

/-- A number begins with a sign or a digit. -/
theorem not_beginsWith_of_isSigned {c : Char} {xs : List Int} (h : List.Forall₂ IsSigned words xs)
    (hc : c.isDigit = false) (hplus : c ≠ '+') (hminus : c ≠ '-') : ¬ BeginsWith c words := by
  rintro ⟨word, rest, rfl⟩
  cases h with
  | cons h _ =>
    cases h with
    | plain hdigits _ => exact absurd rfl (hdigits.head_ne hc)
    | plus _ _ => exact hplus rfl
    | minus _ _ => exact hminus rfl

/-- The clause of a line is the one that its tokens give. -/
theorem isClauseLine_iff : IsClauseLine line k ↔ clauseOf? (Blank.tokens line) = some k := by
  rw [clauseOf?_eq_some_iff]
  constructor
  · rintro ⟨words, xs, hruns, -, -, hxs⟩
    rw [hruns.tokens_eq]
    exact ⟨xs, hxs⟩
  · rintro ⟨xs, hsigned, ⟨x, hx, hne⟩, hliterals⟩
    refine ⟨_, xs, Blank.runs_tokens line, ?_, ?_, hsigned, ⟨x, hx, hne⟩, hliterals⟩
    · intro hnil
      rw [hnil] at hsigned
      cases hsigned
      cases hx
    · intro c hc
      simp only [List.mem_cons, List.not_mem_nil, or_false] at hc
      apply not_beginsWith_of_isSigned hsigned <;> rcases hc with rfl | rfl | rfl <;> decide

/-! ## Headers -/

theorem beginsWith_cons_iff {c : Char} {word : List Char} :
    BeginsWith c (word :: words) ↔ word.head? = some c := by
  cases word <;> simp [BeginsWith, eq_comm]

instance (c : Char) (words : List (List Char)) : Decidable (BeginsWith c words) :=
  match words with
  | [] => isFalse fun ⟨_, _, h⟩ => by cases h
  | _ :: _ => decidable_of_iff _ beginsWith_cons_iff.symm

theorem isHeaderLine_iff : IsHeaderLine line words ↔ Blank.tokens line = words ∧ BeginsWith 'p' words := by
  rw [IsHeaderLine, Blank.tokens_eq_iff]

theorem takeTokens_of_header (p : Progress) (h : BeginsWith 'p' words) : p.takeTokens words =
    { p with declaredVars := (sizes words).1, declaredClauses := (sizes words).2 } := by
  obtain ⟨word, rest, rfl⟩ := h
  simp [Progress.takeTokens]

theorem takeTokens_of_not_header (p : Progress) (h : ¬ BeginsWith 'p' words) :
    (p.takeTokens words).declaredVars = p.declaredVars ∧
    (p.takeTokens words).declaredClauses = p.declaredClauses := by
  cases words with
  | nil => exact ⟨rfl, rfl⟩
  | cons word words =>
    rw [beginsWith_cons_iff] at h
    rw [Progress.takeTokens, if_neg h]
    split
    · exact ⟨rfl, rfl⟩
    · split <;> exact ⟨rfl, rfl⟩

/-- Lines that are no headers leave the sizes as they are. -/
theorem foldl_takeLine_of_noHeader (p : Progress) (h : NoHeader lines) :
    (lines.foldl Progress.takeLine p).declaredVars = p.declaredVars ∧
    (lines.foldl Progress.takeLine p).declaredClauses = p.declaredClauses := by
  induction lines generalizing p with
  | nil => exact ⟨rfl, rfl⟩
  | cons line lines ih =>
    obtain ⟨hline, hlines⟩ := List.forall_mem_cons.1 h
    have hnot : ¬ BeginsWith 'p' (Blank.tokens line) :=
      fun hp => hline _ (isHeaderLine_iff.2 ⟨rfl, hp⟩)
    obtain ⟨hvars, hclauses⟩ := takeTokens_of_not_header p hnot
    obtain ⟨hvars', hclauses'⟩ := ih (p.takeLine line) hlines
    rw [takeLine_eq_takeTokens] at hvars' hclauses'
    rw [List.foldl_cons, takeLine_eq_takeTokens]
    exact ⟨hvars'.trans hvars, hclauses'.trans hclauses⟩

theorem sizes_eq_some_iff (words : List (List Char)) (n : Nat) :
    ((sizes words).1 = some n ↔ Declares words 2 n) ∧ ((sizes words).2 = some n ↔ Declares words 3 n) := by
  unfold Declares
  rcases words with _ | ⟨a, _ | ⟨b, _ | ⟨c, _ | ⟨d, _ | ⟨e, words⟩⟩⟩⟩⟩ <;>
    simp [sizes, Numeral.count?_eq_some_iff]

theorem natAbs_le_of_forall₂ {xs : List Int} (h : List.Forall₂ IsSigned words xs) :
    ∀ x ∈ xs, x.natAbs ≤ Numeral.signedLimit := by
  induction h with
  | nil => simp
  | cons hx _ ih => exact List.forall_mem_cons.2 ⟨hx.natAbs_le, ih⟩

/-! ## Whole texts -/

/-- No literal that is read overflows. -/
theorem IsClauseLine.var_lt (h : IsClauseLine line k) : ∀ l ∈ k.literals, l.var < Numeral.signedLimit := by
  obtain ⟨words, xs, -, -, -, hsigned, -, hliterals⟩ := h
  intro l hl
  rw [hliterals] at hl
  obtain ⟨x, hx, rfl⟩ := List.mem_map.1 hl
  obtain ⟨hx, hne⟩ := List.mem_filter.1 hx
  have hle := natAbs_le_of_forall₂ hsigned x hx
  have hne : x ≠ 0 := by simpa using hne
  show x.natAbs - 1 < Numeral.signedLimit
  omega

/-- Variables are counted from 1 in text, so the bound of those that are read fits a 64-bit word. -/
theorem numVars_parse_le (text : String) : (parse text).formula.numVars ≤ Numeral.signedLimit := by
  refine Formula.numVars_le_iff.2 fun k hk l hl => ?_
  rw [← Array.mem_toList_iff, toList_clauses_parse] at hk
  obtain ⟨line, -, hline⟩ := List.mem_filterMap.1 hk
  exact (isClauseLine_iff.2 hline).var_lt l hl

/-- The sizes are those of the last header. -/
theorem foldl_takeLine_of_header (p : Progress) (before : List (List Char)) {after : List (List Char)}
    (hline : IsHeaderLine line words) (hafter : NoHeader after) :
    ((before ++ line :: after).foldl Progress.takeLine p).declaredVars = (sizes words).1 ∧
    ((before ++ line :: after).foldl Progress.takeLine p).declaredClauses = (sizes words).2 := by
  obtain ⟨rfl, hp⟩ := isHeaderLine_iff.1 hline
  rw [List.foldl_append, List.foldl_cons]
  obtain ⟨hvars, hclauses⟩ := foldl_takeLine_of_noHeader
    ((before.foldl Progress.takeLine p).takeLine line) hafter
  rw [hvars, hclauses, takeLine_eq_takeTokens, takeTokens_of_header _ hp]
  exact ⟨rfl, rfl⟩

/-- **Every text is read by the grammar.** The clauses are those of the clause lines, in their order,
and no other line adds one. The sizes are declared by the last header line, each on its own and only if
the line has four words; without a header none is declared. Whatever the text is, there are at most
`2 ^ 63` variables. -/
theorem parse_grammar {text : String} (h : Pieces.IsCut '\n' text.toList lines) :
    (∃ read : List Char → Option Clause, (∀ line k, read line = some k ↔ IsClauseLine line k) ∧
      (parse text).formula.clauses.toList = lines.filterMap read) ∧
    (NoHeader lines → (parse text).declaredVars = none ∧ (parse text).declaredClauses = none) ∧
    (∀ before line after words, lines = before ++ line :: after → IsHeaderLine line words →
      NoHeader after → ∀ n,
        ((parse text).declaredVars = some n ↔ Declares words 2 n) ∧
        ((parse text).declaredClauses = some n ↔ Declares words 3 n)) ∧
    (parse text).formula.numVars ≤ Numeral.signedLimit := by
  obtain rfl := Pieces.isCut_iff.1 h
  refine ⟨⟨fun line => clauseOf? (Blank.tokens line), fun _ _ => isClauseLine_iff.symm,
    toList_clauses_parse text⟩, fun hnone => ?_, ?_, numVars_parse_le text⟩
  · exact foldl_takeLine_of_noHeader {} hnone
  · intro before line after words hlines hline hafter n
    obtain ⟨hvars, hclauses⟩ := foldl_takeLine_of_header {} before hline hafter
    rw [← hlines] at hvars hclauses
    obtain ⟨hdeclares, hdeclares'⟩ := sizes_eq_some_iff words n
    rw [← hdeclares, ← hdeclares', ← hvars, ← hclauses]
    exact ⟨Iff.rfl, Iff.rfl⟩

/-- Two headers, a comment, a word that is no number, a number out of range and one at its end. -/
def mixedLines : List (List Char) :=
  ["p cnf 3 2", "c 1", "+1 0\u2003-9223372036854775808 ", "1 x", "9223372036854775808 0", "0",
    "px y +7 -1", "2"].map String.toList

def mixedFile : String := .ofList (Pieces.joined '\n' mixedLines)

theorem parse_grammar_mixed :
    Pieces.IsCut '\n' mixedFile.toList mixedLines ∧
    (parse mixedFile).formula.clauses.toList =
      [⟨[⟨0, true⟩, ⟨Numeral.signedLimit - 1, false⟩]⟩, ⟨[⟨1, true⟩]⟩] ∧
    (parse mixedFile).declaredVars = some 7 ∧
    ∀ n, (parse mixedFile).declaredClauses ≠ some n := by
  have hcut : Pieces.IsCut '\n' mixedFile.toList mixedLines :=
    Pieces.isCut_iff.2 (by decide +kernel)
  have hline : IsHeaderLine "px y +7 -1".toList (["px", "y", "+7", "-1"].map String.toList) :=
    isHeaderLine_iff.2 (by decide +kernel)
  have hafter : NoHeader ["2".toList] := by
    intro line hmem words hheader
    obtain ⟨rfl, hp⟩ := isHeaderLine_iff.1 hheader
    rw [List.mem_singleton.1 hmem] at hp
    revert hp
    decide +kernel
  obtain ⟨⟨read, hread, hclauses⟩, -, hsizes, -⟩ := parse_grammar hcut
  have hsize := hsizes (mixedLines.take 6) _ _ _ rfl hline hafter
  refine ⟨hcut, ?_, (hsize 7).1.2 ?_, fun n hn => ?_⟩
  · have heq : read = fun line => clauseOf? (Blank.tokens line) := by
      funext line
      exact Option.ext fun k => by rw [hread, isClauseLine_iff]
    rw [hclauses, heq]
    decide +kernel
  · exact (sizes_eq_some_iff _ _).1.1 (by decide +kernel)
  · have hnone : (sizes (["px", "y", "+7", "-1"].map String.toList)).2 = none := by decide +kernel
    have hsome := (sizes_eq_some_iff _ _).2.2 ((hsize n).2.1 hn)
    rw [hnone] at hsome
    cases hsome

end Dimacs

end SatSearch
