import SatSearch.Proofs.Cnf.DimacsBytes
import SatSearch.Proofs.Cnf.DimacsGrammar
/-!
# How large a formula that is read can be

A literal takes at least one character and a character at least one byte, so a formula has no more
literals than the file has bytes (`numLiterals_read_le`). It has no more clauses than literals either,
since no clause that is read is empty. Only the numbers of the variables go beyond the length of the file.
-/

namespace SatSearch

namespace Formula

variable {f : Formula}

theorem length_le_length_flatMap {cs : List Clause} (h : ∀ c ∈ cs, c.literals ≠ []) :
    cs.length ≤ (cs.flatMap Clause.literals).length := by
  induction cs with
  | nil => simp
  | cons c cs ih =>
    obtain ⟨hc, hcs⟩ := List.forall_mem_cons.1 h
    have hle := ih hcs
    have hpos := List.length_pos_iff.2 hc
    rw [List.flatMap_cons, List.length_append, List.length_cons]
    omega

theorem numClauses_le_numLiterals (h : ∀ c ∈ f.clauses, c.literals ≠ []) :
    f.numClauses ≤ f.numLiterals := by
  have hlist : ∀ c ∈ f.clauses.toList, c.literals ≠ [] := fun c hc => h c (Array.mem_toList_iff.1 hc)
  have hle := length_le_length_flatMap hlist
  rwa [numLiterals_eq, numClauses, ← Array.length_toList]

end Formula

namespace Dimacs

variable {words : List (List Char)} {k : Clause}

theorem length_le_of_clauseOf? (h : clauseOf? words = some k) : k.literals.length ≤ words.length := by
  obtain ⟨xs, hsigned, -, hliterals⟩ := clauseOf?_eq_some_iff.1 h
  rw [hliterals, List.length_map, hsigned.length_eq]
  exact List.length_filter_le _ _

/-- A line has room for its literals. -/
theorem length_literals_le (lines : List (List Char)) :
    ((lines.filterMap fun line => clauseOf? (Blank.tokens line)).flatMap Clause.literals).length ≤
      lines.flatten.length := by
  induction lines with
  | nil => simp
  | cons line lines ih =>
    have hline := (Blank.runs_tokens line).length_le
    rw [List.filterMap_cons, List.flatten_cons, List.length_append]
    cases h : clauseOf? (Blank.tokens line) with
    | none =>
      dsimp only
      omega
    | some k =>
      have hk := length_le_of_clauseOf? h
      rw [List.flatMap_cons, List.length_append]
      omega

theorem numLiterals_parse_le (text : String) :
    (parse text).formula.numLiterals ≤ text.toList.length := by
  rw [Formula.numLiterals_eq, toList_clauses_parse]
  exact Nat.le_trans (length_literals_le _) (Pieces.length_flatten_pieces_le '\n' text.toList)

/-! ## Sizes of files -/

theorem length_toList_le (text : String) : text.toList.length ≤ text.toUTF8.size := by
  have h := Encoding.length_le_length_bytes text.toList
  rwa [Encoding.bytes_toList, Array.length_toList] at h

theorem numLiterals_read_le (text : String) : (parse text).formula.numLiterals ≤ text.toUTF8.size :=
  Nat.le_trans (numLiterals_parse_le text) (length_toList_le text)

end Dimacs

end SatSearch
