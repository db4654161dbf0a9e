import SatSearch.Proofs.Text.Numerals
import SatSearch.Text.Blank
import SatSearch.Text.Pieces
/-!
# Tokens and lines

A word is a token's text: at least one character and no blank, as printed numbers are. Words that are
written with a blank behind each are read back as the tokens of the text (`tokens_words`), and blanks
around a text make no difference to its tokens (`tokens_trim`). A text of lines with the separator
behind each is read back as those lines and an empty last one (`pieces_lines`).
-/

namespace SatSearch

namespace Blank

variable {c : Char} {cs ds w : List Char} {ws : List (List Char)}

/-- At least one character, and none of them blank. -/
structure IsWord (w : List Char) : Prop where
  ne_nil : w ≠ []
  not_blank : ∀ c ∈ w, isBlank c = false

theorem IsWord.singleton (h : isBlank c = false) : IsWord [c] := by
  refine ⟨List.cons_ne_nil c [], fun d hd => ?_⟩
  rw [List.mem_singleton.1 hd]
  exact h

theorem IsWord.cons (h : isBlank c = false) (hw : IsWord w) : IsWord (c :: w) :=
  ⟨List.cons_ne_nil c w, List.forall_mem_cons.2 ⟨h, hw.not_blank⟩⟩

theorem IsWord.not_mem (h : IsWord w) (hc : isBlank c = true) : c ∉ w := by
  intro hmem
  rw [h.not_blank c hmem] at hc
  cases hc

/-! ## Printed numbers -/

theorem not_isBlank_of_isDigit (h : c.isDigit = true) : isBlank c = false := by
  simp only [Char.isDigit, Bool.and_eq_true, decide_eq_true_eq] at h
  have hlow : 48 ≤ c.toNat := h.1
  have hhigh : c.toNat ≤ 57 := h.2
  simp [isBlank, ranges]
  omega

theorem isWord_toString (n : Nat) : IsWord (toString n).toList := by
  rw [Numeral.toList_toString]
  exact ⟨Nat.toDigits_ne_nil, fun _ hc => not_isBlank_of_isDigit (Numeral.isDigit_of_mem_toDigits hc)⟩

theorem isWord_toString_int (x : Int) : IsWord (toString x).toList := by
  rw [Numeral.toList_toString_int]
  refine ⟨fun h => Nat.toDigits_ne_nil (List.append_eq_nil_iff.1 h).2, fun c hc => ?_⟩
  rcases List.mem_append.1 hc with hc | hc
  · split at hc
    · rw [List.mem_singleton.1 hc]
      decide
    · cases hc
  · exact not_isBlank_of_isDigit (Numeral.isDigit_of_mem_toDigits hc)

/-! ## Reading words -/

theorem splitToken_blank (h : isBlank c = true) : splitToken (c :: cs) = ([], tokens cs) := by
  simp [splitToken, h, tokens]

theorem splitToken_cons (h : isBlank c = false) :
    splitToken (c :: cs) = (c :: (splitToken cs).1, (splitToken cs).2) := by
  simp [splitToken, h]

theorem tokens_blank (h : isBlank c = true) : tokens (c :: cs) = tokens cs := by
  rw [tokens, splitToken_blank h]
  rfl

theorem tokens_cons (h : isBlank c = false) :
    tokens (c :: cs) = (c :: (splitToken cs).1) :: (splitToken cs).2 := by
  rw [tokens, splitToken_cons h]
  rfl

theorem splitToken_append (h : ∀ c ∈ w, isBlank c = false) (cs : List Char) :
    splitToken (w ++ cs) = (w ++ (splitToken cs).1, (splitToken cs).2) := by
  induction w with
  | nil => rfl
  | cons c w ih =>
    obtain ⟨hc, hw⟩ := List.forall_mem_cons.1 h
    rw [List.cons_append, splitToken_cons hc, ih hw]
    rfl

theorem consToken_word (h : IsWord w) : consToken w ws = w :: ws :=
  if_neg fun he => h.ne_nil (List.isEmpty_iff.1 he)

/-- A word up to a blank is the first token. -/
theorem tokens_word_blank (hw : IsWord w) (hc : isBlank c = true) (cs : List Char) :
    tokens (w ++ c :: cs) = w :: tokens cs := by
  rw [tokens, splitToken_append hw.not_blank, splitToken_blank hc, List.append_nil]
  exact consToken_word hw

theorem tokens_word (hw : IsWord w) : tokens w = [w] := by
  have hsplit := splitToken_append hw.not_blank []
  simp only [List.append_nil, splitToken] at hsplit
  rw [tokens, hsplit]
  exact consToken_word hw

/-- Words that are written with a blank behind each are the first tokens. -/
theorem tokens_words (hc : isBlank c = true) (hws : ∀ w ∈ ws, IsWord w) (cs : List Char) :
    tokens (ws.flatMap (· ++ [c]) ++ cs) = ws ++ tokens cs := by
  induction ws with
  | nil => rfl
  | cons w ws ih =>
    obtain ⟨hw, hws⟩ := List.forall_mem_cons.1 hws
    rw [List.flatMap_cons, List.append_assoc, List.append_assoc, List.singleton_append,
      tokens_word_blank hw hc, ih hws]
    rfl

/-! ## Blanks around a text -/

theorem tokens_trimLeft : ∀ cs : List Char, tokens (trimLeft cs) = tokens cs
  | [] => rfl
  | c :: cs => by
    unfold trimLeft
    cases hc : isBlank c with
    | true => rw [List.dropWhile_cons_of_pos hc, tokens_blank hc, ← tokens_trimLeft cs, trimLeft]
    | false => rw [List.dropWhile_cons_of_neg (by simp [hc])]

theorem splitToken_blanks (h : ∀ c ∈ ds, isBlank c = true) : splitToken ds = ([], []) := by
  induction ds with
  | nil => rfl
  | cons d ds ih =>
    obtain ⟨hd, hds⟩ := List.forall_mem_cons.1 h
    rw [splitToken_blank hd, tokens, ih hds]
    rfl

theorem splitToken_append_blanks (h : ∀ c ∈ ds, isBlank c = true) (cs : List Char) :
    splitToken (cs ++ ds) = splitToken cs := by
  induction cs with
  | nil => exact splitToken_blanks h
  | cons c cs ih =>
    rw [List.cons_append, splitToken, splitToken, ih]

/-- What is cut off on the right is blank. -/
theorem exists_trimRight (cs : List Char) :
    ∃ ds, (∀ c ∈ ds, isBlank c = true) ∧ cs = trimRight cs ++ ds := by
  refine ⟨(cs.reverse.takeWhile isBlank).reverse, ?_, ?_⟩
  · intro c hc
    exact List.all_eq_true.1 List.all_takeWhile c (List.mem_reverse.1 hc)
  · have h := List.takeWhile_append_dropWhile (p := isBlank) (l := cs.reverse)
    rw [trimRight, trimLeft, ← List.reverse_append, h, List.reverse_reverse]

/-- Blanks around a text make no difference to its tokens. -/
theorem tokens_trim (cs : List Char) : tokens (trim cs) = tokens cs := by
  obtain ⟨ds, hds, hcs⟩ := exists_trimRight (trimLeft cs)
  have hright : tokens (trimLeft cs) = tokens (trim cs) := by
    rw [hcs, tokens, splitToken_append_blanks hds]
    rfl
  rw [← hright, tokens_trimLeft]

/-- A trimmed text does not start with a blank. -/
theorem not_isBlank_of_trim (h : trim cs = c :: ds) : isBlank c = false := by
  obtain ⟨es, -, hleft⟩ := exists_trimRight (trimLeft cs)
  rw [← trim, h, trimLeft, List.cons_append] at hleft
  have hhead : (cs.dropWhile isBlank).head? = some c := by
    rw [hleft]
    rfl
  have hnot := List.head?_dropWhile_not isBlank cs
  rw [hhead] at hnot
  simpa using hnot

/-- The token that a text goes on with is its start. -/
theorem splitToken_isPrefix (cs : List Char) : (splitToken cs).1 <+: cs := by
  induction cs with
  | nil => exact List.nil_prefix
  | cons c cs ih =>
    cases hc : isBlank c with
    | true =>
      rw [splitToken_blank hc]
      exact List.nil_prefix
    | false =>
      rw [splitToken_cons hc]
      exact List.cons_prefix_cons.2 ⟨rfl, ih⟩

/-! ## Words with blanks between them -/

/-- The text is the words with at least one blank between each two and any blanks around them, so these are
its longest runs of characters that are not blank. -/
inductive Runs : List Char → List (List Char) → Prop
  | none {ds : List Char} : (∀ c ∈ ds, isBlank c = true) → Runs ds []
  | last {ds w : List Char} : (∀ c ∈ ds, isBlank c = true) → IsWord w → Runs (ds ++ w) [w]
  | more {ds w cs : List Char} {c : Char} {ws : List (List Char)} :
      (∀ c ∈ ds, isBlank c = true) → IsWord w → isBlank c = true → Runs cs ws →
        Runs (ds ++ (w ++ c :: cs)) (w :: ws)

theorem tokens_blanks_append (h : ∀ c ∈ ds, isBlank c = true) (cs : List Char) :
    tokens (ds ++ cs) = tokens cs := by
  induction ds with
  | nil => rfl
  | cons d ds ih =>
    obtain ⟨hd, hds⟩ := List.forall_mem_cons.1 h
    rw [List.cons_append, tokens_blank hd, ih hds]

theorem Runs.tokens_eq (h : Runs cs ws) : tokens cs = ws := by
  induction h with
  | none hds => rw [tokens, splitToken_blanks hds]; rfl
  | last hds hw => rw [tokens_blanks_append hds, tokens_word hw]
  | more hds hw hc _ ih => rw [tokens_blanks_append hds, tokens_word_blank hw hc, ih]

theorem Runs.blank_cons (hc : isBlank c = true) (h : Runs cs ws) : Runs (c :: cs) ws := by
  cases h with
  | none hds => exact .none (List.forall_mem_cons.2 ⟨hc, hds⟩)
  | last hds hw => exact .last (List.forall_mem_cons.2 ⟨hc, hds⟩) hw
  | more hds hw hb h => exact .more (List.forall_mem_cons.2 ⟨hc, hds⟩) hw hb h

/-- The token that a text goes on with reaches up to a blank, or to the end. -/
theorem splitToken_cases (cs : List Char) : (∀ c ∈ (splitToken cs).1, isBlank c = false) ∧
    (cs = (splitToken cs).1 ∧ (splitToken cs).2 = [] ∨
      ∃ b rest, isBlank b = true ∧ cs = (splitToken cs).1 ++ b :: rest ∧ (splitToken cs).2 = tokens rest) := by
  induction cs with
  | nil => simp [splitToken]
  | cons c cs ih =>
    obtain ⟨hword, hrest⟩ := ih
    cases hc : isBlank c with
    | true =>
      rw [splitToken_blank hc]
      exact ⟨by simp, .inr ⟨c, cs, hc, rfl, rfl⟩⟩
    | false =>
      rw [splitToken_cons hc]
      refine ⟨List.forall_mem_cons.2 ⟨hc, hword⟩, ?_⟩
      rcases hrest with ⟨hcs, hnil⟩ | ⟨b, rest, hb, hcs, htokens⟩
      · exact .inl ⟨by simp [← hcs], hnil⟩
      · exact .inr ⟨b, rest, hb, by rw [List.cons_append, ← hcs], htokens⟩

theorem runs_tokens (cs : List Char) : Runs cs (tokens cs) := by
  match cs with
  | [] => exact .none (by simp)
  | c :: cs =>
    cases hc : isBlank c with
    | true =>
      rw [tokens_blank hc]
      exact (runs_tokens cs).blank_cons hc
    | false =>
      obtain ⟨hword, hrest⟩ := splitToken_cases cs
      have hw : IsWord (c :: (splitToken cs).1) :=
        ⟨by simp, List.forall_mem_cons.2 ⟨hc, hword⟩⟩
      rw [tokens_cons hc]
      rcases hrest with ⟨hcs, hnil⟩ | ⟨b, rest, hb, hcs, htokens⟩
      · have hruns : Runs ([] ++ _) _ := .last (by simp) hw
        rw [hnil]
        simpa [← hcs] using hruns
      · have hlen : rest.length < cs.length := by
          have := congrArg List.length hcs
          simp at this
          omega
        have hruns : Runs ([] ++ _) _ := .more (by simp) hw hb (runs_tokens rest)
        rw [htokens]
        simpa [← hcs] using hruns
termination_by cs.length

theorem Runs.length_le (h : Runs cs ws) : ws.length ≤ cs.length := by
  induction h with
  | none _ => simp
  | last _ hw =>
    have hpos := List.length_pos_iff.2 hw.ne_nil
    simp
    omega
  | more _ hw _ _ ih =>
    have hpos := List.length_pos_iff.2 hw.ne_nil
    simp
    omega

/-- The tokens of a text are the only words that it consists of. -/
theorem tokens_eq_iff : tokens cs = ws ↔ Runs cs ws := by
  constructor
  · rintro rfl
    exact runs_tokens cs
  · exact Runs.tokens_eq

end Blank

namespace Pieces

variable {α : Type} [DecidableEq α] {separator : α}

/-- What stands before the first separator is the first piece. -/
theorem pieces_append {xs : List α} (h : separator ∉ xs) (ys : List α) :
    pieces separator (xs ++ separator :: ys) = xs :: pieces separator ys := by
  induction xs with
  | nil => exact pieces_separator separator ys
  | cons x xs ih =>
    obtain ⟨hx, hxs⟩ := not_or.1 (mt List.mem_cons.2 h)
    rw [List.cons_append, pieces_cons (Ne.symm hx), ih hxs]
    rfl

/-- Lines that are written with the separator behind each are read back, with an empty piece behind
the last separator. -/
theorem pieces_lines {lines : List (List α)} (h : ∀ l ∈ lines, separator ∉ l) :
    pieces separator (lines.flatMap (· ++ [separator])) = lines ++ [[]] := by
  induction lines with
  | nil => rfl
  | cons l lines ih =>
    obtain ⟨hl, hlines⟩ := List.forall_mem_cons.1 h
    rw [List.flatMap_cons, List.append_assoc, List.singleton_append, pieces_append hl, ih hlines]
    rfl

end Pieces

end SatSearch
