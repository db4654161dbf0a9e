import SatSearch.Proofs.Text.Tokens
/-!
# Lines with and without their ends

A text is cut at newlines in two ways. Between the newlines stand its pieces (`IsCut`, `isCut_iff`): there
is always one more than there are newlines. A stream hands out the lines one after another instead, each
with the newline that ends it, and nothing behind the last newline (`ended`). Both say the same about
what stands on the lines (`exists_pieces_ended`), and no line end is ever part of a token
(`tokens_dropLineEnd`).
-/

namespace SatSearch

namespace Pieces

variable {α : Type} [DecidableEq α] {separator x : α} {xs : List α} {ps : List (List α)}

/-! ## The pieces of a list -/

/-- There is at least one piece, none holds the separator, and the list is the pieces with the separator
between each two. -/
structure IsCut (separator : α) (xs : List α) (ps : List (List α)) : Prop where
  ne_nil : ps ≠ []
  not_mem : ∀ p ∈ ps, separator ∉ p
  joined_eq : joined separator ps = xs

theorem pieces_ne_nil (separator : α) (xs : List α) : pieces separator xs ≠ [] :=
  loop_ne_nil separator [] [] xs

theorem not_mem_of_mem_pieces (separator : α) (xs : List α) :
    ∀ p ∈ pieces separator xs, separator ∉ p := by
  induction xs with
  | nil => simp [pieces_nil]
  | cons x xs ih =>
    intro p hp
    by_cases hx : x = separator
    · subst hx
      rw [pieces_separator] at hp
      rcases List.mem_cons.1 hp with rfl | hp
      · simp
      · exact ih p hp
    · rw [pieces_cons hx] at hp
      cases hq : pieces separator xs with
      | nil => exact absurd hq (pieces_ne_nil separator xs)
      | cons q qs =>
        rw [hq] at hp ih
        rcases List.mem_cons.1 hp with rfl | hp
        · have := ih q (by simp)
          simp [this, Ne.symm hx]
        · exact ih p (by simp [hp])

/-- What holds no separator belongs to the first piece. -/
theorem pieces_append_of_not_mem {start : List α} (h : separator ∉ start) (xs : List α) :
    pieces separator (start ++ xs) = extendFirst start (pieces separator xs) := by
  have hne := pieces_ne_nil separator xs
  induction start with
  | nil => cases hq : pieces separator xs <;> simp_all [extendFirst]
  | cons x start ih =>
    obtain ⟨hx, hstart⟩ := not_or.1 (mt List.mem_cons.2 h)
    rw [List.cons_append, pieces_cons (Ne.symm hx), ih hstart, ← extendFirst_append _ _ hne]
    rfl

theorem pieces_of_not_mem (h : separator ∉ xs) : pieces separator xs = [xs] := by
  have hpieces := pieces_append_of_not_mem h []
  simpa [pieces_nil, extendFirst] using hpieces

theorem pieces_joined : ∀ {ps : List (List α)}, ps ≠ [] → (∀ p ∈ ps, separator ∉ p) →
    pieces separator (joined separator ps) = ps
  | [p], _, h => pieces_of_not_mem (h p (by simp))
  | p :: q :: ps, _, h => by
    have ih : pieces separator (joined separator (q :: ps)) = q :: ps :=
      pieces_joined (by simp) fun r hr => h r (by simp [hr])
    rw [joined, pieces_append (h p (by simp)), ih]
    simp

/-- The pieces are the only way to cut a list. -/
theorem isCut_iff : IsCut separator xs ps ↔ pieces separator xs = ps := by
  constructor
  · rintro ⟨hne, hmem, rfl⟩
    exact pieces_joined hne hmem
  · rintro rfl
    exact ⟨pieces_ne_nil separator xs, not_mem_of_mem_pieces separator xs, joined_pieces separator xs⟩

omit [DecidableEq α] in
theorem length_flatten_le_joined (separator : α) :
    ∀ ps : List (List α), ps.flatten.length ≤ (joined separator ps).length
  | [] => by simp
  | [p] => by simp [joined]
  | p :: q :: ps => by
    have ih := length_flatten_le_joined separator (q :: ps)
    simp [joined] at ih ⊢
    omega

theorem length_flatten_pieces_le (separator : α) (xs : List α) :
    (pieces separator xs).flatten.length ≤ xs.length := by
  have h := length_flatten_le_joined separator (pieces separator xs)
  rwa [joined_pieces] at h

/-! ## Pieces with their ends -/

/-- The pieces of a list, each with the separator that ends it, and none behind the last separator. -/
def ended (separator : α) : List α → List (List α)
  | [] => []
  | x :: xs =>
    if x = separator then [x] :: ended separator xs else extendFirst [x] (ended separator xs)

theorem ended_separator (separator : α) (xs : List α) :
    ended separator (separator :: xs) = [separator] :: ended separator xs := by
  simp [ended]

theorem ended_cons (h : x ≠ separator) (xs : List α) :
    ended separator (x :: xs) = extendFirst [x] (ended separator xs) := by
  simp [ended, h]

omit [DecidableEq α] in
theorem flatten_extendFirst (start : List α) (ps : List (List α)) :
    (extendFirst start ps).flatten = start ++ ps.flatten := by
  cases ps <;> simp [extendFirst]

/-- Nothing is lost. -/
theorem flatten_ended (separator : α) (xs : List α) : (ended separator xs).flatten = xs := by
  induction xs with
  | nil => rfl
  | cons x xs ih =>
    by_cases h : x = separator
    · simp [h, ended_separator, ih]
    · simp [ended_cons h, flatten_extendFirst, ih]

/-- The pieces are the ended ones without their ends, and the start of one that has none. -/
theorem exists_pieces_ended (separator : α) (xs : List α) :
    ∃ ps last, pieces separator xs = ps ++ [last] ∧
      ended separator xs = ps.map (· ++ [separator]) ++ if last = [] then [] else [last] := by
  induction xs with
  | nil => exact ⟨[], [], rfl, rfl⟩
  | cons x xs ih =>
    obtain ⟨ps, last, hpieces, hended⟩ := ih
    by_cases hx : x = separator
    · subst hx
      exact ⟨[] :: ps, last, by simp [pieces_separator, hpieces], by simp [ended_separator, hended]⟩
    · rw [pieces_cons hx, ended_cons hx, hpieces, hended]
      cases ps with
      | nil =>
        refine ⟨[], x :: last, rfl, ?_⟩
        by_cases hlast : last = [] <;> simp [hlast, extendFirst]
      | cons p ps => exact ⟨(x :: p) :: ps, last, rfl, rfl⟩

end Pieces

namespace Blank

theorem isBlank_newline : isBlank '\n' = true := by decide

/-- A line without the newline at its end, or the carriage return and newline. -/
def dropLineEnd (line : List Char) : List Char :=
  match line.reverse with
  | '\n' :: '\r' :: rest => rest.reverse
  | '\n' :: rest => rest.reverse
  | _ => line

theorem tokens_append_blanks {ds : List Char} (h : ∀ c ∈ ds, isBlank c = true) (cs : List Char) :
    tokens (cs ++ ds) = tokens cs := by
  rw [tokens, splitToken_append_blanks h]
  rfl

/-- What is dropped is blank. -/
theorem exists_dropLineEnd (line : List Char) :
    ∃ ds, (∀ c ∈ ds, isBlank c = true) ∧ line = dropLineEnd line ++ ds := by
  have hreturn : isBlank '\r' = true := by decide
  unfold dropLineEnd
  split
  · next rest h => exact ⟨['\r', '\n'], by simp [hreturn, isBlank_newline], by rw [← List.reverse_inj, h]; simp⟩
  · next rest h => exact ⟨['\n'], by simp [isBlank_newline], by rw [← List.reverse_inj, h]; simp⟩
  · exact ⟨[], by simp, by simp⟩

theorem tokens_dropLineEnd (line : List Char) : tokens (dropLineEnd line) = tokens line := by
  obtain ⟨ds, hds, hline⟩ := exists_dropLineEnd line
  have h := tokens_append_blanks hds (dropLineEnd line)
  rw [← hline] at h
  exact h.symm

end Blank

end SatSearch
