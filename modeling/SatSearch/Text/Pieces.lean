/-!
# Pieces between separators

`pieces` cuts a list at every occurrence of a separator, which it drops; there is always one piece
more than there are separators. `joined_pieces` puts them together again.
-/

namespace SatSearch

namespace Pieces

variable {α : Type} [DecidableEq α]

/-- The pieces of a list after finished ones and the start of another, both last one first. -/
def loop (separator : α) : (finished : List (List α)) → (start : List α) → List α → List (List α)
  | finished, start, [] => (start.reverse :: finished).reverse
  | finished, start, x :: xs =>
    if x = separator then loop separator (start.reverse :: finished) [] xs
    else loop separator finished (x :: start) xs

/-- The pieces between the separators. -/
def pieces (separator : α) (xs : List α) : List (List α) := loop separator [] [] xs

/-- Puts elements in front of the first piece. -/
def extendFirst (start : List α) : List (List α) → List (List α)
  | [] => [start]
  | p :: ps => (start ++ p) :: ps

theorem loop_finished (separator : α) (finished : List (List α)) (start xs : List α) :
    loop separator finished start xs = finished.reverse ++ loop separator [] start xs := by
  induction xs generalizing finished start with
  | nil => simp [loop]
  | cons x xs ih =>
    unfold loop
    split
    · rw [ih (start.reverse :: finished), ih [start.reverse]]
      simp
    · exact ih finished (x :: start)

omit [DecidableEq α] in
theorem extendFirst_append (xs ys : List α) {ps : List (List α)} (h : ps ≠ []) :
    extendFirst (xs ++ ys) ps = extendFirst xs (extendFirst ys ps) := by
  cases ps <;> simp_all [extendFirst]

theorem loop_ne_nil (separator : α) (finished : List (List α)) (start xs : List α) :
    loop separator finished start xs ≠ [] := by
  induction xs generalizing finished start with
  | nil => simp [loop]
  | cons x xs ih =>
    unfold loop
    split
    · exact ih _ _
    · exact ih _ _

theorem loop_start (separator : α) (start xs : List α) :
    loop separator [] start xs = extendFirst start.reverse (loop separator [] [] xs) := by
  induction xs generalizing start with
  | nil => simp [loop, extendFirst]
  | cons x xs ih =>
    unfold loop
    split
    · rw [loop_finished, loop_finished separator [[].reverse]]
      simp [extendFirst]
    · rw [ih (x :: start), ih [x], List.reverse_cons, extendFirst_append _ _ (loop_ne_nil _ _ _ _)]
      rfl

theorem pieces_nil (separator : α) : pieces separator [] = [[]] := rfl

theorem pieces_separator (separator : α) (xs : List α) :
    pieces separator (separator :: xs) = [] :: pieces separator xs := by
  simp only [pieces, loop, if_true]
  rw [loop_finished]
  rfl

theorem pieces_cons {separator x : α} (h : x ≠ separator) (xs : List α) :
    pieces separator (x :: xs) = extendFirst [x] (pieces separator xs) := by
  simp only [pieces, loop, h, if_false]
  exact loop_start separator [x] xs

/-- The pieces with the separator between each two. -/
def joined (separator : α) : List (List α) → List α
  | [] => []
  | [p] => p
  | p :: ps => p ++ separator :: joined separator ps

omit [DecidableEq α] in
theorem joined_extendFirst (separator : α) (start : List α) {ps : List (List α)} (h : ps ≠ []) :
    joined separator (extendFirst start ps) = start ++ joined separator ps := by
  match ps, h with
  | [p], _ => simp [extendFirst, joined]
  | p :: q :: ps, _ => simp [extendFirst, joined]

theorem joined_pieces (separator : α) (xs : List α) :
    joined separator (pieces separator xs) = xs := by
  induction xs with
  | nil => rfl
  | cons x xs ih =>
    have hne : pieces separator xs ≠ [] := loop_ne_nil separator [] [] xs
    by_cases h : x = separator
    · subst h
      rw [pieces_separator]
      cases hp : pieces x xs with
      | nil => exact absurd hp hne
      | cons p ps => simp [joined, ← hp, ih]
    · rw [pieces_cons h, joined_extendFirst separator [x] hne, ih]
      rfl

end Pieces

end SatSearch
