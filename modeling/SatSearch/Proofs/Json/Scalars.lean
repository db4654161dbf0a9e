import Mathlib.Data.List.TakeDrop
import Mathlib.Data.List.TakeWhile
import SatSearch.Json.Printer
import SatSearch.Json.Reader
import SatSearch.Proofs.Text.Numerals
/-!
# Strings and counts read back

What stands between quotes is read back character by character: each one is written as itself or as an escape that
stands for it (`stringFrom_escape`), so the reader is inverse to the printer on all strings (`string?_quote`). A
count is read up to the first character that no number goes on with (`number?_toDigits`).
-/

namespace SatSearch.Json

variable {c : Char} {cs rest : List Char} {limit n : Nat} {whole : Bool}

/-! ## Strings -/

theorem hexValue?_hexDigit : ∀ n, n < 16 → hexValue? (hexDigit n) = some n := by decide

theorem codeUnit?_control (h : n < 32) (rest : List Char) :
    codeUnit? ('0' :: '0' :: hexDigit (n / 16) :: hexDigit (n % 16) :: rest) = some (n, rest) := by
  have hzero : hexValue? '0' = some 0 := rfl
  have hsum : n / 16 * 16 + n % 16 = n := by omega
  simp [codeUnit?, hzero, hexValue?_hexDigit (n / 16) (by omega), hexValue?_hexDigit (n % 16) (by omega), hsum]

theorem escaped?_control (h : c.toNat < 32) (rest : List Char) :
    escaped? ('u' :: '0' :: '0' :: hexDigit (c.toNat / 16) :: hexDigit (c.toNat % 16) :: rest) =
      some (some c, rest) := by
  have hhigh : isHighSurrogate c.toNat = false := by
    simp [isHighSurrogate]
    omega
  have hlow : isLowSurrogate c.toNat = false := by
    simp [isLowSurrogate]
    omega
  simp [escaped?, codeUnit?_control h, hhigh, hlow]

/-- One character of a string, written as itself or as an escape, is read in one step. -/
theorem stringFrom_escape (c : Char) (read : List Char) : stringFrom (limit + 1) whole read (escape c ++ rest) =
    stringFrom limit whole (c :: read) rest := by
  unfold escape
  split
  · rfl
  · rfl
  · rfl
  · rfl
  · rfl
  · rfl
  · rfl
  · next hquote hbackslash _ _ _ _ _ =>
    by_cases hcontrol : c.toNat < 32
    · simp [stringFrom, hcontrol, escaped?_control hcontrol]
    · rw [if_neg hcontrol, List.singleton_append, stringFrom.eq_5 _ _ _ _ _ hquote hbackslash, if_neg hcontrol]

theorem stringFrom_flatMap_escape : ∀ (limit : Nat) (cs read : List Char), cs.length < limit →
    stringFrom limit true read (cs.flatMap escape ++ '"' :: rest) =
      some (some (String.ofList (read.reverse ++ cs)), rest)
  | 0, _, _, h => absurd h (Nat.not_lt_zero _)
  | limit + 1, [], read, _ => by simp [stringFrom]
  | limit + 1, c :: cs, read, h => by
    have hlimit : cs.length < limit := by simpa using h
    rw [List.flatMap_cons, List.append_assoc, stringFrom_escape,
      stringFrom_flatMap_escape limit cs (c :: read) hlimit, List.reverse_cons, List.append_assoc,
      List.singleton_append]

theorem length_escape_pos (c : Char) : 0 < (escape c).length := by
  unfold escape
  by_cases hcontrol : c.toNat < 32
  · split <;> simp [hcontrol]
  · split <;> simp [hcontrol]

theorem length_le_flatMap_escape : ∀ cs : List Char, cs.length ≤ (cs.flatMap escape).length
  | [] => Nat.le_refl 0
  | c :: cs => by
    have hc := length_escape_pos c
    have hcs := length_le_flatMap_escape cs
    rw [List.flatMap_cons, List.length_append, List.length_cons]
    omega

/-- **A string between quotes is read back.** -/
theorem string?_quote (s : String) (rest : List Char) :
    string? (s.toList.flatMap escape ++ '"' :: rest) = some (some s, rest) := by
  have hlength := length_le_flatMap_escape s.toList
  rw [string?, stringFrom_flatMap_escape, List.reverse_nil, List.nil_append, String.ofList_toList]
  simp only [List.length_append, List.length_cons]
  omega

/-! ## Counts -/

/-- No number goes on with the first of the characters. -/
def NumberEnds (cs : List Char) : Prop :=
  ∀ c ∈ cs.head?, c.isDigit = false ∧ c ≠ '.' ∧ c ≠ 'e' ∧ c ≠ 'E'

theorem head_toDigits_ne {n : Nat} (h : 0 < n) : (Nat.toDigits 10 n).head? ≠ some '0' := by
  induction n using Nat.strongRecOn with
  | ind n ih =>
    by_cases hlt : n < 10
    · rw [Nat.toDigits_of_lt_base hlt]
      have hdigit : ∀ m < 10, 0 < m → m.digitChar ≠ '0' := by decide
      simpa using hdigit n hlt h
    · have hle : 10 ≤ n := Nat.le_of_not_lt hlt
      have hfront := ih (n / 10) (by omega) (by omega)
      obtain ⟨c, cs, hcs, -⟩ := Numeral.exists_toDigits (n / 10)
      rw [Nat.toDigits_of_base_le (by decide) hle, hcs]
      rw [hcs] at hfront
      exact hfront

theorem toDigits_ne_zero_cons (n : Nat) (c : Char) (cs : List Char) : Nat.toDigits 10 n ≠ '0' :: c :: cs := by
  intro h
  rcases Nat.eq_zero_or_pos n with rfl | hpos
  · simp at h
  · apply head_toDigits_ne hpos
    rw [h, List.head?_cons]

theorem someDigits?_append (hne : cs ≠ []) (hcs : ∀ c ∈ cs, c.isDigit = true)
    (hrest : ∀ c ∈ rest.head?, c.isDigit = false) : someDigits? (cs ++ rest) = some (cs, rest) := by
  have htake : rest.takeWhile Char.isDigit = [] := by
    cases rest with
    | nil => rfl
    | cons c rest => simpa using hrest c rfl
  have hdrop : rest.dropWhile Char.isDigit = rest := by
    cases rest with
    | nil => rfl
    | cons c rest => simpa using hrest c rfl
  rw [someDigits?, List.span_eq_takeWhile_dropWhile, List.takeWhile_append_of_pos hcs,
    List.dropWhile_append_of_pos hcs, htake, hdrop]
  simpa using hne

theorem wholePart?_toDigits (n : Nat) (hrest : NumberEnds rest) :
    wholePart? (Nat.toDigits 10 n ++ rest) = some (Nat.toDigits 10 n, rest) := by
  rw [wholePart?, someDigits?_append Nat.toDigits_ne_nil (fun c hc => Numeral.isDigit_of_mem_toDigits hc)
    fun c hc => (hrest c hc).1]
  split
  · next h =>
    have hdigits := (Prod.mk.inj (Option.some.inj h)).1
    exact absurd hdigits (toDigits_ne_zero_cons n _ _)
  · rfl

theorem fractionPart?_ends (hrest : NumberEnds rest) : fractionPart? rest = some ([], rest) := by
  unfold fractionPart?
  split
  · exact absurd rfl (hrest '.' rfl).2.1
  · rfl

theorem exponentPart?_ends (hrest : NumberEnds rest) : exponentPart? rest = some ([], rest) := by
  unfold exponentPart?
  split
  · next c _ =>
    obtain ⟨-, -, he, hE⟩ := hrest c rfl
    rw [if_neg (not_or.2 ⟨he, hE⟩)]
  · rfl

/-- **A count is read back.** -/
theorem number?_toDigits (n : Nat) (hrest : NumberEnds rest) :
    number? (Nat.toDigits 10 n ++ rest) = some (Nat.toDigits 10 n, rest) := by
  have hwhole := wholePart?_toDigits n hrest
  obtain ⟨c, cs, hcs, hc⟩ := Numeral.exists_toDigits n
  have hminus : c ≠ '-' := by
    rintro rfl
    exact absurd hc (by decide)
  rw [hcs, List.cons_append] at hwhole ⊢
  simp [number?, hminus, hwhole, fractionPart?_ends hrest, exponentPart?_ends hrest]

end SatSearch.Json
