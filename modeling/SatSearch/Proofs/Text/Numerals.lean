import SatSearch.Text.Numeral
/-!
# Printed numbers read back

The readers of numerals are inverse to the decimal text of numbers, as far as their ranges go: counts up
to `2 ^ 64 - 1` (`count?_toString`) and signed numbers from `-2 ^ 63` to `2 ^ 63 - 1`
(`signed?_toString`). What else they read is said by a grammar: digits with a sign where one may stand
(`count?_eq_some_iff`, `signed?_eq_some_iff`).
-/

namespace SatSearch.Numeral

variable {cs : List Char} {n : Nat}

/-! ## Digits -/

theorem digitsFrom_eq (h : ∀ c ∈ cs, c.isDigit = true) (n : Nat) :
    digitsFrom n cs = some (Nat.ofDigitChars 10 cs n) := by
  induction cs generalizing n with
  | nil => simp [digitsFrom]
  | cons c cs ih =>
    obtain ⟨hc, hcs⟩ := List.forall_mem_cons.1 h
    rw [digitsFrom, if_pos hc, ih hcs, Nat.ofDigitChars_cons, Nat.mul_comm]
    rfl

theorem isDigit_of_mem_toDigits {c : Char} (h : c ∈ Nat.toDigits 10 n) : c.isDigit = true :=
  Nat.isDigit_of_mem_toDigits (by decide) (by decide) h

theorem digits?_toDigits (n : Nat) : digits? (Nat.toDigits 10 n) = some n := by
  have hread : digitsFrom 0 (Nat.toDigits 10 n) = some n := by
    rw [digitsFrom_eq fun c hc => isDigit_of_mem_toDigits hc, Nat.ofDigitChars_ten_toDigits]
  unfold digits?
  split
  · next h => exact absurd h Nat.toDigits_ne_nil
  · exact hread

/-- The decimal text of a number has a digit in front. -/
theorem exists_toDigits (n : Nat) : ∃ c cs, Nat.toDigits 10 n = c :: cs ∧ c.isDigit = true := by
  cases h : Nat.toDigits 10 n with
  | nil => exact absurd h Nat.toDigits_ne_nil
  | cons c cs =>
    have hc : c ∈ Nat.toDigits 10 n := by
      rw [h]
      exact List.mem_cons_self
    exact ⟨c, cs, rfl, isDigit_of_mem_toDigits hc⟩

theorem exists_digit_of_digits? (h : digits? cs = some n) : ∃ c ds, c.isDigit = true ∧ cs = c :: ds := by
  cases cs with
  | nil => cases h
  | cons c ds =>
    refine ⟨c, ds, ?_, rfl⟩
    rw [digits?.eq_2 _ (by simp), digitsFrom] at h
    split at h
    · assumption
    · cases h

/-! ## Counts -/

theorem toList_toString (n : Nat) : (toString n).toList = Nat.toDigits 10 n := by simp

theorem count?_toString (n : Nat) :
    count? (toString n).toList = if n < countLimit then some n else none := by
  obtain ⟨c, cs, hcs, hc⟩ := exists_toDigits n
  have hplain : count? (Nat.toDigits 10 n) = (digits? (Nat.toDigits 10 n)).filter (· < countLimit) := by
    rw [hcs]
    unfold count?
    split
    · next h =>
      cases h
      exact absurd hc (by decide)
    · rfl
  rw [toList_toString, hplain, digits?_toDigits, Option.filter_some]
  simp only [decide_eq_true_eq]

/-! ## Signed numbers -/

/-- The text of a signed number: its digits, with a minus sign in front if it is negative. -/
theorem toList_toString_int (x : Int) :
    (toString x).toList = (if x < 0 then ['-'] else []) ++ Nat.toDigits 10 x.natAbs := by
  cases x with
  | ofNat n => simp [Int.toString_eq_repr, Int.repr]
  | negSucc n => simp [Int.toString_eq_repr, Int.repr]

theorem signed?_toString {x : Int} (hmin : -signedLimit ≤ x) (hmax : x < signedLimit) :
    signed? (toString x).toList = some x := by
  obtain ⟨c, cs, hcs, hc⟩ := exists_toDigits x.natAbs
  have hread : digits? (c :: cs) = some x.natAbs := by
    rw [← hcs, digits?_toDigits]
  rw [toList_toString_int]
  by_cases hneg : x < 0
  · have hle : x.natAbs ≤ signedLimit := by omega
    have hx : -(x.natAbs : Int) = x := by omega
    rw [if_pos hneg, hcs, List.singleton_append, signed?, hread, Option.bind_some, if_pos hle, hx]
  · have hlt : x.natAbs < signedLimit := by omega
    have hx : (x.natAbs : Int) = x := by omega
    rw [if_neg hneg, hcs, List.nil_append]
    unfold signed?
    split
    · next h =>
      cases h
      exact absurd hc (by decide)
    · next h =>
      cases h
      exact absurd hc (by decide)
    · rw [hread, Option.bind_some, if_pos hlt, hx]

/-- What reads as a signed number is a digit with others behind it, after a sign or at once. -/
theorem exists_digit_of_signed? {x : Int} (h : signed? cs = some x) :
    ∃ c ds, c.isDigit = true ∧ (cs = '-' :: c :: ds ∨ cs = '+' :: c :: ds ∨ cs = c :: ds) := by
  unfold signed? at h
  split at h
  · obtain ⟨n, hn, -⟩ := Option.bind_eq_some_iff.1 h
    obtain ⟨c, ds, hc, rfl⟩ := exists_digit_of_digits? hn
    exact ⟨c, ds, hc, .inl rfl⟩
  · obtain ⟨n, hn, -⟩ := Option.bind_eq_some_iff.1 h
    obtain ⟨c, ds, hc, rfl⟩ := exists_digit_of_digits? hn
    exact ⟨c, ds, hc, .inr (.inl rfl)⟩
  · obtain ⟨n, hn, -⟩ := Option.bind_eq_some_iff.1 h
    obtain ⟨c, ds, hc, rfl⟩ := exists_digit_of_digits? hn
    exact ⟨c, ds, hc, .inr (.inr rfl)⟩

/-! ## The grammar of numerals -/

/-- One or more digits that stand for `n`. -/
structure IsDigits (cs : List Char) (n : Nat) : Prop where
  ne_nil : cs ≠ []
  isDigit : ∀ c ∈ cs, c.isDigit = true
  value_eq : Nat.ofDigitChars 10 cs 0 = n

/-- Digits with a plus sign in front or none, below `2 ^ 64`. -/
inductive IsCount : List Char → Nat → Prop
  | plain {cs : List Char} {n : Nat} : IsDigits cs n → n < countLimit → IsCount cs n
  | plus {cs : List Char} {n : Nat} : IsDigits cs n → n < countLimit → IsCount ('+' :: cs) n

/-- Digits with one sign in front or none, from `-2 ^ 63` to `2 ^ 63 - 1`. -/
inductive IsSigned : List Char → Int → Prop
  | plain {cs : List Char} {n : Nat} : IsDigits cs n → n < signedLimit → IsSigned cs n
  | plus {cs : List Char} {n : Nat} : IsDigits cs n → n < signedLimit → IsSigned ('+' :: cs) n
  | minus {cs : List Char} {n : Nat} : IsDigits cs n → n ≤ signedLimit → IsSigned ('-' :: cs) (-n)

theorem digitsFrom_eq_some {n m : Nat} (h : digitsFrom n cs = some m) : ∀ c ∈ cs, c.isDigit = true := by
  induction cs generalizing n with
  | nil => simp
  | cons c cs ih =>
    rw [digitsFrom] at h
    split at h
    · next hc => exact List.forall_mem_cons.2 ⟨hc, ih h⟩
    · cases h

theorem digits?_eq_some_iff : digits? cs = some n ↔ IsDigits cs n := by
  cases cs with
  | nil =>
    constructor
    · intro h
      cases h
    · intro h
      exact absurd rfl h.ne_nil
  | cons c cs =>
    rw [digits?.eq_2 _ (by simp)]
    constructor
    · intro h
      have hdigits := digitsFrom_eq_some h
      rw [digitsFrom_eq hdigits] at h
      exact ⟨by simp, hdigits, Option.some.inj h⟩
    · intro h
      rw [digitsFrom_eq h.isDigit, h.value_eq]

theorem IsDigits.head_ne {c d : Char} {ds : List Char} (h : IsDigits (d :: ds) n) (hc : c.isDigit = false) :
    d ≠ c := by
  rintro rfl
  have := h.isDigit d (by simp)
  simp [hc] at this

theorem count?_eq_some_iff : count? cs = some n ↔ IsCount cs n := by
  unfold count?
  simp only [Option.filter_eq_some_iff, decide_eq_true_eq, digits?_eq_some_iff]
  constructor
  · rintro ⟨hdigits, hlt⟩
    split at hdigits
    · exact .plus hdigits hlt
    · exact .plain hdigits hlt
  · rintro (⟨hdigits, hlt⟩ | ⟨hdigits, hlt⟩)
    · refine ⟨?_, hlt⟩
      split
      · exact absurd rfl (hdigits.head_ne (by decide))
      · exact hdigits
    · exact ⟨hdigits, hlt⟩

theorem IsCount.lt (h : IsCount cs n) : n < countLimit := by
  cases h <;> assumption

theorem signed?_eq_some_iff {x : Int} : signed? cs = some x ↔ IsSigned cs x := by
  constructor
  · intro h
    unfold signed? at h
    split at h <;> obtain ⟨n, hn, h⟩ := Option.bind_eq_some_iff.1 h <;> split at h <;> cases h
    · next hle => exact .minus (digits?_eq_some_iff.1 hn) hle
    · next hlt => exact .plus (digits?_eq_some_iff.1 hn) hlt
    · next hlt => exact .plain (digits?_eq_some_iff.1 hn) hlt
  · rintro (⟨hdigits, hlt⟩ | ⟨hdigits, hlt⟩ | ⟨hdigits, hle⟩)
    · unfold signed?
      split
      · exact absurd rfl (hdigits.head_ne (by decide))
      · exact absurd rfl (hdigits.head_ne (by decide))
      · simp [digits?_eq_some_iff.2 hdigits, hlt]
    · simp [signed?, digits?_eq_some_iff.2 hdigits, hlt]
    · simp [signed?, digits?_eq_some_iff.2 hdigits, hle]

theorem IsSigned.natAbs_le {x : Int} (h : IsSigned cs x) : x.natAbs ≤ signedLimit := by
  cases h <;> omega

/-! ## Truth values -/

theorem bool?_eq_some_iff {text : String} {b : Bool} : bool? text = some b ↔ text = toString b := by
  unfold bool?
  cases b <;> by_cases ht : text = "true" <;> by_cases hf : text = "false" <;> simp_all [toString]

end SatSearch.Numeral
